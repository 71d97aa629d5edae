import Hy2Route.Foundation.Netfilter

/-!
# The generated ruleset

The chains that the generator emits. `active` hands traffic to the core while
the heartbeat verdicts are present, and the unavailable rules block what would
have gone there once they have lapsed.
-/

namespace Hy2Route.Firewall

open Foundation Netfilter

/-- The settings that the emitted chains depend on. -/
structure NftConfig where
  lanInterface : String
  canarySource : Option (BitVec 32)
  transparentPort : Nat
  fwmark : Nat
  bypassMark : Nat
  dnsPort : Nat
  blockIPv6 : Bool

inductive TableSet where
  | bypass4
  | china4
  | forceProxy4
  | forceDirect4
  | direct4
  | inspect4
  deriving DecidableEq

inductive TableMap where
  | coreState
  | outputState
  | outputGuardState
  deriving DecidableEq

inductive Chain where
  | blockForwardIPv6
  | preroutingMangle
  | failClosed
  | active
  | outputNat
  | outputFailClosed
  | outputGuard
  | outputActive
  | preroutingNat
  deriving DecidableEq

abbrev NftRule := Rule TableSet TableMap Chain

abbrev NftEnv := Env TableSet TableMap Chain

/-- A prefix in dotted form. -/
def cidr (a b c d : BitVec 8) (bits : Fin 33) : IPv4Prefix :=
  ⟨a ++ b ++ c ++ d, bits, Nat.le_of_lt_succ bits.isLt⟩

/-- The ranges that `bypass4` always holds. -/
def bypassLiterals : List IPv4Prefix :=
  [cidr 0 0 0 0 8, cidr 10 0 0 0 8, cidr 100 64 0 0 10, cidr 127 0 0 0 8, cidr 169 254 0 0 16,
    cidr 172 16 0 0 12, cidr 192 168 0 0 16, cidr 224 0 0 0 4, cidr 240 0 0 0 4]

/-- The private ranges that the active chain lets pass after the explicit addresses. -/
def privateAddr (daddr : BitVec 32) : Bool :=
  [cidr 10 0 0 0 8, cidr 169 254 0 0 16, cidr 172 16 0 0 12, cidr 192 168 0 0 16].any
    (·.contains daddr)

/-- The elements of `bypass4`: the literal ranges and the servers given by address. -/
def bypassElements (servers : List (BitVec 32)) : List IPv4Prefix :=
  bypassLiterals ++ servers.map fun server => ⟨server, 32, Nat.le_refl 32⟩

section Rules

variable (cfg : NftConfig)

/-- Rules emitted only for a canary. -/
def canaryDNSRules : List NftRule :=
  match cfg.canarySource with
  | none => []
  | some _ =>
      [[.test (.dport .udp 53), .verdict .ret],
        [.test (.dport .tcp 53), .verdict .ret]]

def unavailableRules (localOutput : Bool) : List NftRule :=
  [[.test .nfprotoNeIPv4, .verdict .ret],
    [.test (.daddrIn .bypass4), .verdict .ret]] ++
  (if localOutput then [] else canaryDNSRules cfg) ++
  [[.test (.daddrIn .forceProxy4), .test (.l4proto [.tcp, .udp]), .verdict .drop],
    [.test (.daddrIn .forceDirect4), .verdict .ret],
    [.test (.daddrIn .inspect4), .test (.l4proto [.tcp, .udp]), .verdict .drop],
    [.test (.daddrIn .direct4), .verdict .ret],
    [.test (.daddrIn .china4), .verdict .ret],
    [.test (.l4proto [.tcp, .udp]), .verdict .drop]]

/-- Hand a protocol's packets to the core. -/
def interceptRule (tests : List (Test TableSet)) (proto : L4Proto) : NftRule :=
  tests.map .test ++ [.test (.l4proto [proto]), .tproxy cfg.transparentPort, .setMark cfg.fwmark,
    .verdict .accept]

/-- The rules of the active chain for the explicit addresses. -/
def explicitRules : List NftRule :=
  [interceptRule cfg [.daddrIn .forceProxy4] .tcp,
    interceptRule cfg [.daddrIn .forceProxy4] .udp,
    [.test (.daddrIn .forceDirect4), .verdict .ret]]

/-- The rules of the active chain for all other addresses. -/
def otherRules : List NftRule :=
  [[.test (.daddrAmong [cidr 10 0 0 0 8, cidr 169 254 0 0 16, cidr 172 16 0 0 12,
      cidr 192 168 0 0 16]), .verdict .ret],
    interceptRule cfg [.daddrIn .inspect4] .tcp,
    interceptRule cfg [.daddrIn .inspect4] .udp,
    [.test (.daddrIn .direct4), .verdict .ret],
    [.test (.daddrIn .china4), .verdict .ret],
    interceptRule cfg [] .tcp,
    interceptRule cfg [] .udp]

def activeRules : List NftRule :=
  [[.test .nfprotoNeIPv4, .verdict .ret],
    [.test (.daddrIn .bypass4), .verdict .ret]] ++
  canaryDNSRules cfg ++ explicitRules cfg ++ otherRules cfg

def preroutingMangleRules : List NftRule :=
  [[.test (.iifnameNe cfg.lanInterface), .verdict .ret]] ++
  (match cfg.canarySource with
    | none => [[.test (.mark cfg.bypassMark), .verdict .ret]]
    | some source => [[.test (.saddrNe source), .verdict .ret]]) ++
  [[.test .fibDaddrLocal, .verdict .ret],
    [.setMark 1],
    [.markVmap .coreState],
    [.verdict (.jump .failClosed)]]

/-- The chains of local output, which differ in their verdict map only. -/
def outputRules (map : TableMap) : List NftRule :=
  [[.test (.l4protoNe .tcp), .verdict .ret],
    [.test (.mark cfg.bypassMark), .verdict .ret],
    [.test .nfprotoNeIPv4, .verdict .ret],
    [.test .fibDaddrLocal, .verdict .ret],
    [.setMark 1],
    [.markVmap map],
    [.verdict (.jump .outputFailClosed)]]

def outputActiveRules : List NftRule :=
  [[.test (.daddrIn .bypass4), .verdict .ret],
    [.test (.daddrIn .forceProxy4), .test (.l4proto [.tcp]), .redirect cfg.transparentPort],
    [.test (.daddrIn .forceDirect4), .verdict .ret],
    [.test (.daddrIn .inspect4), .test (.l4proto [.tcp]), .redirect cfg.transparentPort],
    [.test (.daddrIn .direct4), .verdict .ret],
    [.test (.daddrIn .china4), .verdict .ret],
    [.test (.l4proto [.tcp]), .redirect cfg.transparentPort]]

/-- The emitted table; a chain that is not emitted has no rules. -/
def emitNft : Chain → List NftRule
  | .blockForwardIPv6 =>
      if cfg.blockIPv6 then
        [[.test (.iifname cfg.lanInterface), .test .nfprotoIPv6, .verdict .drop]]
      else []
  | .preroutingMangle => preroutingMangleRules cfg
  | .failClosed => unavailableRules cfg false
  | .active => activeRules cfg
  | .outputNat => outputRules cfg .outputState
  | .outputFailClosed => unavailableRules cfg true
  | .outputGuard => outputRules cfg .outputGuardState
  | .outputActive => outputActiveRules cfg
  | .preroutingNat =>
      match cfg.canarySource with
      | none => []
      | some source =>
          [[.test (.iifnameNe cfg.lanInterface), .verdict .ret],
            [.test (.saddrNe source), .verdict .ret],
            [.test (.dport .udp 53), .redirect cfg.dnsPort],
            [.test (.dport .tcp 53), .redirect cfg.dnsPort]]

end Rules

end Hy2Route.Firewall
