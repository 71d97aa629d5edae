import Hy2Route.Foundation.NetIP

/-!
# Packet filter chains

A rule is a list of expressions that are evaluated from left to right. A test
that fails ends the rule, and the next rule of the chain is tried. A rule that
gives a verdict ends the chain, except that a jump continues after the chain it
jumped to has returned.

## Implementation notes

A test of an IPv4 header field fails on every other packet, also when it is a
comparison for inequality. The transparent socket of a `tproxy` is taken to be
there, so the statement always assigns the packet. A chain is evaluated with a
bound on the depth of jumps, as the kernel has one.
-/

namespace Hy2Route.Foundation.Netfilter

inductive L4Proto where
  | tcp
  | udp
  | other
  deriving DecidableEq

inductive Header where
  | ipv4 (saddr daddr : BitVec 32)
  | ipv6 (saddr daddr : BitVec 128)
  deriving DecidableEq

/-- A packet with the facts that rules test and the marks they leave on it. -/
structure Packet where
  iifname : String
  header : Header
  l4proto : L4Proto
  dport : Nat
  /-- the destination is an address of this host -/
  daddrLocal : Bool
  mark : Nat
  tproxy : Option Nat := none
  redirect : Option Nat := none
  deriving DecidableEq

/-- The packet with a mark. -/
def Packet.withMark (p : Packet) (value : Nat) : Packet := { p with mark := value }

/-- The packet assigned to a transparent socket. -/
def Packet.toSocket (p : Packet) (port : Nat) : Packet := { p with tproxy := some port }

/-- The packet redirected to a local port. -/
def Packet.toPort (p : Packet) (port : Nat) : Packet := { p with redirect := some port }

theorem Header.cases (header : Header) :
    (∃ saddr daddr, header = .ipv4 saddr daddr) ∨ ∃ saddr daddr, header = .ipv6 saddr daddr := by
  cases header with
  | ipv4 saddr daddr => exact Or.inl ⟨saddr, daddr, rfl⟩
  | ipv6 saddr daddr => exact Or.inr ⟨saddr, daddr, rfl⟩

theorem L4Proto.cases (proto : L4Proto) : proto = .tcp ∨ proto = .udp ∨ proto = .other := by
  cases proto <;> simp

inductive Verdict (C : Type) where
  | accept
  | drop
  | ret
  | jump (chain : C)
  deriving DecidableEq

inductive Test (S : Type) where
  | iifname (name : String)
  | iifnameNe (name : String)
  | nfprotoNeIPv4
  | nfprotoIPv6
  | mark (value : Nat)
  | saddrNe (addr : BitVec 32)
  | daddrIn (set : S)
  | daddrAmong (prefixes : List IPv4Prefix)
  | fibDaddrLocal
  | l4proto (protos : List L4Proto)
  | l4protoNe (proto : L4Proto)
  | dport (proto : L4Proto) (port : Nat)
  deriving DecidableEq

inductive Expr (S M C : Type) where
  | test (t : Test S)
  | setMark (value : Nat)
  | tproxy (port : Nat)
  | redirect (port : Nat)
  | markVmap (map : M)
  | verdict (v : Verdict C)
  deriving DecidableEq

abbrev Rule (S M C : Type) := List (Expr S M C)

/-- The contents of the named sets and verdict maps at an instant. -/
structure Env (S M C : Type) where
  sets : S → BitVec 32 → Bool
  maps : M → Nat → Option (Verdict C)

variable {S M C : Type}

def Test.holds (env : Env S M C) (p : Packet) : Test S → Bool
  | .iifname name => p.iifname == name
  | .iifnameNe name => p.iifname != name
  | .nfprotoNeIPv4 =>
      match p.header with
      | .ipv4 _ _ => false
      | .ipv6 _ _ => true
  | .nfprotoIPv6 =>
      match p.header with
      | .ipv4 _ _ => false
      | .ipv6 _ _ => true
  | .mark value => p.mark == value
  | .saddrNe addr =>
      match p.header with
      | .ipv4 saddr _ => saddr != addr
      | .ipv6 _ _ => false
  | .daddrIn set =>
      match p.header with
      | .ipv4 _ daddr => env.sets set daddr
      | .ipv6 _ _ => false
  | .daddrAmong prefixes =>
      match p.header with
      | .ipv4 _ daddr => prefixes.any (·.contains daddr)
      | .ipv6 _ _ => false
  | .fibDaddrLocal => p.daddrLocal
  | .l4proto protos => protos.contains p.l4proto
  | .l4protoNe proto => p.l4proto != proto
  | .dport proto port => p.l4proto == proto && p.dport == port

inductive RuleResult (C : Type) where
  | next (p : Packet)
  | verdict (v : Verdict C) (p : Packet)

def evalRule (env : Env S M C) : Rule S M C → Packet → RuleResult C
  | [], p => .next p
  | .test t :: rest, p => if t.holds env p then evalRule env rest p else .next p
  | .setMark value :: rest, p => evalRule env rest (p.withMark value)
  | .tproxy port :: rest, p => evalRule env rest (p.toSocket port)
  | .redirect port :: _, p => .verdict .accept (p.toPort port)
  | .markVmap map :: _, p =>
      match env.maps map p.mark with
      | some v => .verdict v p
      | none => .next p
  | .verdict v :: _, p => .verdict v p

/-- How a chain ends. A base chain that returns falls to its policy. -/
inductive Outcome where
  | accept (p : Packet)
  | drop
  | returned (p : Packet)
  | tooDeep
  deriving DecidableEq

/-- The packet ends in the transparent socket of a port. -/
def Outcome.Intercepted (outcome : Outcome) (port : Nat) : Prop :=
  ∃ p, outcome = .accept p ∧ p.tproxy = some port

/-- The packet ends at a local port. -/
def Outcome.Redirected (outcome : Outcome) (port : Nat) : Prop :=
  ∃ p, outcome = .accept p ∧ p.redirect = some port

/-- Evaluate rules in order; `call` evaluates the chain of a jump. -/
def evalRules (call : C → Packet → Outcome) (env : Env S M C) :
    List (Rule S M C) → Packet → Outcome
  | [], p => .returned p
  | rule :: rest, p =>
      match evalRule env rule p with
      | .next p => evalRules call env rest p
      | .verdict .accept p => .accept p
      | .verdict .drop _ => .drop
      | .verdict .ret p => .returned p
      | .verdict (.jump chain) p =>
          match call chain p with
          | .returned p => evalRules call env rest p
          | outcome => outcome

def evalChain (env : Env S M C) (ruleset : C → List (Rule S M C)) : Nat → C → Packet → Outcome
  | 0, _, _ => .tooDeep
  | depth + 1, chain, p => evalRules (evalChain env ruleset depth) env (ruleset chain) p

/-- The kernel's bound on nested jumps. -/
def jumpStackSize : Nat := 16

def run (env : Env S M C) (ruleset : C → List (Rule S M C)) (chain : C) (p : Packet) : Outcome :=
  evalChain env ruleset jumpStackSize chain p

/-- The rule that gives the first verdict of a chain without jumps. -/
def decidingRule (env : Env S M C) : List (Rule S M C) → Packet → Option (Rule S M C)
  | [], _ => none
  | rule :: rest, p =>
      match evalRule env rule p with
      | .next p => decidingRule env rest p
      | .verdict _ _ => some rule

/-! ## Rules that test and then act -/

variable (call : C → Packet → Outcome) (env : Env S M C)

theorem evalRules_nil (p : Packet) : evalRules call env [] p = .returned p := rfl

/-- A rule whose first test fails is skipped. -/
theorem evalRules_test (t : Test S) (body : Rule S M C) (rest : List (Rule S M C)) (p : Packet) :
    evalRules call env ((.test t :: body) :: rest) p =
      if t.holds env p then evalRules call env (body :: rest) p else evalRules call env rest p := by
  simp only [evalRules, evalRule]
  split_ifs <;> rfl

theorem evalRules_setMark (value : Nat) (rest : List (Rule S M C)) (p : Packet) :
    evalRules call env ([.setMark value] :: rest) p =
      evalRules call env rest (p.withMark value) := rfl

theorem evalRules_ret (rest : List (Rule S M C)) (p : Packet) :
    evalRules call env ([.verdict .ret] :: rest) p = .returned p := rfl

theorem evalRules_drop (rest : List (Rule S M C)) (p : Packet) :
    evalRules call env ([.verdict .drop] :: rest) p = .drop := rfl

theorem evalRules_redirect (port : Nat) (rest : List (Rule S M C)) (p : Packet) :
    evalRules call env ([.redirect port] :: rest) p = .accept (p.toPort port) := rfl

/-- Assign the packet to a transparent socket, mark it and accept it. -/
theorem evalRules_tproxy (port value : Nat) (rest : List (Rule S M C)) (p : Packet) :
    evalRules call env ([.tproxy port, .setMark value, .verdict .accept] :: rest) p =
      .accept ((p.toSocket port).withMark value) := rfl

/-- A jump goes on with the next rule when its chain returns. -/
theorem evalRules_jump (chain : C) (rest : List (Rule S M C)) (p : Packet) :
    evalRules call env ([.verdict (.jump chain)] :: rest) p =
      match call chain p with
      | .returned p => evalRules call env rest p
      | outcome => outcome := rfl

/-- A verdict map acts as the verdict it holds for the mark, and is skipped without one. -/
theorem evalRules_markVmap (map : M) (rest : List (Rule S M C)) (p : Packet) :
    evalRules call env ([.markVmap map] :: rest) p =
      match env.maps map p.mark with
      | some v => evalRules call env ([.verdict v] :: rest) p
      | none => evalRules call env rest p := by
  simp only [evalRules, evalRule]
  cases env.maps map p.mark with
  | none => rfl
  | some v => cases v <;> rfl

/-! ## The deciding rule -/

variable {env}

theorem decidingRule_skip {rule : Rule S M C} {p : Packet} (h : evalRule env rule p = .next p)
    (rest : List (Rule S M C)) :
    decidingRule env (rule :: rest) p = decidingRule env rest p := by
  simp only [decidingRule, h]

theorem decidingRule_stop {rule : Rule S M C} {p q : Packet} {v : Verdict C}
    (h : evalRule env rule p = .verdict v q) (rest : List (Rule S M C)) :
    decidingRule env (rule :: rest) p = some rule := by
  simp only [decidingRule, h]

theorem decidingRule_mem {rule : Rule S M C} : ∀ {rules : List (Rule S M C)} {p : Packet},
    decidingRule env rules p = some rule → rule ∈ rules
  | first :: rest, p, h => by
      cases hfirst : evalRule env first p with
      | next q =>
          simp only [decidingRule, hfirst] at h
          exact List.mem_cons_of_mem _ (decidingRule_mem h)
      | verdict v q =>
          rw [decidingRule_stop hfirst] at h
          exact Option.some.inj h ▸ List.mem_cons_self

end Hy2Route.Foundation.Netfilter
