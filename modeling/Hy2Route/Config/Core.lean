import Hy2Route.Config.Validate
import Hy2Route.Foundation.Checked
import Hy2Route.Foundation.Encodings
import Hy2Route.Foundation.HostPort

/-!
# The core's configuration

Validation fills in what is missing and checks every field in turn.

## Implementation notes

Durations are in nanoseconds. Ports may be names of services, so how a port is read is a
parameter. The three listeners are visited in the order of a map iteration, which is a
parameter too; it decides about the message alone.
-/

namespace Hy2Route.Config

open Foundation Policy

structure ListenConfig where
  dns : Bytes
  tcp : Bytes
  udp : Bytes

structure HY2Config where
  server : Bytes
  auth : Bytes
  sni : Bytes
  insecure : Bool
  pinnedCertSHA256 : Bytes
  maxIdle : Int
  keepAlive : Int
  initialStreamWindow : UInt64
  maxStreamWindow : UInt64
  initialConnectionWindow : UInt64
  maxConnectionWindow : UInt64
  maxConcurrentDials : Int

structure TCPRelayConfig where
  enabled : Bool
  server : Bytes
  uuid : Bytes
  serverName : Bytes
  publicKey : Bytes
  shortID : Bytes
  fingerprint : Bytes
  flow : Bytes

structure LandingConfig where
  udp : Bool
  maxUDPPayload : Int
  type : Bytes
  server : Bytes
  username : Bytes
  password : Bytes

structure LimitsConfig where
  dnsCacheEntries : Int
  learnedIPEntries : Int
  tcpSessions : Int
  udpSessions : Int
  udpIdle : Int
  sniffBytes : Int
  sniffTimeout : Int

structure HealthConfig where
  failureThreshold : Int
  successThreshold : Int
  cooldown : Int
  probeInterval : Int

/-- `Config` of the source. -/
structure CoreConfig where
  listen : ListenConfig
  domesticDNS : Bytes
  trustedDNS : Bytes
  hy2 : HY2Config
  tcpRelay : TCPRelayConfig
  tcpDomainDial : Bool
  udpPolicy : Bytes
  landing : LandingConfig
  limits : LimitsConfig
  health : HealthConfig
  firewall : FirewallConfig
  rules : List RuleConfig
  /-- The path of the routing data. -/
  routing : Bytes
  controlSocket : Bytes
  logLevel : Bytes
  failOpen : Bool

/-! ## What is reported -/

/-- An address that must be IPv4. -/
inductive EndpointName where
  | listenDNS
  | listenTCP
  | listenUDP
  | domesticDNS
  | trustedDNS
  deriving DecidableEq

def EndpointName.text : EndpointName → String
  | .listenDNS => "listen.dns"
  | .listenTCP => "listen.tcp"
  | .listenUDP => "listen.udp"
  | .domesticDNS => "domestic_dns"
  | .trustedDNS => "trusted_dns"

/-- A server that may have a name. -/
inductive ServerName where
  | hy2
  | tcpRelay
  | landing
  deriving DecidableEq

def ServerName.text : ServerName → String
  | .hy2 => "hy2.server"
  | .tcpRelay => "tcp_relay.server"
  | .landing => "landing.server"

inductive CheckError where
  | controlSocket
  | endpoint (name : EndpointName)
  | listenPorts
  | hostPort (name : ServerName)
  | port (name : ServerName)
  | hy2Auth
  | hy2SNI
  | pinLength
  | pinHex
  | maxIdle
  | keepAlive
  | maxConcurrentDials
  | windows
  | uuid
  | relayServerName
  | publicKey
  | shortIDLength
  | shortID
  | fingerprint
  | flow
  | udpPolicy
  | landingUDP
  | maxUDPPayload
  | landingCredentials
  | landingType
  | tcpSessions
  | limits
  | udpOrSniff
  | health
  /-- A check of the firewall section or of the rules. -/
  | checked (err : ConfigError)
  | routing
  | logLevel
  deriving DecidableEq

def ConfigError.message : ConfigError → String
  | .noBypassMark => "firewall mark leaves no bypass mark"
  | .firewallName => "firewall table and lan_interface must contain only [A-Za-z0-9_.-]"
  | .firewallZero => "firewall mark and route_table must be non-zero"
  | .bypassMark => "firewall bypass_mark must differ from mark"
  | .reservedBypassMark => "firewall bypass_mark 1 is reserved for heartbeat selectors"
  | .canarySource => "firewall canary_source must be an IPv4 host address"
  | .ruleAction => "rule action must be direct or proxy"
  | .ruleDomain => "rule domain is invalid"
  | .ruleIP => "rule IP must be an IPv4 CIDR"
  | .ruleType => "rule type must be domain or ip"

def CheckError.message : CheckError → String
  | .controlSocket => "control_socket must be an absolute path"
  | .endpoint name => name.text ++ " must be an IPv4 address and port"
  | .listenPorts => "DNS and TCP listen ports must be distinct"
  | .hostPort name => name.text ++ " must be an IPv4 or DNS host and port"
  | .port name => name.text ++ " must have a valid port"
  | .hy2Auth => "hy2 auth is required"
  | .hy2SNI => "hy2 sni must be a DNS name"
  | .pinLength => "hy2 pinned_cert_sha256 must be 64 hex characters"
  | .pinHex => "hy2 pinned_cert_sha256 must be hexadecimal"
  | .maxIdle => "hy2 max_idle must be between 4s and 120s"
  | .keepAlive => "hy2 keep_alive must be between 2s and 60s"
  | .maxConcurrentDials => "hy2 max_concurrent_dials must be between 1 and 256"
  | .windows => "hy2 windows are invalid"
  | .uuid => "tcp_relay uuid must be a UUID"
  | .relayServerName => "tcp_relay server_name must be a DNS name"
  | .publicKey => "tcp_relay public_key must be a base64url X25519 public key"
  | .shortIDLength => "tcp_relay short_id must be at most 16 hex characters"
  | .shortID => "tcp_relay short_id must contain pairs of hex characters"
  | .fingerprint => "tcp_relay fingerprint is unsupported"
  | .flow => "tcp_relay flow must be xtls-rprx-vision or xtls-rprx-vision-udp443"
  | .udpPolicy => "udp_policy must be proxy, direct, or block"
  | .landingUDP => "landing UDP requires socks5 with UDP ASSOCIATE support"
  | .maxUDPPayload => "landing max_udp_payload must be between 0 and 65507"
  | .landingCredentials => "landing credentials are allowed only for http or socks5"
  | .landingType => "landing type must be direct, http, or socks5"
  | .tcpSessions => "TCP session limit is out of range"
  | .limits => "cache and session limits are out of range"
  | .udpOrSniff => "udp or sniff limits are out of range"
  | .health => "health settings are out of range"
  | .checked err => err.message
  | .routing => "data routing path is required"
  | .logLevel => "log_level must be debug, info, warn, or error"

/-! ## Endpoints -/

inductive Network where
  | tcp
  | udp
  deriving DecidableEq

/-- How the name or the number of a port is read. -/
structure Services where
  lookupPort : Network → Bytes → Option Nat
  lookupPort_le : ∀ network service port, lookupPort network service = some port → port ≤ 65535

section Checks

variable (services : Services)

def parseIPv4Endpoint (endpoint : Bytes) : Option (BitVec 32 × Nat) :=
  match splitHostPort endpoint with
  | none => none
  | some (host, service) =>
      match parseIPv4 host with
      | none => none
      | some addr =>
          match services.lookupPort .udp service with
          | none => none
          | some port => if port < 1 ∨ 65535 < port then none else some (addr, port)

def validateIPv4Endpoint (name : EndpointName) (endpoint : Bytes) : Except CheckError Unit :=
  refuse (parseIPv4Endpoint services endpoint = none) (.endpoint name)

def validateHostPort (name : ServerName) (endpoint : Bytes) : Except CheckError Unit :=
  match splitHostPort endpoint with
  | none => .error (.hostPort name)
  | some (host, service) => do
      refuse (host = [] ∨ (0x3A : UInt8) ∈ host) (.hostPort name)
      refuse (services.lookupPort .tcp service = none) (.port name)

/-- The order in which the listeners are visited. -/
structure ListenOrder where
  names : List EndpointName
  perm : names.Perm [.listenDNS, .listenTCP, .listenUDP]

def ListenConfig.endpoint (listen : ListenConfig) : EndpointName → Bytes
  | .listenDNS => listen.dns
  | .listenTCP => listen.tcp
  | .listenUDP => listen.udp
  | _ => []

/-- The ports of the listeners but that of UDP. -/
def listenLoop (listen : ListenConfig) :
    List EndpointName → List Nat → Except CheckError (List Nat)
  | [], ports => .ok ports
  | name :: rest, ports =>
      match parseIPv4Endpoint services (listen.endpoint name) with
      | none => .error (.endpoint name)
      | some (_, port) =>
          if port = 0 then .error (.endpoint name)
          else listenLoop listen rest (if name = .listenUDP then ports else ports.insert port)

def validateListen (order : ListenOrder) (listen : ListenConfig) : Except CheckError Unit := do
  let ports ← listenLoop services listen order.names []
  refuse (ports.length ≠ 2) .listenPorts

/-! ## Sections -/

def between (value min max : Int) : Prop := min ≤ value ∧ value ≤ max

instance (value min max : Int) : Decidable (between value min max) :=
  inferInstanceAs (Decidable (_ ∧ _))

def orDefault {α : Type} [DecidableEq α] (value missing default : α) : α :=
  if value = missing then default else value

def defaultInitialStreamWindow : UInt64 := 1048576

def defaultMaxStreamWindow : UInt64 := 4194304

def defaultInitialConnectionWindow : UInt64 := 4194304

def defaultMaxConnectionWindow : UInt64 := 8388608

def setWindowDefaults (h : HY2Config) : HY2Config :=
  { h with
    initialStreamWindow := orDefault h.initialStreamWindow 0 defaultInitialStreamWindow
    maxStreamWindow := orDefault h.maxStreamWindow 0 defaultMaxStreamWindow
    initialConnectionWindow :=
      orDefault h.initialConnectionWindow 0 defaultInitialConnectionWindow
    maxConnectionWindow := orDefault h.maxConnectionWindow 0 defaultMaxConnectionWindow }

def setDialDefault (h : HY2Config) : HY2Config :=
  { h with maxConcurrentDials := orDefault h.maxConcurrentDials 0 32 }

def validateHY2 (h : HY2Config) : Except CheckError HY2Config := do
  validateHostPort services .hy2 h.server
  refuse (trimSpace h.auth = []) .hy2Auth
  refuse (validDNSName h.sni = false) .hy2SNI
  refuse (h.pinnedCertSHA256 ≠ [] ∧ h.pinnedCertSHA256.length ≠ 64) .pinLength
  refuse (h.pinnedCertSHA256 ≠ [] ∧ hexDecode h.pinnedCertSHA256 = none) .pinHex
  refuse (¬ between h.maxIdle (4 * second) (120 * second)) .maxIdle
  refuse (¬ between h.keepAlive (2 * second) (60 * second)) .keepAlive
  let h := setDialDefault (setWindowDefaults h)
  refuse (¬ between h.maxConcurrentDials 1 256) .maxConcurrentDials
  refuse (h.initialStreamWindow = 0 ∨ h.maxStreamWindow = 0 ∨ h.initialConnectionWindow = 0 ∨
    h.maxConnectionWindow = 0 ∨ h.maxStreamWindow < h.initialStreamWindow ∨
    h.maxConnectionWindow < h.initialConnectionWindow) .windows
  return h

def isHex (b : UInt8) : Bool := (Json.hexValue b).isSome

/-- `^[0-9a-fA-F]{8}-[0-9a-fA-F]{4}-[0-9a-fA-F]{4}-[0-9a-fA-F]{4}-[0-9a-fA-F]{12}$` -/
def isUUID (s : Bytes) : Bool :=
  let groups := split s hyphen
  groups.map List.length == [8, 4, 4, 4, 12] && groups.all fun group => group.all isHex

def fingerprints : List Bytes :=
  ["chrome", "firefox", "safari", "ios", "android", "edge", "random", "randomized"].map ascii

def flows : List Bytes := ["xtls-rprx-vision", "xtls-rprx-vision-udp443"].map ascii

def validateTCPRelay (r : TCPRelayConfig) : Except CheckError TCPRelayConfig :=
  if r.enabled = false then .ok r
  else do
    validateHostPort services .tcpRelay r.server
    refuse (isUUID r.uuid = false) .uuid
    refuse (validDNSName r.serverName = false) .relayServerName
    refuse (rawURLDecodedLen r.publicKey ≠ some 32) .publicKey
    refuse (16 < r.shortID.length) .shortIDLength
    refuse (hexDecode r.shortID = none) .shortID
    let r := { r with fingerprint := orDefault r.fingerprint [] (ascii "chrome") }
    refuse (r.fingerprint ∉ fingerprints) .fingerprint
    let r := { r with flow := orDefault r.flow [] (ascii "xtls-rprx-vision") }
    refuse (r.flow ∉ flows) .flow
    return r

def udpPolicies : List Bytes := ["proxy", "direct", "block"].map ascii

def validateLanding (l : LandingConfig) : Except CheckError Unit := do
  refuse (l.udp = true ∧ l.type ≠ ascii "socks5") .landingUDP
  refuse (l.maxUDPPayload < 0 ∨ 65507 < l.maxUDPPayload) .maxUDPPayload
  if l.type = ascii "direct" then
    refuse (l.server ≠ [] ∨ l.username ≠ [] ∨ l.password ≠ []) .landingCredentials
  else if l.type = ascii "http" ∨ l.type = ascii "socks5" then
    validateHostPort services .landing l.server
  else .error .landingType

def validateLimits (l : LimitsConfig) : Except CheckError LimitsConfig := do
  let l := { l with tcpSessions := orDefault l.tcpSessions 0 256 }
  refuse (¬ between l.tcpSessions 64 4096) .tcpSessions
  refuse (¬ between l.dnsCacheEntries 64 65536 ∨ ¬ between l.learnedIPEntries 64 131072 ∨
    ¬ between l.udpSessions 64 65536) .limits
  refuse (¬ between l.udpIdle (2 * second) (600 * second) ∨
    ¬ between l.sniffTimeout (10 * millisecond) (2 * second) ∨
    ¬ between l.sniffBytes 1024 16384) .udpOrSniff
  return l

def validateHealth (h : HealthConfig) : Except CheckError HealthConfig := do
  let h := { h with probeInterval := orDefault h.probeInterval 0 (10 * second) }
  refuse (¬ between h.failureThreshold 1 10 ∨ ¬ between h.successThreshold 1 10 ∨
    ¬ between h.cooldown (5 * second) (15 * minute) ∨
    ¬ between h.probeInterval second (5 * minute)) .health
  return h

def logLevels : List Bytes := ["", "debug", "info", "warn", "error"].map ascii

def CoreConfig.validate (order : ListenOrder) (c : CoreConfig) : Except CheckError CoreConfig := do
  let controlSocket := orDefault c.controlSocket [] (ascii "/var/run/hy2route-core.sock")
  let c := { c with controlSocket := controlSocket }
  refuse (c.controlSocket.head? ≠ some 0x2F) .controlSocket
  validateListen services order c.listen
  validateIPv4Endpoint services .domesticDNS c.domesticDNS
  validateIPv4Endpoint services .trustedDNS c.trustedDNS
  let hy2 ← validateHY2 services c.hy2
  let tcpRelay ← validateTCPRelay services c.tcpRelay
  let c := { c with hy2 := hy2, tcpRelay := tcpRelay }
  let c := { c with udpPolicy := orDefault c.udpPolicy [] (ascii "proxy") }
  refuse (c.udpPolicy ∉ udpPolicies) .udpPolicy
  validateLanding services c.landing
  let limits ← validateLimits c.limits
  let health ← validateHealth c.health
  let firewall ← (defaultBypassMark c.firewall).mapError .checked
  (validateFirewall firewall).mapError .checked
  (validateRules c.rules).mapError .checked
  refuse (trimSpace c.routing = []) .routing
  refuse (c.logLevel ∉ logLevels) .logLevel
  return { c with limits := limits, health := health, firewall := firewall }

end Checks

/-! ## What is accepted -/

section Validate

variable {services : Services} {order : ListenOrder} {c c' : CoreConfig}

theorem type_of_validateLanding {l : LandingConfig} {u : Unit}
    (h : validateLanding services l = .ok u) :
    (l.udp = true → l.type = ascii "socks5") ∧
      (l.type = ascii "direct" ∨ l.type = ascii "http" ∨ l.type = ascii "socks5") := by
  simp only [validateLanding, refuse_bind_eq_ok_iff, not_and, not_not] at h
  obtain ⟨hudp, -, h⟩ := h
  refine ⟨hudp, ?_⟩
  split_ifs at h with hdirect hproxy
  · exact Or.inl hdirect
  · exact Or.inr hproxy

/-- No other section changes the landing or the rules. -/
theorem sections_of_validate (h : c.validate services order = .ok c') :
    validateLanding services c'.landing = .ok () ∧ ∀ rule ∈ c'.rules, rule.Accepted := by
  simp only [CoreConfig.validate, bind_eq_ok_iff, mapError_eq_ok_iff] at h
  obtain ⟨-, -, -, -, -, -, -, -, _, -, _, -, -, -, ⟨⟩, hlanding, _, -, _, -, _, -, -, -, ⟨⟩,
    hrules, -, -, -, -, hc⟩ := h
  obtain rfl := Except.ok.inj hc
  exact ⟨hlanding, (validateRules_ok_iff _).mp hrules⟩

end Validate

section Sample

/-- Ports are given by their numbers. -/
def numericServices : Services where
  lookupPort _ service := (atoi service).bind fun port =>
    if 0 ≤ port ∧ port ≤ 65535 then some port.toNat else none
  lookupPort_le := by
    intro network service port h
    obtain ⟨number, -, hnumber⟩ := Option.bind_eq_some_iff.mp h
    split_ifs at hnumber with hrange
    have := Option.some.inj hnumber
    omega

def ListenOrder.declared : ListenOrder := ⟨[.listenDNS, .listenTCP, .listenUDP], .rfl⟩

/-- Only what has no default is given. -/
def CoreConfig.smallest : CoreConfig where
  listen := ⟨ascii "127.0.0.1:1053", ascii "0.0.0.0:1080", ascii "0.0.0.0:1053"⟩
  domesticDNS := ascii "223.5.5.5:53"
  trustedDNS := ascii "1.1.1.1:53"
  hy2 := ⟨ascii "example.com:443", ascii "secret", ascii "example.com", false, [], 30 * second,
    10 * second, 0, 0, 0, 0, 0⟩
  tcpRelay := ⟨false, [], [], [], [], [], [], []⟩
  tcpDomainDial := false
  udpPolicy := []
  landing := ⟨false, 0, ascii "direct", [], [], []⟩
  limits := ⟨4096, 4096, 0, 1024, 60 * second, 4096, 200 * millisecond⟩
  health := ⟨3, 2, 30 * second, 0⟩
  firewall := ⟨ascii "hy2route", ascii "br-lan", 0x100, 0, 100, []⟩
  rules := []
  routing := ascii "/usr/share/hy2route/routing.bin"
  controlSocket := []
  logLevel := []
  failOpen := false

end Sample

end Hy2Route.Config
