import Hy2Route.Config.Core
import Hy2Route.Control.Application
import Hy2Route.Dataplane.TCP
import Hy2Route.Dataplane.UDP
import Hy2Route.Dataset.Compile
import Hy2Route.DNSProxy.Resolver
import Hy2Route.Transport.Reach

/-!
# Putting the application together

The application is built from an accepted configuration: the routes to the proxy, with or
without a relay and with or without failing open, the landing on top of them, and the
servers that use them. What leaves the router for the proxy leaves directly only when the
configuration says that it may, and never passes by the landing.
-/

namespace Hy2Route.Control

open Foundation Config Transport Policy

/-! ## Construction -/

inductive StartError where
  /-- load routing data -/
  | read
  /-- load routing data -/
  | format (err : Dataset.FormatError)
  /-- build classifier -/
  | classifier (err : PolicyError)
  /-- build Reality transport -/
  | reality
  /-- build landing transport: unsupported landing type -/
  | landing (type : Bytes)
  /-- UDP landing requires SOCKS5 -/
  | udpLanding

/-- What is there besides the configuration: the routing data, if it can be read, and whether
the Reality client can be made. -/
structure Environment where
  sha256 : Dataset.Checksum
  routing : Option Bytes
  reality : Bool

def loadDataset (env : Environment) : Except StartError Policy.Dataset :=
  match env.routing with
  | none => .error .read
  | some raw => (Dataset.read env.sha256 raw).mapError .format

def landingServer (kind : LandingKind) (cfg : LandingConfig) : LandingServer :=
  ⟨kind, cfg.server, ⟨cfg.username, cfg.password⟩⟩

/-- `New` of the landing. -/
def newLanding (cfg : LandingConfig) (base : StreamDialer) : Except StartError StreamDialer :=
  if cfg.type = ascii "direct" then .ok base
  else if cfg.type = ascii "http" then .ok (.landing (landingServer .http cfg) base)
  else if cfg.type = ascii "socks5" then .ok (.landing (landingServer .socks5 cfg) base)
  else .error (.landing cfg.type)

/-- `NewPacket` of the landing. -/
def newPacketLanding (cfg : LandingConfig) (stream : StreamDialer) (packets : PacketDialer) :
    Except StartError PacketDialer :=
  if cfg.type ≠ ascii "socks5" then .error .udpLanding
  else .ok (.landing (landingServer .socks5 cfg) cfg.maxUDPPayload stream packets)

/-- The servers of the data plane, with their dialers. -/
structure DataServers where
  tcp : Dataplane.TCPSettings
  maxActive : Int
  tcpDirect : StreamDialer
  tcpProxy : StreamDialer
  udpListen : Bytes
  udp : Dataplane.UDPState
  udpDirect : PacketDialer
  udpProxy : PacketDialer

structure Wiring where
  app : Application
  dialers : Dialers
  /-- How many dials of the HY2 client run at once. -/
  hy2Dials : Nat
  dnsListen : Bytes
  resolver : DNSProxy.Resolver LearningTable
  domestic : Exchanger
  trusted : Exchanger
  controlPath : Bytes
  /-- None when only DNS is served. -/
  servers : Option DataServers

/-- Reality with HY2 as the backup when there is a relay, and HY2 alone otherwise. -/
def streamRoute (cfg : CoreConfig) : StreamDialer :=
  let route : StreamDialer :=
    if cfg.tcpRelay.enabled then .relay (.carrier .reality) (.carrier .hy2) else .carrier .hy2
  if cfg.failOpen then .failOpen route (.carrier .direct) else route

def packetRoute (cfg : CoreConfig) : PacketDialer :=
  let route : PacketDialer :=
    if cfg.tcpRelay.enabled then .relay (.carrier .hy2) (.carrier .reality) else .carrier .hy2
  if cfg.failOpen then .failOpen route (.carrier .direct) else route

def trustedExchanger (cfg : CoreConfig) : Exchanger :=
  let overStream := Exchanger.overStream (streamRoute cfg) cfg.trustedDNS
  if cfg.failOpen then .fallback overStream (.network cfg.domesticDNS) else overStream

def newDialers (cfg : CoreConfig) : Dialers where
  tcpRelay := newStreamRelay .reality .hy2 cfg.health.cooldown
  failOpen := newFailOpenWithProbe
    (Failover.new ⟨cfg.health.failureThreshold, cfg.health.successThreshold, cfg.health.cooldown⟩)
    cfg.health.probeInterval
  udpRelay := newPacketRelay cfg.health.cooldown
  sessions := []

def landedRoute (cfg : CoreConfig) : Except StartError PacketDialer :=
  if cfg.landing.udp then newPacketLanding cfg.landing (streamRoute cfg) (packetRoute cfg)
  else .ok (packetRoute cfg)

def packetProxy (cfg : CoreConfig) : Except StartError PacketDialer := do
  let proxy ← landedRoute cfg
  return if cfg.udpPolicy = ascii "block" then .block
    else if cfg.udpPolicy = ascii "direct" then .carrier .direct
    else proxy

def newServers (cfg : CoreConfig) (classifier : Classifier) (learned : LearningTable) :
    Except StartError DataServers := do
  let tcpProxy ← newLanding cfg.landing (streamRoute cfg)
  let udpProxy ← packetProxy cfg
  return {
    tcp := ⟨cfg.listen.tcp, some classifier, some learned, true, true,
      ⟨cfg.limits.sniffBytes, cfg.limits.sniffTimeout⟩, cfg.tcpDomainDial⟩
    maxActive := cfg.limits.tcpSessions
    tcpDirect := .carrier .direct
    tcpProxy := tcpProxy
    udpListen := cfg.listen.udp
    udp := Dataplane.newUDPServer ⟨some classifier, some learned⟩ true cfg.limits.udpSessions
      cfg.limits.udpIdle
    udpDirect := .carrier .direct
    udpProxy := udpProxy }

def dataServers (cfg : CoreConfig) (dnsOnly : Bool) (classifier : Classifier)
    (learned : LearningTable) : Except StartError (Option DataServers) :=
  if dnsOnly then .ok none else (newServers cfg classifier learned).map some

def newApplication (env : Environment) (cfg : CoreConfig) (dnsOnly : Bool) :
    Except StartError Wiring := do
  let data ← loadDataset env
  let classifier ← (Policy.new data cfg.rules).mapError .classifier
  let learned := newLearningTable cfg.limits.learnedIPEntries
  refuse (cfg.tcpRelay.enabled = true ∧ env.reality = false) .reality
  let servers ← dataServers cfg dnsOnly classifier learned
  let dialers := newDialers cfg
  return {
    app := {
      controller := some dialers.failOpen.controller
      hy2Status := some (HY2.newHY2StatusTracker
        [cfg.hy2.auth, cfg.landing.username, cfg.landing.password] (cfg.logLevel ≠ ascii "none"))
      learned := some learned
      tcpRelay := if cfg.tcpRelay.enabled then some dialers.tcpRelay else none
      udpRelay := if cfg.tcpRelay.enabled then some dialers.udpRelay else none
      udpViaLanding := !dnsOnly && cfg.landing.udp && cfg.udpPolicy = ascii "proxy" }
    dialers := dialers
    hy2Dials := HY2.newCapacity cfg.hy2.maxConcurrentDials
    dnsListen := cfg.listen.dns
    resolver := DNSProxy.newResolver (some classifier) true true (some learned)
      cfg.limits.dnsCacheEntries
    domestic := .network cfg.domesticDNS
    trusted := trustedExchanger cfg
    controlPath := cfg.controlSocket
    servers := servers }

/-! ## When it can be built -/

section Start

variable {env : Environment} {c cfg : CoreConfig} {dnsOnly : Bool}

theorem loadDataset_ok_iff {data : Policy.Dataset} :
    loadDataset env = .ok data ↔
      ∃ raw, env.routing = some raw ∧ Dataset.read env.sha256 raw = .ok data := by
  unfold loadDataset
  cases env.routing with
  | none => simp
  | some raw => simp [mapError_eq_ok_iff]

/-- The landing of an accepted configuration is there, for streams and for datagrams. -/
theorem dataServers_isOk {services : Services}
    (h : validateLanding services cfg.landing = .ok ()) (classifier : Classifier)
    (learned : LearningTable) :
    ∃ servers, dataServers cfg dnsOnly classifier learned = .ok servers := by
  obtain ⟨hsocks5, htype⟩ := type_of_validateLanding h
  have htcp : ∃ dialer, newLanding cfg.landing (streamRoute cfg) = .ok dialer := by
    unfold newLanding
    rcases htype with hdirect | hhttp | hsocks
    · exact ⟨_, if_pos hdirect⟩
    · rw [hhttp]
      exact ⟨_, rfl⟩
    · rw [hsocks]
      exact ⟨_, rfl⟩
  have hudp : ∃ dialer, landedRoute cfg = .ok dialer := by
    unfold landedRoute newPacketLanding
    split_ifs with hlanding hsocks
    · exact absurd (hsocks5 hlanding) hsocks
    · exact ⟨_, rfl⟩
    · exact ⟨_, rfl⟩
  obtain ⟨tcpProxy, htcp⟩ := htcp
  obtain ⟨route, hroute⟩ := hudp
  unfold dataServers
  split_ifs
  · exact ⟨none, rfl⟩
  · simp only [newServers, packetProxy, htcp, hroute]
    exact ⟨_, rfl⟩

/-- An accepted configuration can be started exactly when the routing data can be read, all
its entries can be classified, and the Reality client can be made where it is used: neither
the rules nor the landing keep the application from starting. -/
theorem newApplication_isOk_iff {services : Services} {order : ListenOrder}
    (h : c.validate services order = .ok cfg) :
    (∃ w, newApplication env cfg dnsOnly = .ok w) ↔
      (∃ raw data, env.routing = some raw ∧ Dataset.read env.sha256 raw = .ok data ∧
        (∀ domain ∈ data.domains, ∃ name, normalizeDomain domain.name = .ok name) ∧
        ∀ pre ∈ data.prefixes, ∃ pre4, pre = .ipv4 pre4) ∧
      (cfg.tcpRelay.enabled = true → env.reality = true) := by
  obtain ⟨hlanding, hrules⟩ := sections_of_validate h
  have hnew (data : Policy.Dataset) := @new_isOk_iff data cfg.rules
  simp only [newApplication, bind_eq_ok_iff, loadDataset_ok_iff, mapError_eq_ok_iff,
    refuse_eq_ok_iff]
  constructor
  · rintro ⟨w, data, ⟨raw, hraw, hread⟩, classifier, hclassifier, -, hreality, -⟩
    obtain ⟨hnames, hprefixes, -⟩ := (hnew data).mp ⟨classifier, hclassifier⟩
    refine ⟨⟨raw, data, hraw, hread, hnames, hprefixes⟩, fun henabled => ?_⟩
    by_contra hnot
    exact hreality ⟨henabled, (Bool.not_eq_true _).mp hnot⟩
  · rintro ⟨⟨raw, data, hraw, hread, hnames, hprefixes⟩, hreality⟩
    obtain ⟨classifier, hclassifier⟩ := (hnew data).mpr ⟨hnames, hprefixes, hrules⟩
    have hbuilt : ∃ servers, dataServers cfg dnsOnly classifier
        (newLearningTable cfg.limits.learnedIPEntries) = .ok servers :=
      dataServers_isOk hlanding classifier _
    obtain ⟨servers, hservers⟩ := hbuilt
    refine ⟨_, data, ⟨raw, hraw, hread⟩, classifier, hclassifier, (), ?_, servers, hservers, rfl⟩
    rintro ⟨henabled, hnone⟩
    rw [hreality henabled] at hnone
    cases hnone

/-- With routing data that was compiled from lists, only the Reality client can keep an
accepted configuration from starting. -/
theorem starts_with_compiled_data {services : Services} {order : ListenOrder}
    {orders : Dataset.MapOrders} {domainLines prefixLines : List Bytes} {raw : Bytes}
    (h : c.validate services order = .ok cfg)
    (hcompile : Dataset.compile env.sha256 orders domainLines prefixLines = .ok raw)
    (hrouting : env.routing = some raw) :
    (∃ w, newApplication env cfg dnsOnly = .ok w) ↔
      (cfg.tcpRelay.enabled = true → env.reality = true) := by
  obtain ⟨data, hdomains, hprefixes, hwrite⟩ :=
    (Dataset.compile_ok_iff env.sha256 orders domainLines prefixLines raw).mp hcompile
  obtain ⟨hnames, hipv4, -⟩ := new_isOk_iff.mp ⟨_, Dataset.new_loaded hdomains hprefixes⟩
  rw [newApplication_isOk_iff h]
  exact and_iff_right ⟨raw, data, hrouting, Dataset.read_write hwrite, hnames, hipv4⟩

theorem starts_with_compiled_data_sample :
    ∃ cfg raw, CoreConfig.smallest.validate numericServices .declared = .ok cfg ∧
      Dataset.compile Dataset.paritySum Dataset.reversedOrders Dataset.sampleDomainLines
        Dataset.samplePrefixLines = .ok raw ∧
      ∃ w, newApplication ⟨Dataset.paritySum, some raw, false⟩ cfg false = .ok w := by
  have hsome : (Dataset.compile Dataset.paritySum Dataset.reversedOrders
      Dataset.sampleDomainLines Dataset.samplePrefixLines).toOption.isSome = true := by
    decide +kernel
  obtain ⟨cfg, hvalid, hrelay⟩ : ∃ cfg, CoreConfig.smallest.validate numericServices .declared =
      .ok cfg ∧ cfg.tcpRelay.enabled = false := ⟨_, rfl, rfl⟩
  cases hraw : Dataset.compile Dataset.paritySum Dataset.reversedOrders Dataset.sampleDomainLines
      Dataset.samplePrefixLines with
  | error err =>
      rw [hraw] at hsome
      cases hsome
  | ok raw =>
      let env : Environment := ⟨Dataset.paritySum, some raw, false⟩
      have hcompile : Dataset.compile env.sha256 Dataset.reversedOrders Dataset.sampleDomainLines
        Dataset.samplePrefixLines = .ok raw := hraw
      refine ⟨cfg, raw, hvalid, rfl, (starts_with_compiled_data hvalid hcompile rfl).mpr ?_⟩
      simp [hrelay]

end Start

/-! ## What the parts ask for -/

/-- What the servers use the dialers for. -/
inductive Purpose where
  | domesticDNS
  | trustedDNS
  /-- A connection is dialed as the TCP server has decided. -/
  | connection (dialer : Dataplane.Dialer) (target : Bytes)
  | openSession (dialer : Dataplane.Dialer)
  | datagram (dialer : Dataplane.Dialer) (session : Nat) (target : Bytes)

def DataServers.stream (servers : DataServers) : Dataplane.Dialer → StreamDialer
  | .direct => servers.tcpDirect
  | .proxy => servers.tcpProxy

def DataServers.packet (servers : DataServers) : Dataplane.Dialer → PacketDialer
  | .direct => servers.udpDirect
  | .proxy => servers.udpProxy

/-- Without servers there are only the exchanges. -/
def Wiring.op (w : Wiring) : Purpose → Option Op
  | .domesticDNS => some (.exchange w.domestic)
  | .trustedDNS => some (.exchange w.trusted)
  | .connection dialer target => w.servers.map fun servers =>
      .dial (servers.stream dialer) (.address target)
  | .openSession dialer => w.servers.map fun servers => .openPacket (servers.packet dialer)
  | .datagram dialer session target => w.servers.map fun servers =>
      .session session (servers.packet dialer) .send (.address target)

/-! ## What may leave the router -/

/-- The ways to the proxy: the direct one only when failing open, Reality only as a relay. -/
def OnRoute (cfg : CoreConfig) (c : Carrier) : Prop :=
  (c = .direct → cfg.failOpen = true) ∧ (c = .reality → cfg.tcpRelay.enabled = true)

/-- Where a stream for a target goes on the way to the proxy. -/
def streamTarget (cfg : CoreConfig) (target : Bytes) : Bytes :=
  if cfg.landing.type = ascii "direct" then target else cfg.landing.server

def PermittedDatagram (cfg : CoreConfig) (target : Bytes) (c : Carrier) (t : Destination) : Prop :=
  if cfg.udpPolicy = ascii "block" then False
  else if cfg.udpPolicy = ascii "direct" then c = .direct ∧ t = .address target
  else if cfg.landing.udp then
    OnRoute cfg c ∧ (t = .address cfg.landing.server ∨
      ∃ relay, t = .relay (landingServer .socks5 cfg.landing) relay)
  else OnRoute cfg c ∧ t = .address target

/-- The landing is called to open a session. -/
def PermittedOpening (cfg : CoreConfig) (c : Carrier) (t : Destination) : Prop :=
  cfg.landing.udp = true ∧ cfg.udpPolicy ≠ ascii "block" ∧ cfg.udpPolicy ≠ ascii "direct" ∧
    OnRoute cfg c ∧ t = .address cfg.landing.server

def Permitted (cfg : CoreConfig) (c : Carrier) (t : Destination) : Purpose → Prop
  | .domesticDNS => c = .direct ∧ t = .address cfg.domesticDNS
  | .trustedDNS => OnRoute cfg c ∧ t = .address cfg.trustedDNS ∨
      cfg.failOpen = true ∧ c = .direct ∧ t = .address cfg.domesticDNS
  | .connection .direct target => c = .direct ∧ t = .address target
  | .connection .proxy target => OnRoute cfg c ∧ t = .address (streamTarget cfg target)
  | .openSession .direct => False
  | .openSession .proxy => PermittedOpening cfg c t
  | .datagram .direct _ target => c = .direct ∧ t = .address target
  | .datagram .proxy _ target => PermittedDatagram cfg target c t

section Reach

variable {env : Environment} {cfg : CoreConfig} {dnsOnly : Bool} {w : Wiring} {c : Carrier}
  {target t : Destination}

theorem streamRoute_reaches (h : (streamRoute cfg).Reaches target c t) :
    OnRoute cfg c ∧ t = target := by
  unfold streamRoute at h
  simp only at h
  split_ifs at h with hopen hrelay hrelay
  · rcases h with (⟨rfl, rfl⟩ | ⟨rfl, rfl⟩) | ⟨rfl, rfl⟩ <;>
      simp [OnRoute, hopen, hrelay]
  · rcases h with ⟨rfl, rfl⟩ | ⟨rfl, rfl⟩ <;> simp [OnRoute, hopen]
  · rcases h with ⟨rfl, rfl⟩ | ⟨rfl, rfl⟩ <;> simp [OnRoute, hrelay]
  · obtain ⟨rfl, rfl⟩ := h
    simp [OnRoute]

theorem packetRoute_sends (h : (packetRoute cfg).Sends target c t) :
    OnRoute cfg c ∧ t = target := by
  unfold packetRoute at h
  simp only at h
  split_ifs at h with hopen hrelay hrelay
  · rcases h with (⟨rfl, rfl⟩ | ⟨rfl, rfl⟩) | ⟨rfl, rfl⟩ <;>
      simp [OnRoute, hopen, hrelay]
  · rcases h with ⟨rfl, rfl⟩ | ⟨rfl, rfl⟩ <;> simp [OnRoute, hopen]
  · rcases h with ⟨rfl, rfl⟩ | ⟨rfl, rfl⟩ <;> simp [OnRoute, hrelay]
  · obtain ⟨rfl, rfl⟩ := h
    simp [OnRoute]

theorem not_packetRoute_opens : ¬ (packetRoute cfg).Opens c t := by
  unfold packetRoute
  simp only
  split_ifs <;> simp [PacketDialer.Opens]

theorem trustedExchanger_reaches (h : (trustedExchanger cfg).Reaches c t) :
    OnRoute cfg c ∧ t = .address cfg.trustedDNS ∨
      cfg.failOpen = true ∧ c = .direct ∧ t = .address cfg.domesticDNS := by
  unfold trustedExchanger at h
  simp only at h
  split_ifs at h with hopen
  · rcases h with hstream | hdirect
    · exact Or.inl (streamRoute_reaches hstream)
    · exact Or.inr ⟨hopen, hdirect⟩
  · exact Or.inl (streamRoute_reaches h)

theorem newLanding_reaches {base dialer : StreamDialer} {text : Bytes}
    (h : newLanding cfg.landing base = .ok dialer) (hreach : dialer.Reaches (.address text) c t) :
    base.Reaches (.address (streamTarget cfg text)) c t := by
  unfold newLanding at h
  unfold streamTarget
  split_ifs at h ⊢ with hdirect hhttp hsocks
  all_goals
    cases h
    exact hreach

theorem packetProxy_cases {dialer : PacketDialer} (h : packetProxy cfg = .ok dialer) :
    cfg.udpPolicy = ascii "block" ∧ dialer = .block ∨
      cfg.udpPolicy ≠ ascii "block" ∧ cfg.udpPolicy = ascii "direct" ∧
        dialer = .carrier .direct ∨
      cfg.udpPolicy ≠ ascii "block" ∧ cfg.udpPolicy ≠ ascii "direct" ∧
        (cfg.landing.udp = true ∧ dialer = .landing (landingServer .socks5 cfg.landing)
            cfg.landing.maxUDPPayload (streamRoute cfg) (packetRoute cfg) ∨
          cfg.landing.udp = false ∧ dialer = packetRoute cfg) := by
  simp only [packetProxy, bind_eq_ok_iff] at h
  obtain ⟨proxy, hproxy, hdialer⟩ := h
  have hproxy : cfg.landing.udp = true ∧ proxy = .landing (landingServer .socks5 cfg.landing)
      cfg.landing.maxUDPPayload (streamRoute cfg) (packetRoute cfg) ∨
      cfg.landing.udp = false ∧ proxy = packetRoute cfg := by
    unfold landedRoute at hproxy
    split_ifs at hproxy with hudp
    · unfold newPacketLanding at hproxy
      split_ifs at hproxy
      cases hproxy
      exact Or.inl ⟨hudp, rfl⟩
    · cases hproxy
      exact Or.inr ⟨(Bool.not_eq_true _).mp hudp, rfl⟩
  split_ifs at hdialer with hblock hdirect
  · cases hdialer
    exact Or.inl ⟨hblock, rfl⟩
  · cases hdialer
    exact Or.inr (Or.inl ⟨hblock, hdirect, rfl⟩)
  · cases hdialer
    exact Or.inr (Or.inr ⟨hblock, hdirect, hproxy⟩)

theorem packetProxy_opens {dialer : PacketDialer} (h : packetProxy cfg = .ok dialer)
    (hopens : dialer.Opens c t) : PermittedOpening cfg c t := by
  rcases packetProxy_cases h with ⟨-, rfl⟩ | ⟨-, -, rfl⟩ | ⟨hblock, hdirect, hproxy⟩
  · exact hopens.elim
  · exact hopens.elim
  · rcases hproxy with ⟨hudp, rfl⟩ | ⟨-, rfl⟩
    · rcases hopens with hcontrol | hpackets
      · exact ⟨hudp, hblock, hdirect, streamRoute_reaches hcontrol⟩
      · exact absurd hpackets not_packetRoute_opens
    · exact absurd hopens not_packetRoute_opens

theorem packetProxy_sends {dialer : PacketDialer} {text : Bytes} (h : packetProxy cfg = .ok dialer)
    (hsends : dialer.Sends (.address text) c t) : PermittedDatagram cfg text c t := by
  unfold PermittedDatagram
  rcases packetProxy_cases h with ⟨-, rfl⟩ | ⟨hblock, hdirect, rfl⟩ | ⟨hblock, hdirect, hproxy⟩
  · exact hsends.elim
  · rw [if_neg hblock, if_pos hdirect]
    exact hsends
  · rw [if_neg hblock, if_neg hdirect]
    rcases hproxy with ⟨hudp, rfl⟩ | ⟨hudp, rfl⟩
    · obtain ⟨relay, hrelay⟩ := hsends
      obtain ⟨hroute, rfl⟩ := packetRoute_sends hrelay
      rw [if_pos hudp]
      exact ⟨hroute, Or.inr ⟨relay, rfl⟩⟩
    · rw [if_neg (by simp [hudp])]
      exact packetRoute_sends hsends

/-- A datagram may need another session to be opened. -/
theorem PermittedOpening.datagram {text : Bytes} (h : PermittedOpening cfg c t) :
    PermittedDatagram cfg text c t := by
  obtain ⟨hudp, hblock, hdirect, hroute, rfl⟩ := h
  unfold PermittedDatagram
  rw [if_neg hblock, if_neg hdirect, if_pos hudp]
  exact ⟨hroute, Or.inl rfl⟩

/-- The parts of an application that was built. -/
theorem newApplication_ok (h : newApplication env cfg dnsOnly = .ok w) :
    w.dialers = newDialers cfg ∧ w.domestic = .network cfg.domesticDNS ∧
      w.trusted = trustedExchanger cfg ∧ ∀ servers ∈ w.servers,
        servers.tcpDirect = .carrier .direct ∧ servers.udpDirect = .carrier .direct ∧
          newLanding cfg.landing (streamRoute cfg) = .ok servers.tcpProxy ∧
          packetProxy cfg = .ok servers.udpProxy := by
  simp only [newApplication, bind_eq_ok_iff] at h
  obtain ⟨data, -, classifier, -, -, -, servers, hservers, hw⟩ := h
  cases hw
  refine ⟨rfl, rfl, rfl, fun some' hsome => ?_⟩
  obtain rfl : servers = some some' := hsome
  unfold dataServers at hservers
  split_ifs at hservers with hdns
  · cases hservers
  · cases hnew : newServers cfg classifier (newLearningTable cfg.limits.learnedIPEntries) with
    | error err => simp [hnew, Except.map] at hservers
    | ok built =>
        rw [hnew] at hservers
        cases hservers
        simp only [newServers, bind_eq_ok_iff] at hnew
        obtain ⟨tcpProxy, htcp, udpProxy, hudp, hbuilt⟩ := hnew
        cases hbuilt
        exact ⟨rfl, rfl, htcp, hudp⟩

/-- What an operation of the application reaches is permitted for its purpose. -/
theorem op_permitted (h : newApplication env cfg dnsOnly = .ok w) {purpose : Purpose} {op : Op}
    (hop : w.op purpose = some op) (hreach : op.Reaches c t) : Permitted cfg c t purpose := by
  obtain ⟨-, hdomestic, htrusted, hservers⟩ := newApplication_ok h
  cases purpose with
  | domesticDNS =>
      cases hop
      rw [hdomestic] at hreach
      exact hreach
  | trustedDNS =>
      cases hop
      rw [htrusted] at hreach
      exact trustedExchanger_reaches hreach
  | connection dialer target =>
      obtain ⟨servers, hmem, rfl⟩ := Option.map_eq_some_iff.mp hop
      obtain ⟨hdirect, -, hproxy, -⟩ := hservers servers hmem
      cases dialer with
      | direct =>
          change servers.tcpDirect.Reaches _ _ _ at hreach
          rw [hdirect] at hreach
          exact hreach
      | proxy => exact streamRoute_reaches (newLanding_reaches hproxy hreach)
  | openSession dialer =>
      obtain ⟨servers, hmem, rfl⟩ := Option.map_eq_some_iff.mp hop
      obtain ⟨-, hdirect, -, hproxy⟩ := hservers servers hmem
      cases dialer with
      | direct =>
          change servers.udpDirect.Opens _ _ at hreach
          rw [hdirect] at hreach
          exact hreach.elim
      | proxy => exact packetProxy_opens hproxy hreach
  | datagram dialer session target =>
      obtain ⟨servers, hmem, rfl⟩ := Option.map_eq_some_iff.mp hop
      obtain ⟨-, hdirect, -, hproxy⟩ := hservers servers hmem
      cases dialer with
      | direct =>
          change servers.udpDirect.Sends _ _ _ ∨ servers.udpDirect.Opens _ _ at hreach
          rw [hdirect] at hreach
          exact hreach.elim id False.elim
      | proxy =>
          rcases hreach with hsends | hopens
          · exact packetProxy_sends hproxy hsends
          · exact (packetProxy_opens hproxy hopens).datagram

/-- In every run of a built application, whatever its connections, sessions, exchanges and
probes do at once, what leaves the router for a purpose is permitted for it. -/
theorem leaves_as_permitted (h : newApplication env cfg dnsOnly = .ok w)
    (moves : List (Move Op Turn))
    (hmoves : Allowed dialerCalls.move Owned (Calls.initial w.dialers) moves) :
    ∀ entry ∈ (moves.foldl dialerCalls.move (Calls.initial w.dialers)).shared.log,
      ∀ purpose, w.op purpose = some entry.1 → Permitted cfg entry.2.1 entry.2.2 purpose := by
  have hempty : w.dialers.sessions = [] := by
    rw [(newApplication_ok h).1]
    rfl
  intro entry hentry purpose hop
  exact op_permitted h hop ((reaches_run w.dialers hempty hmoves).log entry hentry)

/-- A landing behind a route that fails open. -/
def landedConfig : CoreConfig :=
  { CoreConfig.smallest with
    landing := ⟨false, 0, ascii "socks5", ascii "192.0.2.7:1080", [], []⟩
    failOpen := true }

def emptyEnvironment : Environment where
  sha256 := Dataset.paritySum
  routing := (Dataset.write Dataset.paritySum ⟨[], []⟩).toOption
  reality := false

def landedStream : StreamDialer :=
  .landing (landingServer .socks5 landedConfig.landing) (streamRoute landedConfig)

def answered (ok : Bool) : Turn := { ok := ok }

/-- HY2 cannot dial and the direct dialer can. -/
def failingOpen : List (Move Op Turn) :=
  .call (.dial landedStream (.address (ascii "198.51.100.1:443"))) ::
    ([true, true, true, true, true, false] ++ List.replicate 9 true).map fun ok =>
      .run 0 (answered ok)

/-- The connection is dialed through HY2 and then directly, each time to the landing. -/
theorem leaves_as_permitted_failing_open :
    ∃ w, newApplication emptyEnvironment landedConfig false = .ok w ∧
      let log := (failingOpen.foldl dialerCalls.move (Calls.initial w.dialers)).shared.log
      log.map (·.2.1) = [.hy2, .direct] ∧
        ∀ entry ∈ log, ∀ purpose, w.op purpose = some entry.1 →
          Permitted landedConfig entry.2.1 entry.2.2 purpose := by
  have hplain : ∀ move ∈ failingOpen, ∀ s, Owned s move := by
    refine List.forall_mem_cons.mpr ⟨fun _ => trivial, fun move hmove s => ?_⟩
    obtain ⟨ok, -, rfl⟩ := List.mem_map.mp hmove
    trivial
  have hbuilt : ∃ w, newApplication emptyEnvironment landedConfig false = .ok w ∧
      w.dialers = newDialers landedConfig := ⟨_, rfl, rfl⟩
  obtain ⟨w, hw, hdialers⟩ := hbuilt
  refine ⟨w, hw, ?_, leaves_as_permitted hw failingOpen ?_⟩
  · rw [hdialers]
    rfl
  · exact (Allowed.of_forall _ hplain).mono fun s move h => h s

end Reach

end Hy2Route.Control
