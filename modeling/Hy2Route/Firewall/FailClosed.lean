import Hy2Route.Firewall.Ruleset

/-!
# Failing closed

The chain for an unavailable core drops exactly the packets that the active
chain hands to it. Both are compared with one description of those packets, so
that every packet the active chain lets pass also passes the other.
-/

namespace Hy2Route.Firewall

open Foundation Netfilter

/-- The destinations whose traffic goes to the core. -/
def NftEnv.intercepted (env : NftEnv) (daddr : BitVec 32) : Bool :=
  !env.sets .bypass4 daddr &&
    (env.sets .forceProxy4 daddr ||
      !env.sets .forceDirect4 daddr &&
        (env.sets .inspect4 daddr || !env.sets .direct4 daddr && !env.sets .china4 daddr))

/-- An IPv4 packet of TCP or UDP to an intercepted destination. -/
def NftEnv.toCore (env : NftEnv) (p : Packet) : Bool :=
  match p.header, p.l4proto with
  | .ipv4 _ daddr, .tcp => env.intercepted daddr
  | .ipv4 _ daddr, .udp => env.intercepted daddr
  | _, _ => false

/-- DNS of a canary is left to the DNS redirection. -/
def NftConfig.exemptDNS (cfg : NftConfig) (p : Packet) : Bool :=
  cfg.canarySource.isSome && (p.l4proto == .tcp || p.l4proto == .udp) && p.dport == 53

/-- The set `bypass4` holds the literal ranges. -/
def BypassesLiterals (sets : TableSet → BitVec 32 → Bool) : Prop :=
  ∀ pre ∈ bypassLiterals, ∀ daddr, pre.contains daddr = true → sets .bypass4 daddr = true

/-- The emitted `bypass4` holds the literal ranges. -/
theorem bypassElements_literals {sets : TableSet → BitVec 32 → Bool} {servers : List (BitVec 32)}
    (h : sets .bypass4 = fun daddr => (bypassElements servers).any (·.contains daddr)) :
    BypassesLiterals sets := by
  intro pre hmem daddr hin
  rw [h]
  exact List.any_eq_true.mpr ⟨pre, List.mem_append_left _ hmem, hin⟩

/-- Testing the sets in the order of the chains finds the intercepted destinations. -/
theorem NftEnv.walk_eq {α : Type} (env : NftEnv) (daddr : BitVec 32) (hit miss : α) :
    (if env.sets .bypass4 daddr = true then miss
      else if env.sets .forceProxy4 daddr = true then hit
      else if env.sets .forceDirect4 daddr = true then miss
      else if env.sets .inspect4 daddr = true then hit
      else if env.sets .direct4 daddr = true then miss
      else if env.sets .china4 daddr = true then miss
      else hit) = if env.intercepted daddr = true then hit else miss := by
  unfold NftEnv.intercepted
  cases env.sets .bypass4 daddr <;> cases env.sets .forceProxy4 daddr <;>
    cases env.sets .forceDirect4 daddr <;> cases env.sets .inspect4 daddr <;>
    cases env.sets .direct4 daddr <;> cases env.sets .china4 daddr <;> rfl

/-- The intercepted destinations that the active chain does hand to the core. -/
def NftEnv.active (env : NftEnv) (daddr : BitVec 32) : Bool :=
  env.intercepted daddr && (env.sets .forceProxy4 daddr || !privateAddr daddr)

/-- Testing the sets in the order of the active chain finds those destinations. -/
theorem NftEnv.walk_active_eq {α : Type} (env : NftEnv) (daddr : BitVec 32) (hit miss : α) :
    (if env.sets .bypass4 daddr = true then miss
      else if env.sets .forceProxy4 daddr = true then hit
      else if env.sets .forceDirect4 daddr = true then miss
      else if privateAddr daddr = true then miss
      else if env.sets .inspect4 daddr = true then hit
      else if env.sets .direct4 daddr = true then miss
      else if env.sets .china4 daddr = true then miss
      else hit) = if env.active daddr = true then hit else miss := by
  unfold NftEnv.active NftEnv.intercepted
  cases env.sets .bypass4 daddr <;> cases env.sets .forceProxy4 daddr <;>
    cases env.sets .forceDirect4 daddr <;> cases privateAddr daddr <;>
    cases env.sets .inspect4 daddr <;> cases env.sets .direct4 daddr <;>
    cases env.sets .china4 daddr <;> rfl

/-- The private ranges of the active chain are already bypassed. -/
theorem active_eq_intercepted {env : NftEnv} (h : BypassesLiterals env.sets) (daddr : BitVec 32) :
    env.active daddr = env.intercepted daddr := by
  cases hprivate : privateAddr daddr with
  | false => simp [NftEnv.active, hprivate]
  | true =>
      obtain ⟨pre, hmem, hcontains⟩ := List.any_eq_true.mp hprivate
      have hbypass : env.sets .bypass4 daddr = true := by
        refine h pre ?_ daddr hcontains
        simp only [bypassLiterals, List.mem_cons, List.not_mem_nil, or_false] at hmem ⊢
        tauto
      simp [NftEnv.active, NftEnv.intercepted, hbypass]

/-- An IPv4 packet of TCP or UDP that the active chain hands to the core. -/
def NftEnv.toActive (env : NftEnv) (p : Packet) : Bool :=
  match p.header, p.l4proto with
  | .ipv4 _ daddr, .tcp => env.active daddr
  | .ipv4 _ daddr, .udp => env.active daddr
  | _, _ => false

theorem toActive_eq_toCore (env : NftEnv) (h : BypassesLiterals env.sets) (p : Packet) :
    env.toActive p = env.toCore p := by
  unfold NftEnv.toActive NftEnv.toCore
  simp only [active_eq_intercepted h]

/-- The active chain hands over no more than what goes to the core. -/
theorem toCore_of_toActive {env : NftEnv} {p : Packet} (h : env.toActive p = true) :
    env.toCore p = true := by
  unfold NftEnv.toActive at h
  unfold NftEnv.toCore
  split at h <;> simp_all [NftEnv.active]

section Specs

variable (cfg : NftConfig) (env : NftEnv) (call : Chain → Packet → Outcome) (p : Packet)

/-- The canary rules return exempt packets and pass on all others. -/
theorem evalRules_canaryDNSRules (rest : List NftRule) :
    evalRules call env (canaryDNSRules cfg ++ rest) p =
      if cfg.exemptDNS p = true then .returned p else evalRules call env rest p := by
  unfold canaryDNSRules NftConfig.exemptDNS
  cases cfg.canarySource with
  | none => rfl
  | some source =>
      simp only [List.cons_append, List.nil_append, evalRules_test, evalRules_ret, Test.holds]
      rcases p.l4proto.cases with hproto | hproto | hproto <;>
        by_cases hport : p.dport = 53 <;> simp [hproto, hport]

/-- The unavailable rules drop what goes to the core and is not exempt. -/
theorem evalRules_unavailableRules (localOutput : Bool) :
    evalRules call env (unavailableRules cfg localOutput) p =
      if (env.toCore p && (localOutput || !cfg.exemptDNS p)) = true then .drop
      else .returned p := by
  have hexempt : evalRules call env (unavailableRules cfg localOutput) p =
      if (!localOutput && cfg.exemptDNS p) = true then .returned p
      else evalRules call env (unavailableRules cfg true) p := by
    cases localOutput with
    | true => simp
    | false =>
        simp only [unavailableRules, List.cons_append, List.nil_append,
          Bool.false_eq_true, if_false, if_true, evalRules_test, evalRules_ret,
          evalRules_canaryDNSRules, Bool.not_false, Bool.true_and]
        cases cfg.exemptDNS p <;> simp
  have hwalk : evalRules call env (unavailableRules cfg true) p =
      if env.toCore p = true then .drop else .returned p := by
    simp only [unavailableRules, if_true, List.cons_append, List.nil_append, evalRules_test,
      evalRules_ret, evalRules_drop, evalRules_nil, Test.holds, NftEnv.toCore]
    rcases p.header.cases with ⟨saddr, daddr, hheader⟩ | ⟨saddr, daddr, hheader⟩
    · have hwalk := env.walk_eq daddr Outcome.drop (Outcome.returned p)
      rcases p.l4proto.cases with hproto | hproto | hproto
      · simpa [hheader, hproto] using hwalk
      · simpa [hheader, hproto] using hwalk
      · simp [hheader, hproto]
    · simp [hheader]
  rw [hexempt, hwalk]
  cases localOutput <;> cases cfg.exemptDNS p <;> simp

/-- The active rules hand their packets to the core and return for all others. -/
theorem evalRules_activeRules :
    evalRules call env (activeRules cfg) p =
      if (env.toActive p && !cfg.exemptDNS p) = true then
        .accept ((p.toSocket cfg.transparentPort).withMark cfg.fwmark)
      else .returned p := by
  simp only [activeRules, explicitRules, otherRules, interceptRule, List.cons_append,
    List.nil_append, List.append_assoc, List.map_cons, List.map_nil, evalRules_canaryDNSRules,
    evalRules_test, evalRules_ret, evalRules_tproxy, evalRules_nil, Test.holds, NftEnv.toActive]
  rcases p.header.cases with ⟨saddr, daddr, hheader⟩ | ⟨saddr, daddr, hheader⟩
  · cases hexempt : cfg.exemptDNS p with
    | true => simp [hheader]
    | false =>
        have hwalk := env.walk_active_eq daddr
          (Outcome.accept ((p.toSocket cfg.transparentPort).withMark cfg.fwmark))
          (Outcome.returned p)
        simp only [hheader, privateAddr] at hwalk ⊢
        rcases p.l4proto.cases with hproto | hproto | hproto
        · simpa [hproto] using hwalk
        · simpa [hproto] using hwalk
        · simp [hproto]
  · simp [hheader]

/-- Local TCP to an intercepted IPv4 destination is redirected. -/
theorem evalRules_outputActiveRules {saddr daddr : BitVec 32}
    (hheader : p.header = .ipv4 saddr daddr) (hproto : p.l4proto = .tcp) :
    evalRules call env (outputActiveRules cfg) p =
      if env.toCore p = true then .accept (p.toPort cfg.transparentPort)
      else .returned p := by
  have hwalk := env.walk_eq daddr
    (Outcome.accept (p.toPort cfg.transparentPort)) (Outcome.returned p)
  simp only [outputActiveRules, evalRules_test, evalRules_ret, evalRules_redirect, evalRules_nil,
    Test.holds, NftEnv.toCore, hheader, hproto]
  simpa using hwalk

/-- What passes the first rules of the prerouting chain. -/
def NftConfig.entersPrerouting : Bool :=
  p.iifname == cfg.lanInterface && !p.daddrLocal &&
    match cfg.canarySource, p.header with
    | none, _ => p.mark != cfg.bypassMark
    | some source, .ipv4 saddr _ => saddr == source
    | some _, .ipv6 _ _ => true

theorem evalRules_preroutingMangleRules :
    evalRules call env (preroutingMangleRules cfg) p =
      if cfg.entersPrerouting p = true then
        evalRules call env [[.markVmap .coreState], [.verdict (.jump .failClosed)]]
          (p.withMark 1)
      else .returned p := by
  unfold preroutingMangleRules NftConfig.entersPrerouting
  cases hcanary : cfg.canarySource with
  | none =>
      simp only [List.cons_append, List.nil_append, evalRules_test, evalRules_ret,
        evalRules_setMark, Test.holds]
      by_cases hif : p.iifname = cfg.lanInterface <;> by_cases hmark : p.mark = cfg.bypassMark <;>
        by_cases hlocal : p.daddrLocal = true <;> simp [hif, hmark, hlocal]
  | some source =>
      simp only [List.cons_append, List.nil_append, evalRules_test, evalRules_ret,
        evalRules_setMark, Test.holds]
      rcases p.header.cases with ⟨saddr, daddr, hheader⟩ | ⟨saddr, daddr, hheader⟩
      · by_cases hif : p.iifname = cfg.lanInterface <;> by_cases hsource : saddr = source <;>
          by_cases hlocal : p.daddrLocal = true <;> simp [hheader, hif, hsource, hlocal]
      · by_cases hif : p.iifname = cfg.lanInterface <;> by_cases hlocal : p.daddrLocal = true <;>
          simp [hheader, hif, hlocal]

/-- What passes the first rules of the output chains. -/
def NftConfig.entersOutput : Bool :=
  p.l4proto == .tcp && p.mark != cfg.bypassMark && !p.daddrLocal &&
    match p.header with
    | .ipv4 _ _ => true
    | .ipv6 _ _ => false

theorem evalRules_outputRules (map : TableMap) :
    evalRules call env (outputRules cfg map) p =
      if cfg.entersOutput p = true then
        evalRules call env [[.markVmap map], [.verdict (.jump .outputFailClosed)]] (p.withMark 1)
      else .returned p := by
  simp only [outputRules, NftConfig.entersOutput, evalRules_test, evalRules_ret,
    evalRules_setMark, Test.holds]
  rcases p.header.cases with ⟨saddr, daddr, hheader⟩ | ⟨saddr, daddr, hheader⟩ <;>
    by_cases hproto : p.l4proto = .tcp <;> by_cases hmark : p.mark = cfg.bypassMark <;>
    by_cases hlocal : p.daddrLocal = true <;> simp [hheader, hproto, hmark, hlocal]

theorem tcp_ipv4_of_entersOutput : cfg.entersOutput p = true →
    p.l4proto = .tcp ∧ ∃ saddr daddr, p.header = .ipv4 saddr daddr := by
  intro h
  simp only [NftConfig.entersOutput, Bool.and_eq_true, beq_iff_eq] at h
  rcases p.header.cases with hheader | ⟨saddr, daddr, hheader⟩
  · exact ⟨h.1.1.1, hheader⟩
  · simp [hheader] at h

end Specs

/-! ## The heartbeat -/

/-- The verdict maps while the heartbeat is kept, and after it has lapsed. -/
def heartbeatMaps (alive : Bool) : TableMap → Nat → Option (Verdict Chain)
  | .coreState, 1 => if alive then some (.jump .active) else none
  | .outputState, 1 => if alive then some (.jump .outputActive) else none
  | .outputGuardState, 1 => if alive then some .accept else none
  | _, _ => none

section Heartbeat

variable (cfg : NftConfig) (sets : TableSet → BitVec 32 → Bool)

/-- What a chain of the table decides with or without the heartbeat. -/
def runTable (alive : Bool) (chain : Chain) (p : Packet) : Outcome :=
  run ⟨sets, heartbeatMaps alive⟩ (emitNft cfg) chain p

/-- The packets that the emitted table hands to the core. -/
def NftConfig.hands (p : Packet) : Bool :=
  NftEnv.toCore ⟨sets, heartbeatMaps true⟩ p && !cfg.exemptDNS p

variable {cfg sets}

theorem evalChain_failClosed (alive : Bool) (depth : Nat) (p : Packet) :
    evalChain ⟨sets, heartbeatMaps alive⟩ (emitNft cfg) (depth + 1) .failClosed p =
      if cfg.hands sets p = true then .drop else .returned p := by
  refine (evalRules_unavailableRules cfg _ _ p false).trans ?_
  rw [Bool.false_or]
  rfl

variable (cfg sets) in
/-- The packets that the active chain takes. -/
def NftConfig.takes (p : Packet) : Bool :=
  NftEnv.toActive ⟨sets, heartbeatMaps true⟩ p && !cfg.exemptDNS p

theorem takes_eq_hands (hbypass : BypassesLiterals sets) (p : Packet) :
    cfg.takes sets p = cfg.hands sets p := by
  rw [NftConfig.takes, toActive_eq_toCore ⟨sets, heartbeatMaps true⟩ hbypass, NftConfig.hands]

theorem hands_of_takes {p : Packet} (h : cfg.takes sets p = true) : cfg.hands sets p = true := by
  rw [NftConfig.takes, Bool.and_eq_true] at h
  rw [NftConfig.hands, toCore_of_toActive h.1, h.2]
  rfl

theorem evalChain_active (alive : Bool) (depth : Nat) (p : Packet) :
    evalChain ⟨sets, heartbeatMaps alive⟩ (emitNft cfg) (depth + 1) .active p =
      if cfg.takes sets p = true then
        .accept ((p.toSocket cfg.transparentPort).withMark cfg.fwmark)
      else .returned p :=
  evalRules_activeRules cfg ⟨sets, heartbeatMaps alive⟩ _ p

/-- With the heartbeat, prerouting hands packets to the core. What the active chain
returns for goes through the chain that follows. -/
theorem runTable_preroutingMangle_heartbeat (p : Packet) :
    runTable cfg sets true .preroutingMangle p =
      if cfg.entersPrerouting p = true then
        if cfg.takes sets p = true then
          .accept (((p.withMark 1).toSocket cfg.transparentPort).withMark cfg.fwmark)
        else if cfg.hands sets p = true then .drop
        else .returned (p.withMark 1)
      else .returned p := by
  refine (evalRules_preroutingMangleRules cfg _ _ p).trans (if_congr Iff.rfl ?_ rfl)
  have hmap : heartbeatMaps true .coreState (p.withMark 1).mark = some (.jump .active) := rfl
  have htakes : cfg.takes sets (p.withMark 1) = cfg.takes sets p := rfl
  have hhands : cfg.hands sets (p.withMark 1) = cfg.hands sets p := rfl
  simp only [evalRules_markVmap, hmap, evalRules_jump, evalRules_nil, evalChain_active,
    evalChain_failClosed, htakes]
  cases takes : cfg.takes sets p with
  | true => rfl
  | false =>
      simp only [Bool.false_eq_true, if_false, hhands]
      cases cfg.hands sets p <;> rfl

/-- With the heartbeat and a bypass of the private ranges, prerouting drops none. -/
theorem runTable_preroutingMangle_alive (hbypass : BypassesLiterals sets) (p : Packet) :
    runTable cfg sets true .preroutingMangle p =
      if cfg.entersPrerouting p = true then
        if cfg.hands sets p = true then
          .accept (((p.withMark 1).toSocket cfg.transparentPort).withMark cfg.fwmark)
        else .returned (p.withMark 1)
      else .returned p := by
  rw [runTable_preroutingMangle_heartbeat, takes_eq_hands hbypass]
  cases cfg.hands sets p <;> simp

/-- Without the heartbeat, prerouting drops those packets. -/
theorem runTable_preroutingMangle_lapsed (p : Packet) :
    runTable cfg sets false .preroutingMangle p =
      if cfg.entersPrerouting p = true then
        if cfg.hands sets p = true then .drop else .returned (p.withMark 1)
      else .returned p := by
  refine (evalRules_preroutingMangleRules cfg _ _ p).trans (if_congr Iff.rfl ?_ rfl)
  have hmap : heartbeatMaps false .coreState (p.withMark 1).mark = none := rfl
  have hhands : cfg.hands sets (p.withMark 1) = cfg.hands sets p := rfl
  simp only [evalRules_markVmap, hmap, evalRules_jump, evalRules_nil, evalChain_failClosed, hhands]
  cases cfg.hands sets p <;> rfl

theorem evalChain_outputFailClosed (alive : Bool) (depth : Nat) (p : Packet) :
    evalChain ⟨sets, heartbeatMaps alive⟩ (emitNft cfg) (depth + 1) .outputFailClosed p =
      if NftEnv.toCore ⟨sets, heartbeatMaps alive⟩ p = true then .drop else .returned p := by
  refine (evalRules_unavailableRules cfg _ _ p true).trans ?_
  rw [Bool.true_or, Bool.and_true]

theorem evalChain_outputActive (alive : Bool) (depth : Nat) {p : Packet} {saddr daddr : BitVec 32}
    (hheader : p.header = .ipv4 saddr daddr) (hproto : p.l4proto = .tcp) :
    evalChain ⟨sets, heartbeatMaps alive⟩ (emitNft cfg) (depth + 1) .outputActive p =
      if NftEnv.toCore ⟨sets, heartbeatMaps alive⟩ p = true then
        .accept (p.toPort cfg.transparentPort)
      else .returned p :=
  evalRules_outputActiveRules cfg _ _ p hheader hproto

/-- Both hooks of local output fail closed: with the heartbeat they drop nothing,
and without it each drops every connection that would have been redirected. -/
theorem output_fails_closed (p : Packet) :
    runTable cfg sets true .outputNat p ≠ .drop ∧
      runTable cfg sets true .outputGuard p ≠ .drop ∧
      ((runTable cfg sets true .outputNat p).Redirected cfg.transparentPort →
        runTable cfg sets false .outputNat p = .drop ∧
          runTable cfg sets false .outputGuard p = .drop) := by
  have houtput : ∀ alive map, evalRules
      (evalChain ⟨sets, heartbeatMaps alive⟩ (emitNft cfg) 15) ⟨sets, heartbeatMaps alive⟩
      (outputRules cfg map) p = _ := fun alive map =>
    evalRules_outputRules cfg ⟨sets, heartbeatMaps alive⟩ _ p map
  have hrun : ∀ alive, runTable cfg sets alive .outputNat p = _ := fun alive =>
    houtput alive .outputState
  have hguard : ∀ alive, runTable cfg sets alive .outputGuard p = _ := fun alive =>
    houtput alive .outputGuardState
  rw [hrun, hrun, hguard, hguard]
  by_cases henters : cfg.entersOutput p = true
  · obtain ⟨hproto, saddr, daddr, hheader⟩ := tcp_ipv4_of_entersOutput cfg p henters
    have hheader' : (p.withMark 1).header = .ipv4 saddr daddr := hheader
    have hproto' : (p.withMark 1).l4proto = .tcp := hproto
    have hup : heartbeatMaps true .outputState (p.withMark 1).mark = some (.jump .outputActive) :=
      rfl
    have hgup : heartbeatMaps true .outputGuardState (p.withMark 1).mark = some .accept := rfl
    have hdown : ∀ map, heartbeatMaps false map (p.withMark 1).mark = none := fun map => by
      cases map <;> rfl
    have hcore : ∀ alive, NftEnv.toCore ⟨sets, heartbeatMaps alive⟩ (p.withMark 1) =
        NftEnv.toCore ⟨sets, heartbeatMaps true⟩ p := fun _ => rfl
    simp only [if_pos henters, evalRules_markVmap, hup, hgup, hdown, evalRules_jump, evalRules_nil,
      evalChain_outputActive true _ hheader' hproto', evalChain_outputFailClosed, hcore]
    cases hb : NftEnv.toCore ⟨sets, heartbeatMaps true⟩ p with
    | true => simp [evalRules, evalRule]
    | false =>
        simp only [Bool.false_eq_true, if_false, hcore, hb]
        refine ⟨by simp, by simp [evalRules, evalRule], ?_⟩
        rintro ⟨out, hout, -⟩
        exact absurd hout (by simp)
  · simp only [if_neg henters]
    refine ⟨by simp, by simp, ?_⟩
    rintro ⟨out, hout, -⟩
    exact absurd hout (by simp)

/-- Without the heartbeat, nothing of the local output is redirected. -/
theorem runTable_outputNat_lapsed (p : Packet) :
    runTable cfg sets false .outputNat p =
      if cfg.entersOutput p = true then
        if NftEnv.toCore ⟨sets, heartbeatMaps false⟩ p = true then .drop
        else .returned (p.withMark 1)
      else .returned p := by
  refine (evalRules_outputRules cfg _ _ p .outputState).trans (if_congr Iff.rfl ?_ rfl)
  have hmap : heartbeatMaps false .outputState (p.withMark 1).mark = none := rfl
  have hcore : NftEnv.toCore ⟨sets, heartbeatMaps false⟩ (p.withMark 1) =
      NftEnv.toCore ⟨sets, heartbeatMaps false⟩ p := rfl
  simp only [evalRules_markVmap, hmap, evalRules_jump, evalRules_nil, evalChain_outputFailClosed,
    hcore]
  cases NftEnv.toCore ⟨sets, heartbeatMaps false⟩ p <;> rfl

/-- What reaches the core is handed to it while the heartbeat is kept. -/
theorem alive_of_reached {alive : Bool} {p : Packet}
    (h : (runTable cfg sets alive .preroutingMangle p).Intercepted cfg.transparentPort ∨
      (runTable cfg sets alive .outputNat p).Redirected cfg.transparentPort) : alive = true := by
  cases alive with
  | true => rfl
  | false =>
      rw [runTable_preroutingMangle_lapsed, runTable_outputNat_lapsed] at h
      rcases h with ⟨out, hout, -⟩ | ⟨out, hout, -⟩ <;> split_ifs at hout

/-- For every packet, the unavailable chain drops exactly what the active chain
hands to the core, and for local IPv4 TCP exactly what is redirected. So with the
heartbeat prerouting drops nothing, and without it everything that would have been
handed to the core is dropped. -/
theorem failClosed_complements_active (cfg : NftConfig) (sets : TableSet → BitVec 32 → Bool)
    (hbypass : BypassesLiterals sets) (p : Packet) :
    (∀ alive, runTable cfg sets alive .failClosed p = .drop ↔
      (runTable cfg sets alive .active p).Intercepted cfg.transparentPort) ∧
    (∀ alive saddr daddr, p.header = .ipv4 saddr daddr → p.l4proto = .tcp →
      (runTable cfg sets alive .outputFailClosed p = .drop ↔
        (runTable cfg sets alive .outputActive p).Redirected cfg.transparentPort)) ∧
    runTable cfg sets true .preroutingMangle p ≠ .drop ∧
    ((runTable cfg sets true .preroutingMangle p).Intercepted cfg.transparentPort →
      runTable cfg sets false .preroutingMangle p = .drop) := by
  refine ⟨fun alive => ?_, fun alive saddr daddr hheader hproto => ?_, ?_, ?_⟩
  · rw [runTable, runTable, run, run, jumpStackSize, evalChain_failClosed, evalChain_active,
      takes_eq_hands hbypass]
    cases cfg.hands sets p with
    | true => exact ⟨fun _ => ⟨_, rfl, rfl⟩, fun _ => rfl⟩
    | false => exact ⟨fun h => by simp at h, fun ⟨_, h, _⟩ => by simp at h⟩
  · rw [runTable, runTable, run, run, jumpStackSize, evalChain_outputFailClosed,
      evalChain_outputActive alive _ hheader hproto]
    cases NftEnv.toCore ⟨sets, heartbeatMaps alive⟩ p with
    | true => exact ⟨fun _ => ⟨_, rfl, rfl⟩, fun _ => rfl⟩
    | false => exact ⟨fun h => by simp at h, fun ⟨_, h, _⟩ => by simp at h⟩
  · rw [runTable_preroutingMangle_alive hbypass]
    split_ifs <;> simp
  · rw [runTable_preroutingMangle_alive hbypass, runTable_preroutingMangle_lapsed]
    rintro ⟨out, hout, -⟩
    split_ifs at hout ⊢
    rfl

/-- Local TCP over IPv6 would be redirected by the output chain and passes the
unavailable one; the output hooks return it before either is reached. -/
theorem outputActive_redirects_ipv6 :
    let cfg : NftConfig := ⟨"br-lan", none, 12345, 102, 103, 1053, true⟩
    let sets : TableSet → BitVec 32 → Bool
      | .bypass4, daddr => (bypassElements []).any (·.contains daddr)
      | _, _ => false
    let p : Packet := ⟨"", .ipv6 0#128 0x20010DB8000000000000000000000001#128, .tcp, 443, false, 0,
      none, none⟩
    runTable cfg sets true .outputFailClosed p = .returned p ∧
      runTable cfg sets true .outputActive p = .accept (p.toPort 12345) ∧
      runTable cfg sets true .outputNat p = .returned p := by
  decide

/-- A packet to an inspected address of a table that bypasses a relay. -/
theorem failClosed_complements_active_inspected :
    let cfg : NftConfig := ⟨"br-lan", none, 12345, 102, 103, 1053, true⟩
    let sets : TableSet → BitVec 32 → Bool
      | .bypass4, daddr => (bypassElements [0xCB007101#32]).any (·.contains daddr)
      | .inspect4, daddr => daddr == 0xCB007108#32
      | _, _ => false
    let p : Packet := ⟨"br-lan", .ipv4 0xC0A80102#32 0xCB007108#32, .tcp, 443, false, 0, none, none⟩
    (runTable cfg sets true .active p).Intercepted 12345 ∧
      runTable cfg sets false .preroutingMangle p = .drop :=
  ⟨((failClosed_complements_active _ _ (bypassElements_literals rfl) _).1 true).mp (by decide),
    (failClosed_complements_active _ _ (bypassElements_literals rfl) _).2.2.2 ⟨_, rfl, rfl⟩⟩

end Heartbeat

end Hy2Route.Firewall
