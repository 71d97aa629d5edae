import Hy2Route.Dataplane.Select
import Hy2Route.Firewall.FailClosed
import Hy2Route.Firewall.Learner

/-!
# The kernel's policy and the core's

The sets of the table are filled from the rules, the dataset and the learning
table that the core decides by. The active chain tests flat sets in a fixed
order, so it differs from the core where the core looks at prefix lengths, and
where a learned proxy address is in no set.
-/

namespace Hy2Route.Firewall

open Foundation Netfilter Policy Dataplane

/-- The addresses that explicit rules of an action cover. -/
def forceSet (rules : List RuleConfig) (action : Action) (daddr : BitVec 32) : Bool :=
  (explicitPrefixRules rules).any fun rule => rule.action == action && rule.pre.contains daddr

/-- The addresses in the prefixes of the dataset. -/
def chinaSet (data : Dataset) (daddr : BitVec 32) : Bool :=
  (chinaPrefixRules data).any fun rule => rule.pre.contains daddr

/-- The addresses that the learner puts in the set of a state. -/
def learnedSet (table : LearningTable) (now : Int) (state : SetState) (daddr : BitVec 32) : Bool :=
  SetState.ofDecision (table.lookup (.v4 daddr) now).2 == state

/-- The sets with the contents that the core's own data gives them. -/
def policySets (data : Dataset) (rules : List RuleConfig) (table : LearningTable) (now : Int)
    (bypass : BitVec 32 → Bool) : TableSet → BitVec 32 → Bool
  | .bypass4 => bypass
  | .china4 => chinaSet data
  | .forceProxy4 => forceSet rules .proxy
  | .forceDirect4 => forceSet rules .direct
  | .direct4 => learnedSet table now .direct
  | .inspect4 => learnedSet table now .inspect

theorem forceSet_iff {rules : List RuleConfig} {action : Action} {daddr : BitVec 32} :
    forceSet rules action daddr = true ↔
      ∃ rule ∈ explicitPrefixRules rules, rule.covers daddr ∧ rule.action = action := by
  simp only [forceSet, List.any_eq_true, Bool.and_eq_true, beq_iff_eq, PrefixRule.covers]
  exact exists_congr fun rule => and_congr_right fun _ => and_comm

theorem forceSet_of_uncovered {rules : List RuleConfig} {daddr : BitVec 32}
    (h : ∀ rule ∈ explicitPrefixRules rules, ¬ rule.covers daddr) (action : Action) :
    forceSet rules action daddr = false := by
  rw [← Bool.not_eq_true, forceSet_iff]
  rintro ⟨rule, hmem, hcov, -⟩
  exact h rule hmem hcov

theorem chinaSet_iff {data : Dataset} {daddr : BitVec 32} :
    chinaSet data daddr = true ↔ ∃ rule ∈ chinaPrefixRules data, rule.covers daddr := by
  simp [chinaSet, PrefixRule.covers]

/-- Which set an address is in depends on its two flags. -/
theorem learnedSet_eq (table : LearningTable) (now : Int) (daddr : BitVec 32) :
    let decision := (table.lookup (.v4 daddr) now).2
    learnedSet table now .direct daddr = (decision.direct && !decision.proxy) ∧
      learnedSet table now .inspect daddr = (decision.direct && decision.proxy) := by
  intro decision
  have hinspect : decision.inspect = (decision.direct && decision.proxy) := rfl
  simp only [learnedSet, SetState.ofDecision]
  change (_ == _) = _ ∧ (_ == _) = _
  rw [show (table.lookup (.v4 daddr) now).2 = decision from rfl, hinspect]
  cases decision.direct <;> cases decision.proxy <;> decide

/-- A packet that the chains look at: TCP or UDP over IPv4, outside the bypass. -/
structure Routed (bypass : BitVec 32 → Bool) (p : Packet) (daddr : BitVec 32) : Prop where
  ipv4 : ∃ saddr, p.header = .ipv4 saddr daddr
  proto : p.l4proto = .tcp ∨ p.l4proto = .udp
  outside : bypass daddr = false

variable {cfg : NftConfig} {sets : TableSet → BitVec 32 → Bool} {p : Packet} {daddr : BitVec 32}

/-- A canary's DNS passes the active chain, wherever it goes. -/
theorem runTable_active_exempt (hdns : cfg.exemptDNS p = true) (alive : Bool) :
    runTable cfg sets alive .active p = .returned p := by
  refine (evalChain_active alive _ p).trans (if_neg ?_)
  simp [NftConfig.takes, hdns]

/-- For any other routed packet the active chain is the walk over the sets. -/
theorem runTable_active_routed (hbypass : BypassesLiterals sets)
    (h : Routed (sets .bypass4) p daddr) (hdns : cfg.exemptDNS p = false) (alive : Bool) :
    runTable cfg sets alive .active p =
      if (sets .forceProxy4 daddr || !sets .forceDirect4 daddr &&
          (sets .inspect4 daddr || !sets .direct4 daddr && !sets .china4 daddr)) = true then
        .accept ((p.toSocket cfg.transparentPort).withMark cfg.fwmark)
      else .returned p := by
  obtain ⟨saddr, hheader⟩ := h.ipv4
  have hcore : cfg.hands sets p = (sets .forceProxy4 daddr || !sets .forceDirect4 daddr &&
      (sets .inspect4 daddr || !sets .direct4 daddr && !sets .china4 daddr)) := by
    rcases h.proto with hproto | hproto <;>
      simp [NftConfig.hands, NftEnv.toCore, NftEnv.intercepted, hheader, hproto, h.outside, hdns]
  rw [← hcore, ← takes_eq_hands hbypass]
  exact evalChain_active alive _ p

/-- The sets let a routed packet pass. -/
def passes (sets : TableSet → BitVec 32 → Bool) (daddr : BitVec 32) : Bool :=
  !sets .forceProxy4 daddr && (sets .forceDirect4 daddr ||
    !sets .inspect4 daddr && (sets .direct4 daddr || sets .china4 daddr))

theorem runTable_active_returned_iff (hbypass : BypassesLiterals sets)
    (h : Routed (sets .bypass4) p daddr) (hdns : cfg.exemptDNS p = false) (alive : Bool) :
    runTable cfg sets alive .active p = .returned p ↔ passes sets daddr = true := by
  rw [runTable_active_routed hbypass h hdns, passes]
  cases sets .forceProxy4 daddr <;> cases sets .forceDirect4 daddr <;>
    cases sets .inspect4 daddr <;> cases sets .direct4 daddr <;> cases sets .china4 daddr <;> simp

/-! ## What the kernel lets pass -/

/-- What makes the core leave an address direct: explicit rules cover it and none of
the longest says proxy, or none covers it, no proxy observation of it is live and a
direct one or the dataset speaks for it. -/
def LeftDirect (data : Dataset) (rules : List RuleConfig) (learned : LearnedDecision)
    (daddr : BitVec 32) : Prop :=
  ((∃ rule ∈ explicitPrefixRules rules, rule.covers daddr) ∧
      ¬ ∃ rule ∈ explicitPrefixRules rules,
        rule.Longest (explicitPrefixRules rules) daddr ∧ rule.action = .proxy) ∨
    ((∀ rule ∈ explicitPrefixRules rules, ¬ rule.covers daddr) ∧ learned.proxy = false ∧
      (learned.direct = true ∨ ∃ rule ∈ chinaPrefixRules data, rule.covers daddr))

theorem not_exists_of_uncovered {rules : List PrefixRule} {daddr : BitVec 32}
    (uncovered : ∀ rule ∈ rules, ¬ rule.covers daddr) : ¬ ∃ rule ∈ rules, rule.covers daddr := by
  rintro ⟨rule, hmem, hcov⟩
  exact uncovered rule hmem hcov

theorem shouldDirect_iff_leftDirect (data : Dataset) (rules : List RuleConfig)
    (table : LearningTable) (now : Int) (daddr : BitVec 32) :
    ((UDPServer.mk (some (Classifier.ofRules data rules)) (some table)).shouldDirect now
        (.v4 daddr)).2 = true ↔
      LeftDirect data rules (table.lookup (.v4 daddr) now).2 daddr := by
  rw [shouldDirect_eq, LeftDirect]
  have hd := Classifier.ip_decision data rules daddr
  generalize (Classifier.ofRules data rules).ip (.v4 daddr) = decision at hd
  generalize (table.lookup (.v4 daddr) now).2 = learned
  cases hd with
  | explicit action known covered proxy_iff =>
      have hcovered : ¬ ∀ rule ∈ explicitPrefixRules rules, ¬ rule.covers daddr :=
        fun huncovered => not_exists_of_uncovered huncovered covered
      rw [← proxy_iff]
      cases action <;> simp [covered, hcovered] at known ⊢
  | china uncovered covered =>
      cases learned.proxy <;> simp [not_exists_of_uncovered uncovered, eq_true uncovered, covered]
  | default uncovered foreign =>
      simp [not_exists_of_uncovered uncovered, eq_true uncovered, not_exists_of_uncovered foreign]

/-- A routed packet that is no canary's DNS: the chain lets it pass and the core would
proxy it exactly when the dataset covers its address without an explicit rule and
only proxy observations of it are live. Such an address is in neither learned set. -/
theorem passes_leftDirect_iff (data : Dataset) (rules : List RuleConfig) (table : LearningTable)
    (now : Int) (bypass : BitVec 32 → Bool) (daddr : BitVec 32) :
    (passes (policySets data rules table now bypass) daddr = true →
      LeftDirect data rules (table.lookup (.v4 daddr) now).2 daddr) ↔
    ¬ ((∀ rule ∈ explicitPrefixRules rules, ¬ rule.covers daddr) ∧
      (∃ rule ∈ chinaPrefixRules data, rule.covers daddr) ∧
      (table.lookup (.v4 daddr) now).2.proxy = true ∧
      (table.lookup (.v4 daddr) now).2.direct = false) := by
  obtain ⟨hdirect4, hinspect4⟩ := learnedSet_eq table now daddr
  simp only [passes, policySets, hdirect4, hinspect4, LeftDirect]
  generalize (table.lookup (.v4 daddr) now).2 = learned
  by_cases huncovered : ∀ rule ∈ explicitPrefixRules rules, ¬ rule.covers daddr
  · simp only [forceSet_of_uncovered huncovered, not_exists_of_uncovered huncovered]
    by_cases hchina : ∃ rule ∈ chinaPrefixRules data, rule.covers daddr
    · cases learned.direct <;> cases learned.proxy <;>
        simp [chinaSet_iff.mpr hchina, eq_true huncovered, hchina]
    · have hchina' : chinaSet data daddr = false := by
        rw [← Bool.not_eq_true, chinaSet_iff]
        exact hchina
      cases learned.direct <;> cases learned.proxy <;>
        simp [hchina, hchina', eq_true huncovered]
  · -- An address that passes has no explicit proxy rule at all.
    have hcovered : ∃ rule ∈ explicitPrefixRules rules, rule.covers daddr := by
      simpa using huncovered
    refine iff_of_true (fun hpasses => Or.inl ⟨hcovered, ?_⟩) fun hnot => huncovered hnot.1
    rintro ⟨rule, hmem, hlong, haction⟩
    simp [forceSet_iff.mpr ⟨rule, hmem, hlong.1, haction⟩] at hpasses

/-- Whatever the chain lets pass is direct for the core exactly when, for a canary's
DNS, the core leaves the address direct, for the chain returns that to any address;
and, for every other packet, it is not so that the dataset covers the address
without an explicit rule and only proxy observations of it are live. -/
theorem kernel_bypass_is_direct_iff {data : Dataset} {rules : List RuleConfig} {c : Classifier}
    (hnew : new data rules = .ok c) (table : LearningTable) (now : Int) (bypass : BitVec 32 → Bool)
    (cfg : NftConfig) (hbypass : BypassesLiterals (policySets data rules table now bypass))
    (p : Packet) (daddr : BitVec 32) (hrouted : Routed bypass p daddr) (alive : Bool) :
    (runTable cfg (policySets data rules table now bypass) alive .active p = .returned p →
      ((UDPServer.mk (some c) (some table)).shouldDirect now (.v4 daddr)).2 = true) ↔
    (cfg.exemptDNS p = true → LeftDirect data rules (table.lookup (.v4 daddr) now).2 daddr) ∧
    (cfg.exemptDNS p = false →
      ¬ ((∀ rule ∈ explicitPrefixRules rules, ¬ rule.covers daddr) ∧
        (∃ rule ∈ chinaPrefixRules data, rule.covers daddr) ∧
        (table.lookup (.v4 daddr) now).2.proxy = true ∧
        (table.lookup (.v4 daddr) now).2.direct = false)) := by
  obtain rfl := new_ok hnew
  rw [shouldDirect_iff_leftDirect, ← passes_leftDirect_iff data rules table now bypass]
  cases hdns : cfg.exemptDNS p with
  | true => simp [runTable_active_exempt hdns]
  | false => simp [runTable_active_returned_iff hbypass hrouted hdns]

/-- A learned direct address outside the dataset passes and is direct, next to an
explicit proxy rule. -/
theorem kernel_bypass_is_direct_learned :
    let data : Dataset := ⟨[], []⟩
    let rules : List RuleConfig := [⟨ascii "proxy", ascii "ip", ascii "198.51.100.0/24"⟩]
    let table := ((newLearningTable 16).observe
      ⟨ascii "cn.example", .direct, [.v4 0xCB007108#32], hour⟩).1
    let bypass : BitVec 32 → Bool := fun daddr => (bypassElements []).any (·.contains daddr)
    let cfg : NftConfig := ⟨"br-lan", none, 12345, 102, 103, 1053, true⟩
    let p : Packet := ⟨"br-lan", .ipv4 0xC0A80102#32 0xCB007108#32, .udp, 443, false, 1, none, none⟩
    runTable cfg (policySets data rules table second bypass) true .active p = .returned p ∧
      ((UDPServer.mk (some (Classifier.ofRules data rules)) (some table)).shouldDirect second
        (.v4 0xCB007108#32)).2 = true := by
  intro data rules table bypass cfg p
  have hreturned :
      runTable cfg (policySets data rules table second bypass) true .active p = .returned p := by
    decide
  have hnew : new data rules = .ok (Classifier.ofRules data rules) := rfl
  refine ⟨hreturned, (kernel_bypass_is_direct_iff hnew table second bypass cfg
    (bypassElements_literals rfl) p 0xCB007108#32
    ⟨⟨_, rfl⟩, Or.inr rfl, by decide⟩ true).mpr ⟨nofun, fun _ => ?_⟩ hreturned⟩
  rintro ⟨-, ⟨rule, hmem, -⟩, -⟩
  exact absurd hmem (by simp [data, chinaPrefixRules])

/-- An address of the dataset that only a proxied domain uses passes in the
kernel, and the core would proxy it. -/
theorem kernel_bypasses_learned_proxy :
    let data : Dataset := ⟨[], [.ipv4 (cidr 203 0 113 0 24)]⟩
    let table := ((newLearningTable 16).observe
      ⟨ascii "world.example", .proxy, [.v4 0xCB007108#32], hour⟩).1
    let bypass : BitVec 32 → Bool := fun daddr => (bypassElements []).any (·.contains daddr)
    let cfg : NftConfig := ⟨"br-lan", none, 12345, 102, 103, 1053, true⟩
    let p : Packet := ⟨"br-lan", .ipv4 0xC0A80102#32 0xCB007108#32, .udp, 443, false, 1, none, none⟩
    ∃ c, new data [] = .ok c ∧
      runTable cfg (policySets data [] table second bypass) true .active p = .returned p ∧
      ((UDPServer.mk (some c) (some table)).shouldDirect second (.v4 0xCB007108#32)).2 = false :=
  ⟨_, rfl, by decide, by decide⟩

/-! ## Explicit rules -/

/-- The chain hands the packet to the core by a rule for `force_proxy4`. -/
def ReachesForceProxy (cfg : NftConfig) (sets : TableSet → BitVec 32 → Bool) (p : Packet) : Prop :=
  decidingRule ⟨sets, heartbeatMaps true⟩ (activeRules cfg) p ∈
      [some (interceptRule cfg [.daddrIn .forceProxy4] .tcp),
        some (interceptRule cfg [.daddrIn .forceProxy4] .udp)] ∧
    (runTable cfg sets true .active p).Intercepted cfg.transparentPort

/-- The chain returns by the rule for `force_direct4`. -/
def ReachesForceDirect (cfg : NftConfig) (sets : TableSet → BitVec 32 → Bool) (p : Packet) : Prop :=
  decidingRule ⟨sets, heartbeatMaps true⟩ (activeRules cfg) p =
      some [.test (.daddrIn .forceDirect4), .verdict .ret] ∧
    runTable cfg sets true .active p = .returned p

/-- The canary rules decide exempt packets only. -/
theorem decidingRule_canaryDNSRules {env : NftEnv} (h : cfg.exemptDNS p = false)
    (rest : List NftRule) :
    decidingRule env (canaryDNSRules cfg ++ rest) p = decidingRule env rest p := by
  unfold canaryDNSRules
  unfold NftConfig.exemptDNS at h
  cases hcanary : cfg.canarySource with
  | none => rfl
  | some source =>
      rw [hcanary] at h
      simp only [List.cons_append, List.nil_append]
      rw [decidingRule_skip, decidingRule_skip] <;>
        rcases p.l4proto.cases with hproto | hproto | hproto <;>
        simp_all [evalRule, Test.holds]

/-- The first rules pass a routed packet on to the canary rules. -/
theorem decidingRule_active_routed (h : Routed (sets .bypass4) p daddr) :
    decidingRule ⟨sets, heartbeatMaps true⟩ (activeRules cfg) p =
      decidingRule ⟨sets, heartbeatMaps true⟩
        (canaryDNSRules cfg ++ (explicitRules cfg ++ otherRules cfg)) p := by
  obtain ⟨saddr, hheader⟩ := h.ipv4
  have houtside := h.outside
  simp only [activeRules, List.cons_append, List.nil_append, List.append_assoc]
  rw [decidingRule_skip (by simp [evalRule, Test.holds, hheader]),
    decidingRule_skip (by simp [evalRule, Test.holds, hheader, houtside])]

/-- A canary rule decides a canary's DNS. -/
theorem decidingRule_active_exempt (h : Routed (sets .bypass4) p daddr)
    (hdns : cfg.exemptDNS p = true) :
    decidingRule ⟨sets, heartbeatMaps true⟩ (activeRules cfg) p =
      some [.test (.dport p.l4proto 53), .verdict .ret] := by
  rw [decidingRule_active_routed h, canaryDNSRules]
  unfold NftConfig.exemptDNS at hdns
  cases hcanary : cfg.canarySource with
  | none => simp [hcanary] at hdns
  | some source =>
      rcases h.proto with hproto | hproto <;>
        simp_all [decidingRule, evalRule, Test.holds]

/-- For any other routed packet the explicit sets are asked first. -/
theorem decidingRule_active (h : Routed (sets .bypass4) p daddr)
    (hdns : cfg.exemptDNS p = false) :
    decidingRule ⟨sets, heartbeatMaps true⟩ (activeRules cfg) p =
      if sets .forceProxy4 daddr = true then
        some (interceptRule cfg [.daddrIn .forceProxy4] p.l4proto)
      else if sets .forceDirect4 daddr = true then
        some [.test (.daddrIn .forceDirect4), .verdict .ret]
      else decidingRule ⟨sets, heartbeatMaps true⟩ (otherRules cfg) p := by
  obtain ⟨saddr, hheader⟩ := h.ipv4
  rw [decidingRule_active_routed h, decidingRule_canaryDNSRules hdns]
  simp only [explicitRules, List.cons_append, List.nil_append]
  by_cases hproxy : sets .forceProxy4 daddr = true
  · rcases h.proto with hproto | hproto <;>
      simp [decidingRule, interceptRule, evalRule, Test.holds, hheader, hproto, hproxy]
  · rw [decidingRule_skip (by simp [interceptRule, evalRule, Test.holds, hheader, hproxy]),
      decidingRule_skip (by simp [interceptRule, evalRule, Test.holds, hheader, hproxy])]
    by_cases hdirect : sets .forceDirect4 daddr = true <;>
      simp [decidingRule, evalRule, Test.holds, hheader, hproxy, hdirect]

theorem explicit_not_mem_otherRules (cfg : NftConfig) :
    (∀ proto, interceptRule cfg [.daddrIn .forceProxy4] proto ∉ otherRules cfg) ∧
      [.test (.daddrIn .forceDirect4), .verdict .ret] ∉ otherRules cfg := by
  simp [otherRules, interceptRule]

/-- A canary's DNS reaches neither rule for the explicit addresses. -/
theorem reaches_none_of_exempt (h : Routed (sets .bypass4) p daddr)
    (hdns : cfg.exemptDNS p = true) :
    ¬ ReachesForceProxy cfg sets p ∧ ¬ ReachesForceDirect cfg sets p := by
  simp [ReachesForceProxy, ReachesForceDirect, decidingRule_active_exempt h hdns, interceptRule]

theorem reachesForceProxy_iff (hbypass : BypassesLiterals sets)
    (h : Routed (sets .bypass4) p daddr) (hdns : cfg.exemptDNS p = false) :
    ReachesForceProxy cfg sets p ↔ sets .forceProxy4 daddr = true := by
  rw [ReachesForceProxy, decidingRule_active h hdns, runTable_active_routed hbypass h hdns]
  by_cases hproxy : sets .forceProxy4 daddr = true
  · refine iff_of_true ⟨?_, ?_⟩ hproxy
    · rcases h.proto with hproto | hproto <;> simp [hproxy, hproto]
    · rw [hproxy, Bool.true_or, if_pos rfl]
      exact ⟨_, rfl, rfl⟩
  · refine iff_of_false ?_ hproxy
    rintro ⟨hrule, -⟩
    rw [if_neg hproxy, List.mem_pair] at hrule
    by_cases hdirect : sets .forceDirect4 daddr = true
    · rw [if_pos hdirect] at hrule
      rcases hrule with hrule | hrule <;> simp [interceptRule] at hrule
    · rw [if_neg hdirect] at hrule
      rcases hrule with hrule | hrule <;>
        exact (explicit_not_mem_otherRules cfg).1 _ (decidingRule_mem hrule)

theorem reachesForceDirect_iff (hbypass : BypassesLiterals sets)
    (h : Routed (sets .bypass4) p daddr) (hdns : cfg.exemptDNS p = false) :
    ReachesForceDirect cfg sets p ↔
      ¬ sets .forceProxy4 daddr = true ∧ sets .forceDirect4 daddr = true := by
  rw [ReachesForceDirect, decidingRule_active h hdns, runTable_active_routed hbypass h hdns]
  by_cases hproxy : sets .forceProxy4 daddr = true
  · simp [hproxy, interceptRule]
  · by_cases hdirect : sets .forceDirect4 daddr = true
    · simp [hproxy, hdirect]
    · refine iff_of_false ?_ (fun hboth => hdirect hboth.2)
      rintro ⟨hrule, -⟩
      rw [if_neg hproxy, if_neg hdirect] at hrule
      exact (explicit_not_mem_otherRules cfg).2 (decidingRule_mem hrule)

theorem no_action_of_uncovered {rules : List PrefixRule} {daddr : BitVec 32}
    (uncovered : ∀ rule ∈ rules, ¬ rule.covers daddr) (action : Action) :
    ¬ ∃ rule ∈ rules, rule.covers daddr ∧ rule.action = action := by
  rintro ⟨rule, hmem, hcov, -⟩
  exact uncovered rule hmem hcov

/-- The decision for an address follows the explicit rules as two flat sets would,
proxy first, exactly when a covering proxy rule, if there is any, has a prefix as
long as every covering rule's. -/
theorem ip_follows_flat_iff (data : Dataset) (rules : List RuleConfig) (daddr : BitVec 32) :
    let covered := fun action =>
      ∃ rule ∈ explicitPrefixRules rules, rule.covers daddr ∧ rule.action = action
    let decision := (Classifier.ofRules data rules).ip (.v4 daddr)
    ((covered .proxy ↔ decision = { action := .proxy, source := .explicitIP }) ∧
      (¬ covered .proxy ∧ covered .direct ↔
        decision = { action := .direct, source := .explicitIP }) ∧
      (covered .proxy → decision.action ≠ .direct)) ↔
    (covered .proxy → ∃ rule ∈ explicitPrefixRules rules,
      rule.Longest (explicitPrefixRules rules) daddr ∧ rule.action = .proxy) := by
  intro covered decision
  have hd := Classifier.ip_decision data rules daddr
  change IPDecision data rules daddr decision at hd
  generalize decision = decision at hd
  have hlongest : (∃ rule ∈ explicitPrefixRules rules,
      rule.Longest (explicitPrefixRules rules) daddr ∧ rule.action = .proxy) → covered .proxy := by
    rintro ⟨rule, hmem, hlong, haction⟩
    exact ⟨rule, hmem, hlong.1, haction⟩
  cases hd with
  | explicit action known hcovered proxy_iff =>
      simp only [Decision.mk.injEq, and_true]
      constructor
      · rintro ⟨hreach, -, -⟩ hcover
        exact proxy_iff.mp (hreach.mp hcover)
      · intro hlong
        have haction : action = .proxy ↔ covered .proxy := proxy_iff.trans ⟨hlongest, hlong⟩
        refine ⟨haction.symm, ⟨?_, ?_⟩, ?_⟩
        · rintro ⟨hnone, -⟩
          exact eq_direct_of_not_proxy known haction hnone
        · rintro rfl
          have hnone : ¬ covered .proxy := fun hcover => absurd (haction.mpr hcover) (by decide)
          obtain ⟨rule, hmem, hcov⟩ := hcovered
          refine ⟨hnone, rule, hmem, hcov, ?_⟩
          cases hrule : rule.action with
          | unknown => exact absurd hrule (explicitPrefixRules_known rules rule hmem)
          | direct => rfl
          | proxy => exact absurd ⟨rule, hmem, hcov, hrule⟩ hnone
        · intro hcover
          rw [haction.mpr hcover]
          decide
  | china uncovered _ => simp [covered, no_action_of_uncovered uncovered]
  | default uncovered _ => simp [covered, no_action_of_uncovered uncovered]

/-- No explicit rule covers an address exactly when none decides it. -/
theorem ip_not_explicit_iff (data : Dataset) (rules : List RuleConfig) (daddr : BitVec 32) :
    let decision := (Classifier.ofRules data rules).ip (.v4 daddr)
    (decision ≠ { action := .proxy, source := .explicitIP } ∧
      decision ≠ { action := .direct, source := .explicitIP }) ↔
    ∀ rule ∈ explicitPrefixRules rules, ¬ rule.covers daddr := by
  intro decision
  have hd := Classifier.ip_decision data rules daddr
  change IPDecision data rules daddr decision at hd
  generalize decision = decision at hd
  cases hd with
  | explicit action known covered proxy_iff =>
      refine iff_of_false ?_ fun huncovered => not_exists_of_uncovered huncovered covered
      cases action <;> simp at known ⊢
  | china uncovered _ => simpa using uncovered
  | default uncovered _ => simpa using uncovered

/-- The chain and the classifier agree on the explicit rules for an address
exactly when, for a canary's DNS, no explicit rule covers the address, for a rule
before them decides that; and, for every other packet, a covering proxy rule, if
there is any, has a prefix as long as every covering rule's. -/
theorem kernel_agrees_on_explicit_rules_iff {data : Dataset} {rules : List RuleConfig}
    {c : Classifier} (hnew : new data rules = .ok c) (cfg : NftConfig)
    (sets : TableSet → BitVec 32 → Bool) (hbypass : BypassesLiterals sets)
    (hproxy : sets .forceProxy4 = forceSet rules .proxy)
    (hdirect : sets .forceDirect4 = forceSet rules .direct) (p : Packet) (daddr : BitVec 32)
    (hrouted : Routed (sets .bypass4) p daddr) :
    ((ReachesForceProxy cfg sets p ↔
        c.ip (.v4 daddr) = { action := .proxy, source := .explicitIP }) ∧
      (ReachesForceDirect cfg sets p ↔
        c.ip (.v4 daddr) = { action := .direct, source := .explicitIP }) ∧
      ((∃ rule ∈ explicitPrefixRules rules, rule.covers daddr ∧ rule.action = .proxy) →
        (c.ip (.v4 daddr)).action ≠ .direct)) ↔
    (cfg.exemptDNS p = true → ∀ rule ∈ explicitPrefixRules rules, ¬ rule.covers daddr) ∧
    (cfg.exemptDNS p = false →
      (∃ rule ∈ explicitPrefixRules rules, rule.covers daddr ∧ rule.action = .proxy) →
        ∃ rule ∈ explicitPrefixRules rules,
          rule.Longest (explicitPrefixRules rules) daddr ∧ rule.action = .proxy) := by
  obtain rfl := new_ok hnew
  cases hdns : cfg.exemptDNS p with
  | true =>
      obtain ⟨hnoProxy, hnoDirect⟩ := reaches_none_of_exempt hrouted hdns
      have hexplicit := ip_not_explicit_iff data rules daddr
      simp only [hnoProxy, hnoDirect, false_iff, forall_const, Bool.true_eq_false, false_implies,
        and_true]
      rw [← and_assoc]
      refine (and_iff_left_of_imp fun hnone hcover => ?_).trans hexplicit
      exact absurd hcover (no_action_of_uncovered (hexplicit.mp hnone) _)
  | false =>
      rw [reachesForceProxy_iff hbypass hrouted hdns, reachesForceDirect_iff hbypass hrouted hdns,
        hproxy, hdirect, forceSet_iff, forceSet_iff]
      simpa using ip_follows_flat_iff data rules daddr

/-- A proxy rule inside a direct one: both send the longer prefix to the proxy. -/
theorem kernel_agrees_on_nested_proxy :
    let rules : List RuleConfig := [⟨ascii "direct", ascii "ip", ascii "203.0.113.0/24"⟩,
      ⟨ascii "proxy", ascii "ip", ascii "203.0.113.128/25"⟩]
    let cfg : NftConfig := ⟨"br-lan", none, 12345, 102, 103, 1053, true⟩
    let sets := policySets ⟨[], []⟩ rules (newLearningTable 16) 0
      fun daddr => (bypassElements []).any (·.contains daddr)
    let p : Packet := ⟨"br-lan", .ipv4 0xC0A80102#32 0xCB007181#32, .tcp, 443, false, 1, none, none⟩
    ReachesForceProxy cfg sets p ↔
      (Classifier.ofRules ⟨[], []⟩ rules).ip (.v4 0xCB007181#32) =
        { action := .proxy, source := .explicitIP } := by
  intro rules cfg sets p
  have hnew : new ⟨[], []⟩ rules = .ok (Classifier.ofRules ⟨[], []⟩ rules) := rfl
  refine ((kernel_agrees_on_explicit_rules_iff hnew cfg sets
    (bypassElements_literals rfl) rfl rfl p 0xCB007181#32
    ⟨⟨_, rfl⟩, Or.inl rfl, by decide⟩).mpr ⟨nofun, fun _ _ => ?_⟩).1
  exact ⟨⟨cidr 203 0 113 128 25, .proxy⟩, by decide, ⟨by decide, by decide⟩, rfl⟩

/-- A direct rule inside a proxy one: the kernel hands the address to the core by
the proxy set, and the core's longest prefix says direct. -/
theorem kernel_differs_on_nested_direct :
    let rules : List RuleConfig := [⟨ascii "proxy", ascii "ip", ascii "203.0.113.0/24"⟩,
      ⟨ascii "direct", ascii "ip", ascii "203.0.113.128/25"⟩]
    let cfg : NftConfig := ⟨"br-lan", none, 12345, 102, 103, 1053, true⟩
    let sets := policySets ⟨[], []⟩ rules (newLearningTable 16) 0
      fun daddr => (bypassElements []).any (·.contains daddr)
    let p : Packet := ⟨"br-lan", .ipv4 0xC0A80102#32 0xCB007181#32, .tcp, 443, false, 1, none, none⟩
    ∃ c, new ⟨[], []⟩ rules = .ok c ∧
      decidingRule ⟨sets, heartbeatMaps true⟩ (activeRules cfg) p =
        some (interceptRule cfg [.daddrIn .forceProxy4] .tcp) ∧
      c.ip (.v4 0xCB007181#32) = { action := .direct, source := .explicitIP } :=
  ⟨_, rfl, by decide, by decide +kernel⟩

end Hy2Route.Firewall
