import Hy2Route.Policy.Classifier

/-!
# What a classifier decides

The decisions of a built classifier, read off the rules it was built from. An
address is decided by its longest explicit prefixes, then by the dataset; a name
by its explicit rules, of which a proxy rule wins, then by the dataset.
-/

namespace Hy2Route.Policy

open Foundation

variable (data : Dataset) (rules : List RuleConfig)

/-- The decision for an IPv4 address. -/
inductive IPDecision (a : BitVec 32) : Decision → Prop where
  | explicit (action : Action) (known : action ≠ .unknown)
      (covered : ∃ rule ∈ explicitPrefixRules rules, rule.covers a)
      (proxy_iff : action = .proxy ↔ ∃ rule ∈ explicitPrefixRules rules,
        rule.Longest (explicitPrefixRules rules) a ∧ rule.action = .proxy) :
      IPDecision a { action := action, source := .explicitIP }
  | china (uncovered : ∀ rule ∈ explicitPrefixRules rules, ¬ rule.covers a)
      (covered : ∃ rule ∈ chinaPrefixRules data, rule.covers a) :
      IPDecision a { action := .direct, source := .chinaIP }
  | default (uncovered : ∀ rule ∈ explicitPrefixRules rules, ¬ rule.covers a)
      (foreign : ∀ rule ∈ chinaPrefixRules data, ¬ rule.covers a) :
      IPDecision a { action := .proxy, source := .default }

/-- The decision for a domain. -/
inductive DomainDecision (domain : Bytes) : Decision → Prop where
  | malformed (err : DomainError) (failed : normalizeDomain domain = .error err) :
      DomainDecision domain { action := .proxy, source := .default }
  | explicit (name : Bytes) (normal : normalizeDomain domain = .ok name) (action : Action)
      (known : action ≠ .unknown)
      (covered : ∃ rule ∈ explicitDomainRules rules, rule.covers name)
      (proxy_iff : action = .proxy ↔
        ∃ rule ∈ explicitDomainRules rules, rule.covers name ∧ rule.action = .proxy) :
      DomainDecision domain { action := action, source := .explicitDomain, domain := name }
  | china (name : Bytes) (normal : normalizeDomain domain = .ok name)
      (uncovered : ∀ rule ∈ explicitDomainRules rules, ¬ rule.covers name)
      (covered : ∃ rule ∈ chinaDomainRules data, rule.covers name) :
      DomainDecision domain { action := .direct, source := .chinaDomain, domain := name }
  | default (name : Bytes) (normal : normalizeDomain domain = .ok name)
      (uncovered : ∀ rule ∈ explicitDomainRules rules, ¬ rule.covers name)
      (foreign : ∀ rule ∈ chinaDomainRules data, ¬ rule.covers name) :
      DomainDecision domain { action := .proxy, source := .default, domain := name }

/-- A name of the domain is covered by one of the rules. -/
def CoversDomain (rules : List DomainRule) (domain : Bytes) : Prop :=
  ∃ name, normalizeDomain domain = .ok name ∧ ∃ rule ∈ rules, rule.covers name

instance CoversDomain.decidable (rules : List DomainRule) (domain : Bytes) :
    Decidable (CoversDomain rules domain) :=
  match h : normalizeDomain domain with
  | .ok name => decidable_of_iff (∃ rule ∈ rules, rule.covers name) (by simp [CoversDomain, h])
  | .error _ => isFalse (by simp [CoversDomain, h])

theorem explicitDomainRules_known : ∀ rule ∈ explicitDomainRules rules, rule.action ≠ .unknown := by
  intro rule hmem
  obtain ⟨config, -, h⟩ := List.mem_filterMap.mp hmem
  unfold RuleConfig.domainRule? at h
  split at h
  · rename_i action name haction _
    split_ifs at h
    cases h
    exact parseAction_known haction
  · cases h

theorem chinaDomainRules_direct : ∀ rule ∈ chinaDomainRules data, rule.action = .direct := by
  intro rule hmem
  obtain ⟨domain, -, h⟩ := List.mem_filterMap.mp hmem
  split at h <;> cases h
  rfl

/-- A lookup finds a known action or nothing. -/
theorem found_cases (found : Action × Bool) (h : found.2 = decide (found.1 ≠ .unknown)) :
    (∃ action, action ≠ .unknown ∧ found = (action, true)) ∨ found = (.unknown, false) := by
  obtain ⟨action, ok⟩ := found
  by_cases hknown : action = .unknown
  · exact Or.inr (by simp_all)
  · exact Or.inl ⟨action, hknown, by simp_all⟩

/-- A lookup in a tree of prefixes: the longest covering ones decide. -/
theorem matchAddr_result {rules : List PrefixRule}
    (hknown : ∀ rule ∈ rules, rule.action ≠ .unknown) (a : BitVec 32) :
    (∃ action, action ≠ .unknown ∧ (IPv4Tree.ofRules rules).matchAddr (.v4 a) = (action, true) ∧
      (∃ rule ∈ rules, rule.covers a) ∧
      (action = .proxy ↔ ∃ rule ∈ rules, rule.Longest rules a ∧ rule.action = .proxy)) ∨
    (IPv4Tree.ofRules rules).matchAddr (.v4 a) = (.unknown, false) ∧
      ∀ rule ∈ rules, ¬ rule.covers a := by
  have hcovered := IPv4Tree.matchAddr_known_iff rules hknown a
  have hproxy := IPv4Tree.matchAddr_proxy_iff rules hknown a
  rcases found_cases ((IPv4Tree.ofRules rules).matchAddr (.v4 a)) rfl with
    ⟨action, haction, hfound⟩ | hfound
  · rw [hfound] at hcovered hproxy
    exact Or.inl ⟨action, haction, hfound, hcovered.mp haction, hproxy⟩
  · rw [hfound] at hcovered
    exact Or.inr ⟨hfound, fun rule hmem hcov => hcovered.mpr ⟨rule, hmem, hcov⟩ rfl⟩

/-- A lookup in a tree of domains: every covering rule counts, and proxy wins. -/
theorem matchDomain_result {rules : List DomainRule}
    (hknown : ∀ rule ∈ rules, rule.action ≠ .unknown) (name : Bytes) :
    (∃ action, action ≠ .unknown ∧ (DomainTree.ofRules rules).matchDomain name = (action, true) ∧
      (∃ rule ∈ rules, rule.covers name) ∧
      (action = .proxy ↔ ∃ rule ∈ rules, rule.covers name ∧ rule.action = .proxy)) ∨
    (DomainTree.ofRules rules).matchDomain name = (.unknown, false) ∧
      ∀ rule ∈ rules, ¬ rule.covers name := by
  have hcovered := DomainTree.matchDomain_iff growing_known rules name
  have hproxy := DomainTree.matchDomain_iff growing_proxy rules name
  rcases found_cases ((DomainTree.ofRules rules).matchDomain name) rfl with
    ⟨action, haction, hfound⟩ | hfound
  · rw [hfound] at hcovered hproxy
    obtain ⟨rule, hmem, hcov, -⟩ := hcovered.mp haction
    exact Or.inl ⟨action, haction, hfound, ⟨rule, hmem, hcov⟩, hproxy⟩
  · rw [hfound] at hcovered
    exact Or.inr ⟨hfound, fun rule hmem hcov =>
      hcovered.mpr ⟨rule, hmem, hcov, hknown rule hmem⟩ rfl⟩

/-- A found action that no proxy rule gives is direct. -/
theorem eq_direct_of_not_proxy {action : Action} {P : Prop} (hknown : action ≠ .unknown)
    (hproxy : action = .proxy ↔ P) (h : ¬ P) : action = .direct := by
  cases action with
  | unknown => exact absurd rfl hknown
  | direct => rfl
  | proxy => exact absurd (hproxy.mp rfl) h

namespace Classifier

theorem ip_decision (a : BitVec 32) :
    IPDecision data rules a ((ofRules data rules).ip (.v4 a)) := by
  have hdirect := chinaPrefixRules_direct data
  unfold ip ofRules
  rcases matchAddr_result (explicitPrefixRules_known rules) a with
    ⟨action, hknown, hfound, hcovered, hproxy⟩ | ⟨hfound, huncovered⟩
  · simp only [hfound]
    exact .explicit action hknown hcovered hproxy
  · simp only [hfound]
    have hknown : ∀ rule ∈ chinaPrefixRules data, rule.action ≠ .unknown := fun rule hmem => by
      rw [hdirect rule hmem]
      decide
    rcases matchAddr_result hknown a with
      ⟨action, hknown, hfound', hcovered, hproxy⟩ | ⟨hfound', hforeign⟩
    · have haction : action = .direct := eq_direct_of_not_proxy hknown hproxy (by
        rintro ⟨rule, hmem, -, heq⟩
        exact absurd ((hdirect rule hmem).symm.trans heq) (by decide))
      simp only [hfound', haction]
      exact .china huncovered hcovered
    · simp only [hfound']
      exact .default huncovered hforeign

theorem domain_decision (domain : Bytes) :
    DomainDecision data rules domain ((ofRules data rules).domain domain) := by
  have hdirect := chinaDomainRules_direct data
  unfold Classifier.domain ofRules
  cases hnormal : normalizeDomain domain with
  | error err => exact .malformed err hnormal
  | ok name =>
      simp only
      rcases matchDomain_result (explicitDomainRules_known rules) name with
        ⟨action, hknown, hfound, hcovered, hproxy⟩ | ⟨hfound, huncovered⟩
      · simp only [hfound]
        exact .explicit name hnormal action hknown hcovered hproxy
      · simp only [hfound]
        have hknown : ∀ rule ∈ chinaDomainRules data, rule.action ≠ .unknown := fun rule hmem => by
          rw [hdirect rule hmem]
          decide
        rcases matchDomain_result hknown name with
          ⟨action, hknown, hfound', hcovered, hproxy⟩ | ⟨hfound', hforeign⟩
        · have haction : action = .direct := eq_direct_of_not_proxy hknown hproxy (by
            rintro ⟨rule, hmem, -, heq⟩
            exact absurd ((hdirect rule hmem).symm.trans heq) (by decide))
          simp only [hfound', haction]
          exact .china name hnormal huncovered hcovered
        · simp only [hfound']
          exact .default name hnormal huncovered hforeign

end Classifier

end Hy2Route.Policy
