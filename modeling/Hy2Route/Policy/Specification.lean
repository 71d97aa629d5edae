import Hy2Route.Policy.Decisions

/-!
# The specification of the classifier

What a classifier is for, stated over the entries it was built from and without
a tree. A name is decided by the domains whose labels end its own, an address by
the longest prefix that contains it. Only the set of entries counts, and of a
prefix only the bits before its length.
-/

namespace Hy2Route.Policy

open Foundation

/-- Two configurations with the same entries, in any order and any number. -/
structure SameEntries (data : Dataset) (rules : List RuleConfig) (data' : Dataset)
    (rules' : List RuleConfig) : Prop where
  domains : ∀ domain, domain ∈ data'.domains ↔ domain ∈ data.domains
  prefixes : ∀ pre, pre ∈ data'.prefixes ↔ pre ∈ data.prefixes
  rules : ∀ rule, rule ∈ rules' ↔ rule ∈ rules

/-- Entries in another order, some of them repeated, are accepted all the same. -/
theorem SameEntries.accepted {data data' : Dataset} {rules rules' : List RuleConfig}
    {c : Classifier} (hsame : SameEntries data rules data' rules') (hnew : new data rules = .ok c) :
    new data' rules' = .ok (Classifier.ofRules data' rules') := by
  obtain ⟨hdomains, hprefixes, hrules⟩ := new_isOk_iff.mp ⟨c, hnew⟩
  refine new_eq_ofRules ?_ ?_ ?_
  · exact fun domain hmem => hdomains domain ((hsame.domains domain).mp hmem)
  · exact fun pre hmem => hprefixes pre ((hsame.prefixes pre).mp hmem)
  · exact fun rule hmem => hrules rule ((hsame.rules rule).mp hmem)

/-! ## Names -/

/-- The labels of the written domain, once normalized, end the labels of the name. -/
def EndsName (written name : Bytes) : Prop :=
  ∃ domain, normalizeDomain written = .ok domain ∧ split domain dot <:+ split name dot

/-- An explicit domain rule with the given action ends the name. -/
def ExplicitName (rules : List RuleConfig) (action : Action) (name : Bytes) : Prop :=
  ∃ rule ∈ rules, rule.type = ascii "domain" ∧ parseAction rule.action = .ok action ∧
    EndsName rule.value name

/-- A domain of the dataset ends the name, or is the name when it is exact. -/
def ChinaName (data : Dataset) (name : Bytes) : Prop :=
  ∃ entry ∈ data.domains,
    entry.exact = false ∧ EndsName entry.name name ∨
      entry.exact = true ∧ normalizeDomain entry.name = .ok name

theorem mem_explicitDomainRules {rules : List RuleConfig} {rule : DomainRule} :
    rule ∈ explicitDomainRules rules ↔
      ∃ config ∈ rules, config.type = ascii "domain" ∧
        parseAction config.action = .ok rule.action ∧
        normalizeDomain config.value = .ok rule.domain ∧ rule.exact = false := by
  obtain ⟨domain, exact, action⟩ := rule
  rw [explicitDomainRules, List.mem_filterMap]
  refine exists_congr fun config => and_congr_right fun _ => ?_
  unfold RuleConfig.domainRule?
  cases parseAction config.action with
  | error err => simp
  | ok parsed =>
      cases normalizeDomain config.value with
      | error err => simp
      | ok normalized =>
          by_cases htype : config.type = ascii "domain"
          · simp only [htype, if_true, Option.some.injEq, DomainRule.mk.injEq, Except.ok.injEq,
              true_and]
            tauto
          · simp [htype]

theorem explicitName_iff {rules : List RuleConfig} {action : Action} {name : Bytes} :
    ExplicitName rules action name ↔
      ∃ rule ∈ explicitDomainRules rules, rule.covers name ∧ rule.action = action := by
  constructor
  · rintro ⟨config, hmem, htype, haction, domain, hdomain, hends⟩
    refine ⟨⟨domain, false, action⟩, ?_, ?_, rfl⟩
    · exact mem_explicitDomainRules.mpr ⟨config, hmem, htype, haction, hdomain, rfl⟩
    · simpa [DomainRule.covers] using hends
  · rintro ⟨rule, hmem, hcovers, rfl⟩
    obtain ⟨config, hconfig, htype, haction, hdomain, hexact⟩ := mem_explicitDomainRules.mp hmem
    refine ⟨config, hconfig, htype, haction, rule.domain, hdomain, ?_⟩
    simpa [DomainRule.covers, hexact] using hcovers

theorem chinaName_iff {data : Dataset} {name : Bytes} :
    ChinaName data name ↔ ∃ rule ∈ chinaDomainRules data, rule.covers name := by
  constructor
  · rintro ⟨entry, hmem, ⟨hexact, domain, hdomain, hends⟩ | ⟨hexact, hname⟩⟩
    · refine ⟨⟨domain, false, .direct⟩, List.mem_filterMap.mpr ⟨entry, hmem, ?_⟩, ?_⟩
      · simp [hdomain, hexact]
      · simpa [DomainRule.covers] using hends
    · refine ⟨⟨name, true, .direct⟩, List.mem_filterMap.mpr ⟨entry, hmem, ?_⟩, ?_⟩
      · simp [hname, hexact]
      · simp [DomainRule.covers]
  · rintro ⟨rule, hmem, hcovers⟩
    obtain ⟨entry, hentry, hrule⟩ := List.mem_filterMap.mp hmem
    cases hdomain : normalizeDomain entry.name with
    | error err => simp [hdomain] at hrule
    | ok domain =>
        simp only [hdomain, Option.some.injEq] at hrule
        subst hrule
        cases hexact : entry.exact with
        | false => exact ⟨entry, hentry, Or.inl ⟨hexact, domain, hdomain, by
            simpa [DomainRule.covers, hexact] using hcovers⟩⟩
        | true =>
            -- Equal label lists come from one name.
            have hname : domain = name := by
              have hlabels : split domain dot = split name dot := by
                simpa [DomainRule.covers, hexact] using hcovers
              have hjoined := congrArg [dot].intercalate hlabels
              rwa [split, split, List.intercalate_splitOn, List.intercalate_splitOn] at hjoined
            exact ⟨entry, hentry, Or.inr ⟨hexact, hname ▸ hdomain⟩⟩

instance ExplicitName.decidable (rules : List RuleConfig) (action : Action) (name : Bytes) :
    Decidable (ExplicitName rules action name) :=
  decidable_of_iff _ explicitName_iff.symm

instance ChinaName.decidable (data : Dataset) (name : Bytes) : Decidable (ChinaName data name) :=
  decidable_of_iff _ chinaName_iff.symm

/-- The decision for a normalized name. -/
def domainSpec (data : Dataset) (rules : List RuleConfig) (name : Bytes) : Decision :=
  if ExplicitName rules .proxy name then
    { action := .proxy, source := .explicitDomain, domain := name }
  else if ExplicitName rules .direct name then
    { action := .direct, source := .explicitDomain, domain := name }
  else if ChinaName data name then
    { action := .direct, source := .chinaDomain, domain := name }
  else { action := .proxy, source := .default, domain := name }

theorem domainSpec_congr {data data' : Dataset} {rules rules' : List RuleConfig}
    (hsame : SameEntries data rules data' rules') (name : Bytes) :
    domainSpec data' rules' name = domainSpec data rules name := by
  have hexplicit : ∀ action, ExplicitName rules' action name ↔ ExplicitName rules action name :=
    fun action => exists_congr fun rule => and_congr_left fun _ => hsame.rules rule
  have hchina : ChinaName data' name ↔ ChinaName data name :=
    exists_congr fun entry => and_congr_left fun _ => hsame.domains entry
  simp only [domainSpec, hexplicit, hchina]

theorem Classifier.domain_eq_domainSpec (data : Dataset) (rules : List RuleConfig)
    {q name : Bytes} (hq : normalizeDomain q = .ok name) :
    (Classifier.ofRules data rules).domain q = domainSpec data rules name := by
  have hdecision := Classifier.domain_decision data rules q
  have hknown := explicitDomainRules_known rules
  have hnone : (∀ rule ∈ explicitDomainRules rules, ¬ rule.covers name) → ∀ action,
      ¬ ∃ rule ∈ explicitDomainRules rules, rule.covers name ∧ rule.action = action :=
    fun uncovered _ ⟨rule, hmem, hcovers, _⟩ => uncovered rule hmem hcovers
  unfold domainSpec
  simp only [explicitName_iff, chinaName_iff]
  generalize (Classifier.ofRules data rules).domain q = decision at hdecision
  cases hdecision with
  | malformed err failed => simp [hq] at failed
  | explicit found normal action known covered proxy_iff =>
      obtain rfl : name = found := by simpa [hq] using normal
      by_cases hproxy : ∃ rule ∈ explicitDomainRules rules, rule.covers name ∧ rule.action = .proxy
      · rw [if_pos hproxy, proxy_iff.mpr hproxy]
      · obtain ⟨rule, hmem, hcovers⟩ := covered
        have hrule : rule.action = .direct :=
          eq_direct_of_not_proxy (hknown rule hmem) Iff.rfl
            fun heq => hproxy ⟨rule, hmem, hcovers, heq⟩
        rw [if_neg hproxy, if_pos ⟨rule, hmem, hcovers, hrule⟩,
          eq_direct_of_not_proxy known proxy_iff hproxy]
  | china found normal uncovered covered =>
      obtain rfl : name = found := by simpa [hq] using normal
      rw [if_neg (hnone uncovered _), if_neg (hnone uncovered _), if_pos covered]
  | default found normal uncovered foreign =>
      obtain rfl : name = found := by simpa [hq] using normal
      rw [if_neg (hnone uncovered _), if_neg (hnone uncovered _), if_neg]
      rintro ⟨rule, hmem, hcovers⟩
      exact foreign rule hmem hcovers

/-- The classifier decides a name as specified, and neither the order of the
entries nor their number matters. -/
theorem Classifier.domain_meets_spec {data : Dataset} {rules : List RuleConfig} {c : Classifier}
    (hnew : new data rules = .ok c) {q name : Bytes} (hq : normalizeDomain q = .ok name) :
    c.domain q = domainSpec data rules name ∧
      ∀ data' rules', SameEntries data rules data' rules' →
        ∃ c', new data' rules' = .ok c' ∧ c'.domain q = c.domain q := by
  have hspec : c.domain q = domainSpec data rules name := by
    rw [new_ok hnew]
    exact domain_eq_domainSpec data rules hq
  refine ⟨hspec, fun data' rules' hsame => ⟨_, hsame.accepted hnew, ?_⟩⟩
  rw [hspec, domain_eq_domainSpec data' rules' hq, domainSpec_congr hsame]

/-- A proxy subdomain inside a direct domain, and the same entries the other way
round with one of them repeated. -/
theorem Classifier.domain_meets_spec_nested :
    let data : Dataset := ⟨[⟨ascii "cn", false⟩], []⟩
    let direct : RuleConfig := ⟨ascii "direct", ascii "domain", ascii "example.com"⟩
    let proxy : RuleConfig := ⟨ascii "proxy", ascii "domain", ascii "mail.example.com"⟩
    let q := ascii "a.Mail.example.com."
    ∃ c c', new data [direct, proxy] = .ok c ∧ new data [proxy, direct, proxy] = .ok c' ∧
      c.domain q = ⟨.proxy, .explicitDomain, ascii "a.mail.example.com"⟩ ∧
      c'.domain q = c.domain q := by
  intro data direct proxy q
  have hnew : new data [direct, proxy] = .ok (Classifier.ofRules data [direct, proxy]) := rfl
  have hq : normalizeDomain q = .ok (ascii "a.mail.example.com") := by decide +kernel
  have hsame : SameEntries data [direct, proxy] data [proxy, direct, proxy] := by
    refine ⟨fun _ => Iff.rfl, fun _ => Iff.rfl, fun rule => ?_⟩
    simp only [List.mem_cons, List.not_mem_nil, or_false]
    tauto
  obtain ⟨hspec, hinvariant⟩ := domain_meets_spec hnew hq
  obtain ⟨c', hnew', heq⟩ := hinvariant _ _ hsame
  refine ⟨_, c', hnew, hnew', hspec.trans ?_, heq⟩
  decide +kernel

/-! ## Addresses -/

/-- An explicit rule gives the action to the prefix, up to its host bits. -/
def ExplicitPrefix (rules : List RuleConfig) (action : Action) (pre : IPv4Prefix) : Prop :=
  ∃ rule ∈ rules, rule.type = ascii "ip" ∧ parseAction rule.action = .ok action ∧
    ∃ written, parseIPv4Prefix rule.value = some written ∧ written.maskedPrefix = pre

/-- The prefix stands in the dataset, up to its host bits. -/
def ChinaPrefix (data : Dataset) (pre : IPv4Prefix) : Prop :=
  ∃ written, .ipv4 written ∈ data.prefixes ∧ written.maskedPrefix = pre

/-- The longest explicit prefix that contains the address. -/
structure LongestPrefix (rules : List RuleConfig) (a : BitVec 32) (pre : IPv4Prefix) : Prop where
  explicit : ∃ action, ExplicitPrefix rules action pre
  contains : pre.contains a = true
  longest : ∀ other action, ExplicitPrefix rules action other → other.contains a = true →
    other.bits ≤ pre.bits

theorem mem_explicitPrefixRules {rules : List RuleConfig} {rule : PrefixRule} :
    rule ∈ explicitPrefixRules rules ↔
      ∃ config ∈ rules, config.type = ascii "ip" ∧
        parseAction config.action = .ok rule.action ∧
        parseIPv4Prefix config.value = some rule.pre := by
  obtain ⟨pre, action⟩ := rule
  rw [explicitPrefixRules, List.mem_filterMap]
  refine exists_congr fun config => and_congr_right fun _ => ?_
  unfold RuleConfig.prefixRule?
  cases parseAction config.action with
  | error err => simp
  | ok parsed =>
      cases parseIPv4Prefix config.value with
      | none => simp
      | some written =>
          by_cases htype : config.type = ascii "ip"
          · simp only [htype, if_true, Option.some.injEq, PrefixRule.mk.injEq, Except.ok.injEq,
              true_and]
            tauto
          · simp [htype]

theorem explicitPrefix_iff {rules : List RuleConfig} {action : Action} {pre : IPv4Prefix} :
    ExplicitPrefix rules action pre ↔
      ∃ rule ∈ explicitPrefixRules rules, rule.pre.maskedPrefix = pre ∧ rule.action = action := by
  constructor
  · rintro ⟨config, hmem, htype, haction, written, hwritten, hpre⟩
    refine ⟨⟨written, action⟩, ?_, hpre, rfl⟩
    exact mem_explicitPrefixRules.mpr ⟨config, hmem, htype, haction, hwritten⟩
  · rintro ⟨rule, hmem, hpre, rfl⟩
    obtain ⟨config, hconfig, htype, haction, hwritten⟩ := mem_explicitPrefixRules.mp hmem
    exact ⟨config, hconfig, htype, haction, rule.pre, hwritten, hpre⟩

theorem chinaPrefix_iff {data : Dataset} {pre : IPv4Prefix} :
    ChinaPrefix data pre ↔ ∃ rule ∈ chinaPrefixRules data, rule.pre.maskedPrefix = pre := by
  constructor
  · rintro ⟨written, hmem, hpre⟩
    exact ⟨⟨written, .direct⟩, List.mem_filterMap.mpr ⟨_, hmem, rfl⟩, hpre⟩
  · rintro ⟨rule, hmem, hpre⟩
    obtain ⟨entry, hentry, hrule⟩ := List.mem_filterMap.mp hmem
    cases entry <;> cases hrule
    exact ⟨_, hentry, hpre⟩

instance ExplicitPrefix.decidable (rules : List RuleConfig) (action : Action) (pre : IPv4Prefix) :
    Decidable (ExplicitPrefix rules action pre) :=
  decidable_of_iff _ explicitPrefix_iff.symm

variable {data : Dataset} {rules : List RuleConfig} {a : BitVec 32}

theorem covered_iff_explicitPrefix : (∃ rule ∈ explicitPrefixRules rules, rule.covers a) ↔
    ∃ pre action, ExplicitPrefix rules action pre ∧ pre.contains a = true := by
  constructor
  · rintro ⟨rule, hmem, hcovers⟩
    exact ⟨_, rule.action, explicitPrefix_iff.mpr ⟨rule, hmem, rfl, rfl⟩,
      (rule.pre.contains_maskedPrefix a).mpr hcovers⟩
  · rintro ⟨pre, action, hexplicit, hcontains⟩
    obtain ⟨rule, hmem, rfl, -⟩ := explicitPrefix_iff.mp hexplicit
    exact ⟨rule, hmem, (rule.pre.contains_maskedPrefix a).mp hcontains⟩

theorem covered_iff_chinaPrefix : (∃ rule ∈ chinaPrefixRules data, rule.covers a) ↔
    ∃ pre, ChinaPrefix data pre ∧ pre.contains a = true := by
  constructor
  · rintro ⟨rule, hmem, hcovers⟩
    exact ⟨_, chinaPrefix_iff.mpr ⟨rule, hmem, rfl⟩,
      (rule.pre.contains_maskedPrefix a).mpr hcovers⟩
  · rintro ⟨pre, hchina, hcontains⟩
    obtain ⟨rule, hmem, rfl⟩ := chinaPrefix_iff.mp hchina
    exact ⟨rule, hmem, (rule.pre.contains_maskedPrefix a).mp hcontains⟩

/-- A longest rule is one of the longest prefix. -/
theorem LongestPrefix.of_rule {rule : PrefixRule} (hmem : rule ∈ explicitPrefixRules rules)
    (hlongest : rule.Longest (explicitPrefixRules rules) a) :
    LongestPrefix rules a rule.pre.maskedPrefix where
  explicit := ⟨rule.action, explicitPrefix_iff.mpr ⟨rule, hmem, rfl, rfl⟩⟩
  contains := (rule.pre.contains_maskedPrefix a).mpr hlongest.1
  longest := by
    intro other action hother hcontains
    obtain ⟨rule', hmem', rfl, -⟩ := explicitPrefix_iff.mp hother
    exact hlongest.2 rule' hmem' ((rule'.pre.contains_maskedPrefix a).mp hcontains)

/-- The longest prefix is one prefix. -/
theorem LongestPrefix.unique {pre pre' : IPv4Prefix} (h : LongestPrefix rules a pre)
    (h' : LongestPrefix rules a pre') : pre = pre' := by
  obtain ⟨action, hexplicit⟩ := h.explicit
  obtain ⟨action', hexplicit'⟩ := h'.explicit
  have hbits : pre.bits = pre'.bits :=
    le_antisymm (h'.longest pre action hexplicit h.contains)
      (h.longest pre' action' hexplicit' h'.contains)
  obtain ⟨rule, -, rfl, -⟩ := explicitPrefix_iff.mp hexplicit
  obtain ⟨rule', -, rfl, -⟩ := explicitPrefix_iff.mp hexplicit'
  have hcontains := (rule.pre.contains_maskedPrefix a).mp h.contains
  have hcontains' := (rule'.pre.contains_maskedPrefix a).mp h'.contains
  exact (IPv4Prefix.maskedPrefix_eq_iff _ _).mpr
    (IPv4Prefix.path_eq_of_contains hcontains hcontains' hbits)

theorem LongestPrefix.congr {rules' : List RuleConfig} {pre : IPv4Prefix}
    (hsame : ∀ action pre, ExplicitPrefix rules' action pre ↔ ExplicitPrefix rules action pre)
    (h : LongestPrefix rules' a pre) : LongestPrefix rules a pre := by
  refine ⟨h.explicit.imp fun action => (hsame action pre).mp, h.contains, ?_⟩
  intro other action hother
  exact h.longest other action ((hsame action other).mpr hother)

theorem LongestPrefix.exists_of_covered (h : ∃ rule ∈ explicitPrefixRules rules, rule.covers a) :
    ∃ pre, LongestPrefix rules a pre := by
  rcases IPv4Tree.matchAddr_cases _ (explicitPrefixRules_known rules) a with
    ⟨rule, hmem, hlongest, -⟩ | ⟨hnone, -⟩
  · exact ⟨_, .of_rule hmem hlongest⟩
  · obtain ⟨rule, hmem, hcovers⟩ := h
    exact absurd hcovers (hnone rule hmem)

/-- The proxy rules among the longest are those of the longest prefix. -/
theorem LongestPrefix.proxy_iff {pre : IPv4Prefix} (h : LongestPrefix rules a pre) :
    (∃ rule ∈ explicitPrefixRules rules,
        rule.Longest (explicitPrefixRules rules) a ∧ rule.action = .proxy) ↔
      ExplicitPrefix rules .proxy pre := by
  rw [explicitPrefix_iff]
  constructor
  · rintro ⟨rule, hmem, hlongest, haction⟩
    exact ⟨rule, hmem, (LongestPrefix.of_rule hmem hlongest).unique h, haction⟩
  · rintro ⟨rule, hmem, rfl, haction⟩
    refine ⟨rule, hmem, ⟨(rule.pre.contains_maskedPrefix a).mp h.contains, ?_⟩, haction⟩
    intro other hother hcovers
    have hexplicit : ExplicitPrefix rules other.action other.pre.maskedPrefix :=
      explicitPrefix_iff.mpr ⟨other, hother, rfl, rfl⟩
    have hcontains := (other.pre.contains_maskedPrefix a).mpr hcovers
    exact h.longest other.pre.maskedPrefix other.action hexplicit hcontains

/-- An explicit prefix contains the address. -/
def ExplicitAddr (rules : List RuleConfig) (a : BitVec 32) : Prop :=
  ∃ pre action, ExplicitPrefix rules action pre ∧ pre.contains a = true

/-- A prefix of the dataset contains the address. -/
def ChinaAddr (data : Dataset) (a : BitVec 32) : Prop :=
  ∃ pre, ChinaPrefix data pre ∧ pre.contains a = true

/-- The decision for an IPv4 address: the longest explicit prefix decides, with
proxy over direct on that one prefix, then the dataset. -/
structure IPSpec (data : Dataset) (rules : List RuleConfig) (a : BitVec 32)
    (decision : Decision) : Prop where
  exists_longest : ExplicitAddr rules a → ∃ pre, LongestPrefix rules a pre
  explicit : ∀ pre, LongestPrefix rules a pre → decision =
    { action := if ExplicitPrefix rules .proxy pre then .proxy else .direct
      source := .explicitIP }
  china : ¬ ExplicitAddr rules a →
    (decision = { action := .direct, source := .chinaIP } ↔ ChinaAddr data a)
  default : ¬ ExplicitAddr rules a → ¬ ChinaAddr data a →
    decision = { action := .proxy, source := .default }

theorem LongestPrefix.explicitAddr {pre : IPv4Prefix} (h : LongestPrefix rules a pre) :
    ExplicitAddr rules a :=
  ⟨pre, h.explicit.imp fun _ hexplicit => ⟨hexplicit, h.contains⟩⟩

theorem Classifier.ip_ipSpec (data : Dataset) (rules : List RuleConfig) (a : BitVec 32) :
    IPSpec data rules a ((Classifier.ofRules data rules).ip (.v4 a)) := by
  have hdecision := Classifier.ip_decision data rules a
  have hcovered : ExplicitAddr rules a → ∃ rule ∈ explicitPrefixRules rules, rule.covers a :=
    covered_iff_explicitPrefix.mpr
  have hchina : ChinaAddr data a → ∃ rule ∈ chinaPrefixRules data, rule.covers a :=
    covered_iff_chinaPrefix.mpr
  generalize (Classifier.ofRules data rules).ip (.v4 a) = decision at hdecision
  refine ⟨fun h => LongestPrefix.exists_of_covered (hcovered h), ?_, ?_, ?_⟩
  · intro pre hpre
    cases hdecision with
    | explicit action known covered proxy_iff =>
        rw [hpre.proxy_iff] at proxy_iff
        by_cases hproxy : ExplicitPrefix rules .proxy pre
        · rw [if_pos hproxy, proxy_iff.mpr hproxy]
        · rw [if_neg hproxy, eq_direct_of_not_proxy known proxy_iff hproxy]
    | china uncovered | default uncovered =>
        obtain ⟨rule, hmem, hcovers⟩ := hcovered hpre.explicitAddr
        exact absurd hcovers (uncovered rule hmem)
  · intro hforeign
    cases hdecision with
    | explicit action known covered =>
        exact absurd (covered_iff_explicitPrefix.mp covered) hforeign
    | china uncovered covered =>
        exact iff_of_true rfl (covered_iff_chinaPrefix.mp covered)
    | default uncovered foreign =>
        refine iff_of_false (by decide) fun h => ?_
        obtain ⟨rule, hmem, hcovers⟩ := hchina h
        exact foreign rule hmem hcovers
  · intro hforeign hnot
    cases hdecision with
    | explicit action known covered =>
        exact absurd (covered_iff_explicitPrefix.mp covered) hforeign
    | china uncovered covered => exact absurd (covered_iff_chinaPrefix.mp covered) hnot
    | default => rfl

/-- The specification leaves one decision. -/
theorem IPSpec.unique {decision decision' : Decision} (h : IPSpec data rules a decision)
    (h' : IPSpec data rules a decision') : decision = decision' := by
  by_cases hexplicit : ExplicitAddr rules a
  · obtain ⟨pre, hpre⟩ := h.exists_longest hexplicit
    rw [h.explicit pre hpre, h'.explicit pre hpre]
  · by_cases hchina : ChinaAddr data a
    · rw [(h.china hexplicit).mpr hchina, (h'.china hexplicit).mpr hchina]
    · rw [h.default hexplicit hchina, h'.default hexplicit hchina]

/-- The specification sees only which prefixes are given which action. -/
theorem IPSpec.congr {data' : Dataset} {rules' : List RuleConfig} {decision : Decision}
    (hexplicit : ∀ action pre, ExplicitPrefix rules' action pre ↔ ExplicitPrefix rules action pre)
    (hchina : ∀ pre, ChinaPrefix data' pre ↔ ChinaPrefix data pre)
    (h : IPSpec data' rules' a decision) : IPSpec data rules a decision := by
  have haddr : ExplicitAddr rules' a ↔ ExplicitAddr rules a := by
    simp only [ExplicitAddr, hexplicit]
  have hchinaAddr : ChinaAddr data' a ↔ ChinaAddr data a := by
    simp only [ChinaAddr, hchina]
  have hlongest : ∀ pre, LongestPrefix rules' a pre ↔ LongestPrefix rules a pre := fun pre =>
    ⟨.congr hexplicit, .congr fun action pre => (hexplicit action pre).symm⟩
  refine ⟨?_, ?_, ?_, ?_⟩
  · simpa only [haddr, hlongest] using h.exists_longest
  · simpa only [hexplicit, hlongest] using h.explicit
  · simpa only [haddr, hchinaAddr] using h.china
  · simpa only [haddr, hchinaAddr] using h.default

/-- The classifier decides an address by longest-prefix match. Neither the order
of the entries, nor their number, nor their host bits matter. -/
theorem Classifier.ip_meets_spec {c : Classifier} (hnew : new data rules = .ok c) :
    IPSpec data rules a (c.ip (.v4 a)) ∧
      (∀ data' rules', SameEntries data rules data' rules' →
        ∃ c', new data' rules' = .ok c' ∧ c'.ip (.v4 a) = c.ip (.v4 a)) ∧
      ∀ data' rules' c', new data' rules' = .ok c' →
        (∀ action pre, ExplicitPrefix rules' action pre ↔ ExplicitPrefix rules action pre) →
        (∀ pre, ChinaPrefix data' pre ↔ ChinaPrefix data pre) →
        c'.ip (.v4 a) = c.ip (.v4 a) := by
  obtain rfl := new_ok hnew
  have hspec := ip_ipSpec data rules a
  refine ⟨hspec, fun data' rules' hsame => ⟨_, hsame.accepted hnew, ?_⟩, ?_⟩
  · have hexplicit : ∀ action pre,
        ExplicitPrefix rules' action pre ↔ ExplicitPrefix rules action pre :=
      fun action pre => exists_congr fun rule => and_congr_left fun _ => hsame.rules rule
    have hchina : ∀ pre, ChinaPrefix data' pre ↔ ChinaPrefix data pre :=
      fun pre => exists_congr fun written => and_congr_left fun _ => hsame.prefixes _
    exact ((ip_ipSpec data' rules' a).congr hexplicit hchina).unique hspec
  · intro data' rules' c' hnew' hexplicit hchina
    obtain rfl := new_ok hnew'
    exact ((ip_ipSpec data' rules' a).congr hexplicit hchina).unique hspec

/-- A direct host inside a proxy prefix of length zero with host bits set, whose
two rules disagree: the host is direct, and every other address is proxied. -/
theorem Classifier.ip_meets_spec_boundaries :
    let rules : List RuleConfig := [⟨ascii "direct", ascii "ip", ascii "1.2.3.4/0"⟩,
      ⟨ascii "direct", ascii "ip", ascii "203.0.113.7/32"⟩,
      ⟨ascii "proxy", ascii "ip", ascii "5.6.7.8/0"⟩]
    ∃ c, new ⟨[], []⟩ rules = .ok c ∧
      c.ip (.v4 0xCB007107#32) = { action := .direct, source := .explicitIP } ∧
      c.ip (.v4 0xCB007108#32) = { action := .proxy, source := .explicitIP } := by
  intro rules
  have hnew : new ⟨[], []⟩ rules = .ok (Classifier.ofRules ⟨[], []⟩ rules) := rfl
  have hhost : LongestPrefix rules 0xCB007107#32 ⟨0xCB007107#32, 32, by decide⟩ := by
    have hmem : (⟨⟨0xCB007107#32, 32, by decide⟩, .direct⟩ : PrefixRule) ∈
        explicitPrefixRules rules := by decide +kernel
    exact .of_rule hmem ⟨by decide, by decide +kernel⟩
  have hall : LongestPrefix rules 0xCB007108#32 ⟨0#32, 0, by decide⟩ := by
    have hmem : (⟨⟨0x01020304#32, 0, by decide⟩, .direct⟩ : PrefixRule) ∈
        explicitPrefixRules rules := by decide +kernel
    exact .of_rule hmem ⟨by decide, by decide +kernel⟩
  refine ⟨_, hnew, ?_, ?_⟩
  · exact ((ip_meets_spec hnew).1.explicit _ hhost).trans (by decide +kernel)
  · exact ((ip_meets_spec hnew).1.explicit _ hall).trans (by decide +kernel)

end Hy2Route.Policy
