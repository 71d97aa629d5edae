import Hy2Route.DNSProxy.Resolver
import Hy2Route.Policy.Decisions

/-!
# Which upstreams a query asks

The labels of a query name are those of its presentation format, in which a dot
or any other byte may be escaped. For a name that normalizes they are the labels
the domain tree is searched with, so the rules that end them decide the upstream.
Any other name is taken for an unknown one, whatever rule ends its labels, and is
sent to both upstreams.
-/

namespace Hy2Route.DNSProxy

open Foundation Policy

/-! ## Labels in presentation format -/

def backslash : UInt8 := 0x5C

def isDigit (b : UInt8) : Bool := 0x30 ≤ b && b ≤ 0x39

def lowerByte (b : UInt8) : UInt8 := if 0x41 ≤ b ∧ b ≤ 0x5A then b + 0x20 else b

/-- The byte after a backslash, given by three digits or by itself, and the number
of bytes that it takes. -/
def escaped : Bytes → UInt8 × Nat
  | a :: b :: c :: _ =>
      if isDigit a && isDigit b && isDigit c then
        (UInt8.ofNat (100 * (a - 0x30).toNat + 10 * (b - 0x30).toNat + (c - 0x30).toNat), 3)
      else (a, 1)
  | a :: _ => (a, 1)
  | [] => (backslash, 0)

/-- The labels of a text whose first bytes are to be skipped. -/
def labelsFrom : Nat → Bytes → List Bytes
  | _, [] => [[]]
  | skip + 1, _ :: rest => labelsFrom skip rest
  | 0, b :: rest =>
      if b = dot then [] :: labelsFrom 0 rest
      else if b = backslash then
        (labelsFrom (escaped rest).2 rest).modifyHead (lowerByte (escaped rest).1 :: ·)
      else (labelsFrom 0 rest).modifyHead (lowerByte b :: ·)

/-- Remove the empty label after a final dot. -/
def dropRoot (labels : List Bytes) : List Bytes :=
  if labels.getLast? = some [] then labels.dropLast else labels

/-- The labels of a name, case-folded and without the final dot. -/
def nameLabels (name : Bytes) : List Bytes := dropRoot (labelsFrom 0 (toLower name))

/-- Without escapes and capitals the labels are the parts between the dots. -/
theorem labelsFrom_eq_split {s : Bytes} (h : ∀ b ∈ s, b ≠ backslash ∧ lowerByte b = b) :
    labelsFrom 0 s = split s dot := by
  induction s with
  | nil => rfl
  | cons b rest ih =>
      obtain ⟨⟨hescape, hlower⟩, hrest⟩ := List.forall_mem_cons.mp h
      unfold labelsFrom split
      rw [List.splitOn_cons_eq_if_modifyHead, ih hrest, hlower, if_neg hescape]
      simp only [beq_iff_eq]
      rfl

theorem labelRune_plain {b : UInt8} (h : labelRune b.toNat = true) :
    b ≠ backslash ∧ lowerByte b = b := by
  simp only [labelRune, Bool.or_eq_true, Bool.and_eq_true, decide_eq_true_eq, beq_iff_eq] at h
  constructor
  · rintro rfl
    simp [backslash] at h
  · apply if_neg
    rintro ⟨hlow, hhigh⟩
    rw [UInt8.le_iff_toNat_le] at hlow hhigh
    simp at hlow hhigh
    omega

/-- For a name that normalizes, the labels are those the tree is searched with. -/
theorem nameLabels_of_normal {name normal : Bytes} (h : normalizeDomain name = .ok normal) :
    nameLabels name = split normal dot := by
  obtain ⟨hname, -, -, hvalid⟩ := (normalizeDomain_ok_iff name normal).mp h
  have hplain (b : UInt8) (hb : b ∈ normal) : b ≠ backslash ∧ lowerByte b = b := by
    rcases labelRune_or_dot hvalid hb with rfl | hrune
    · decide
    · exact labelRune_plain hrune
  unfold nameLabels
  rcases eq_trimSuffix_singleton (toLower name) dot with hlower | hlower
  · -- The final dot leaves one more label, which is empty.
    rw [hlower, ← hname, labelsFrom_eq_split, split, List.splitOn_append_cons_self]
    · simp [dropRoot, split]
    · intro b hb
      rcases List.mem_append.mp hb with hb | hb
      · exact hplain b hb
      · rw [List.mem_singleton.mp hb]
        decide
  · rw [hlower, ← hname, labelsFrom_eq_split hplain]
    refine if_neg fun hlast => ?_
    exact (hvalid [] (List.mem_of_getLast? hlast)).nonempty rfl

/-! ## The rules that end a name -/

/-- The labels end with those of a rule. -/
def EndsWith (rules : List DomainRule) (labels : List Bytes) : Prop :=
  ∃ rule ∈ rules, split rule.domain dot <:+ labels

instance EndsWith.decidable (rules : List DomainRule) (labels : List Bytes) :
    Decidable (EndsWith rules labels) :=
  inferInstanceAs (Decidable (∃ rule ∈ rules, split rule.domain dot <:+ labels))

def explicitRulesFor (rules : List RuleConfig) (action : Action) : List DomainRule :=
  (explicitDomainRules rules).filter (·.action = action)

def chinaSuffixRules (data : Dataset) : List DomainRule :=
  (chinaDomainRules data).filter (!·.exact)

/-- The upstreams asked are those that the rules ending the labels allow. -/
def FollowsRules (data : Dataset) (rules : List RuleConfig) (labels : List Bytes)
    (asked : List Upstream) : Prop :=
  (EndsWith (explicitRulesFor rules .proxy) labels → .domestic ∉ asked) ∧
    ((EndsWith (explicitRulesFor rules .direct) labels ∨ EndsWith (chinaSuffixRules data) labels) →
      ¬ EndsWith (explicitRulesFor rules .proxy) labels → .trusted ∉ asked)

section Rules

variable {data : Dataset} {rules : List RuleConfig}

theorem explicitDomainRules_suffix {rule : DomainRule} (h : rule ∈ explicitDomainRules rules) :
    rule.exact = false := by
  obtain ⟨config, -, hrule⟩ := List.mem_filterMap.mp h
  unfold RuleConfig.domainRule? at hrule
  split at hrule
  · split_ifs at hrule
    cases hrule
    rfl
  · cases hrule

theorem endsWith_explicit_iff {name : Bytes} {action : Action} :
    EndsWith (explicitRulesFor rules action) (split name dot) ↔
      ∃ rule ∈ explicitDomainRules rules, rule.covers name ∧ rule.action = action := by
  constructor
  · rintro ⟨rule, hmem, hsuffix⟩
    obtain ⟨hrule, haction⟩ := List.mem_filter.mp hmem
    refine ⟨rule, hrule, ?_, of_decide_eq_true haction⟩
    simpa [DomainRule.covers, explicitDomainRules_suffix hrule] using hsuffix
  · rintro ⟨rule, hrule, hcov, haction⟩
    refine ⟨rule, List.mem_filter.mpr ⟨hrule, decide_eq_true haction⟩, ?_⟩
    simpa [DomainRule.covers, explicitDomainRules_suffix hrule] using hcov

theorem covers_of_endsWith_china {name : Bytes}
    (h : EndsWith (chinaSuffixRules data) (split name dot)) :
    ∃ rule ∈ chinaDomainRules data, rule.covers name := by
  obtain ⟨rule, hmem, hsuffix⟩ := h
  obtain ⟨hrule, hexact⟩ := List.mem_filter.mp hmem
  refine ⟨rule, hrule, ?_⟩
  have hnot : rule.exact = false := by simpa using hexact
  simpa [DomainRule.covers, hnot] using hsuffix

/-- Every explicit rule is a proxy or a direct one. -/
theorem endsWith_explicit_or (labels : List Bytes) :
    EndsWith (explicitDomainRules rules) labels ↔
      EndsWith (explicitRulesFor rules .proxy) labels ∨
        EndsWith (explicitRulesFor rules .direct) labels := by
  constructor
  · rintro ⟨rule, hmem, hsuffix⟩
    have hknown := explicitDomainRules_known rules rule hmem
    cases haction : rule.action with
    | unknown => exact absurd haction hknown
    | direct => exact Or.inr ⟨rule, List.mem_filter.mpr ⟨hmem, decide_eq_true haction⟩, hsuffix⟩
    | proxy => exact Or.inl ⟨rule, List.mem_filter.mpr ⟨hmem, decide_eq_true haction⟩, hsuffix⟩
  · rintro (⟨rule, hmem, hsuffix⟩ | ⟨rule, hmem, hsuffix⟩)
    · exact ⟨rule, List.mem_of_mem_filter hmem, hsuffix⟩
    · exact ⟨rule, List.mem_of_mem_filter hmem, hsuffix⟩

/-- The decision for a name that normalizes asks what the rules allow. -/
theorem choose_follows_rules {name normal : Bytes} (hnormal : normalizeDomain name = .ok normal)
    (domestic trusted : Reply) :
    FollowsRules data rules (nameLabels name)
      (choose (.ofRules data rules) ((Classifier.ofRules data rules).domain name) domestic
        trusted).1 := by
  have hd := Classifier.domain_decision data rules name
  unfold FollowsRules
  rw [nameLabels_of_normal hnormal, endsWith_explicit_iff, endsWith_explicit_iff]
  generalize (Classifier.ofRules data rules).domain name = decision at hd
  cases hd with
  | malformed err failed =>
      rw [failed] at hnormal
      cases hnormal
  | explicit name' normal' action known covered proxy_iff =>
      obtain rfl : name' = normal := Except.ok.inj (normal'.symm.trans hnormal)
      rw [← proxy_iff]
      cases action with
      | unknown => exact absurd rfl known
      | direct => simp [choose]
      | proxy => simp [choose]
  | china name' normal' uncovered covered =>
      obtain rfl : name' = normal := Except.ok.inj (normal'.symm.trans hnormal)
      simp only [choose, if_true, List.mem_singleton]
      refine ⟨?_, fun _ _ => by decide⟩
      rintro ⟨rule, hmem, hcov, -⟩
      exact absurd hcov (uncovered rule hmem)
  | default name' normal' uncovered foreign =>
      obtain rfl : name' = normal := Except.ok.inj (normal'.symm.trans hnormal)
      constructor
      · rintro ⟨rule, hmem, hcov, -⟩
        exact absurd hcov (uncovered rule hmem)
      · rintro (⟨rule, hmem, hcov, -⟩ | hchina) -
        · exact absurd hcov (uncovered rule hmem)
        · obtain ⟨rule, hmem, hcov⟩ := covers_of_endsWith_china hchina
          exact absurd hcov (foreign rule hmem)

end Rules

/-! ## The upstreams of a call -/

section Call

variable {σ : Type} (observe : σ → Observation → σ) (clock : Nat → Int) {r : Resolver σ}
  {c : Classifier} {input : ResolveInput} {request : Msg} {question : Question}

theorem asked_of_served (hquery : input.query = some (request, question))
    (h : r.cache.Serves question.name question.qtype (clock r.reads)) :
    (r.resolve observe clock input).asked = [] := by
  have hserves := r.cache.get_eq_none_iff question.name question.qtype (clock r.reads)
  rw [Resolver.resolve_of_query observe clock r hquery]
  rcases hget : r.cache.get question.name question.qtype (clock r.reads) with ⟨cache, _ | response⟩
  · rw [hget] at hserves
    exact absurd h (hserves.mp rfl)
  · rfl

/-- A query that the cache does not serve asks the upstreams of its decision, if
there are upstreams. -/
theorem asked_of_missed (hclassifier : r.classifier = some c)
    (hquery : input.query = some (request, question))
    (h : ¬ r.cache.Serves question.name question.qtype (clock r.reads)) :
    (r.resolve observe clock input).asked =
      if r.domestic = false ∨ r.trusted = false then []
      else (choose c (c.domain question.name) input.domestic input.trusted).1 := by
  have hmiss := (r.cache.get_eq_none_iff question.name question.qtype (clock r.reads)).mpr h
  rw [Resolver.resolve_of_query observe clock r hquery]
  rcases hget : r.cache.get question.name question.qtype (clock r.reads) with ⟨cache, found⟩
  rw [hget] at hmiss
  obtain rfl : found = none := hmiss
  simp only [Resolver.resolveMiss, Resolver.looked, hclassifier, Bool.or_eq_true,
    Bool.not_eq_true']
  split_ifs with habsent
  · rfl
  · rcases choose c (c.domain question.name) input.domestic input.trusted with
      ⟨asked, err | ⟨response, action⟩⟩
    · rfl
    · simp only
      split <;> rfl

/-- A call follows the rules that end the labels of its name exactly when it asks
nobody, or the name normalizes, or no rule ends its labels. -/
theorem resolve_follows_domain_rules_iff {data : Dataset} {rules : List RuleConfig}
    (hnew : new data rules = .ok c) (hclassifier : r.classifier = some c)
    (hquery : input.query = some (request, question)) :
    FollowsRules data rules (nameLabels question.name) (r.resolve observe clock input).asked ↔
      r.cache.Serves question.name question.qtype (clock r.reads) ∨
        r.domestic = false ∨ r.trusted = false ∨
        (∃ normal, normalizeDomain question.name = .ok normal) ∨
        (¬ EndsWith (explicitDomainRules rules) (nameLabels question.name) ∧
          ¬ EndsWith (chinaSuffixRules data) (nameLabels question.name)) := by
  obtain rfl := new_ok hnew
  have hnobody : FollowsRules data rules (nameLabels question.name) [] :=
    ⟨fun _ => List.not_mem_nil, fun _ _ => List.not_mem_nil⟩
  by_cases hserved : r.cache.Serves question.name question.qtype (clock r.reads)
  · rw [asked_of_served observe clock hquery hserved]
    exact iff_of_true hnobody (Or.inl hserved)
  · rw [asked_of_missed observe clock hclassifier hquery hserved]
    split_ifs with habsent
    · exact iff_of_true hnobody (Or.inr (or_assoc.mp (Or.inl habsent)))
    · push Not at habsent
      cases hnormal : normalizeDomain question.name with
      | ok normal =>
          apply iff_of_true (choose_follows_rules hnormal input.domestic input.trusted)
          exact Or.inr (Or.inr (Or.inr (Or.inl ⟨normal, rfl⟩)))
      | error err =>
          -- The name is taken for an unknown one, so both upstreams are asked.
          have hasked : (choose (.ofRules data rules)
              ((Classifier.ofRules data rules).domain question.name) input.domestic
              input.trusted).1 = [.domestic, .trusted] := by
            simp [Classifier.domain, hnormal, choose]
          rw [hasked, endsWith_explicit_or]
          simp only [FollowsRules, List.mem_cons, true_or, or_true, not_true_eq_false, imp_false,
            hserved, habsent, false_or, reduceCtorEq, exists_false]
          tauto

/-- A name in any spelling below an explicit proxy rule, and one below no rule. -/
theorem resolve_follows_proxy_rule :
    let rules : List RuleConfig := [⟨ascii "proxy", ascii "domain", ascii "proxy.example"⟩]
    let c := Classifier.ofRules ⟨[], []⟩ rules
    let r := newResolver (some c) true true (none : Option Unit) 16
    ∀ name ∈ [ascii "WWW.Proxy.Example.", ascii "_dns.other.example."],
      FollowsRules ⟨[], []⟩ rules (nameLabels name)
        (r.resolve (fun s _ => s) Nat.cast (.address name .empty .empty)).asked := by
  intro rules c r name hname
  have hnew : new ⟨[], []⟩ rules = .ok c := rfl
  have hquery : (ResolveInput.address name .empty .empty).query =
      some (⟨0, false, 0, true, false, 0, [⟨name, 1, 1⟩], []⟩, ⟨name, 1, 1⟩) := rfl
  apply (resolve_follows_domain_rules_iff (fun s _ => s) Nat.cast hnew rfl hquery).mpr
  refine Or.inr (Or.inr (Or.inr ?_))
  rcases List.mem_pair.mp hname with rfl | rfl
  · exact Or.inl ⟨ascii "www.proxy.example", rfl⟩
  · exact Or.inr ⟨by decide +kernel, by decide +kernel⟩

/-- A label that does not normalize hides the rules below which a name lies: the
name of a proxy rule is sent to the domestic upstream, and the name of a direct
rule to the trusted one. -/
theorem unnormal_name_asks_both :
    let rules : List RuleConfig := [⟨ascii "proxy", ascii "domain", ascii "proxy.example"⟩,
      ⟨ascii "direct", ascii "domain", ascii "direct.example"⟩]
    let c := Classifier.ofRules ⟨[], []⟩ rules
    let r := newResolver (some c) true true (none : Option Unit) 16
    let asked := fun name =>
      (r.resolve (fun s _ => s) Nat.cast (.address name .empty .empty)).asked
    new ⟨[], []⟩ rules = .ok c ∧
      EndsWith (explicitRulesFor rules .proxy) (nameLabels (ascii "_dns.proxy.example.")) ∧
      .domestic ∈ asked (ascii "_dns.proxy.example.") ∧
      EndsWith (explicitRulesFor rules .direct) (nameLabels (ascii "_dns.direct.example.")) ∧
      ¬ EndsWith (explicitRulesFor rules .proxy) (nameLabels (ascii "_dns.direct.example.")) ∧
      .trusted ∈ asked (ascii "_dns.direct.example.") := by
  intro rules c r asked
  refine ⟨rfl, ?_⟩
  decide +kernel

end Call

end Hy2Route.DNSProxy
