import Hy2Route.Policy.Domains
import Hy2Route.Policy.IPv4

/-!
# The classifier

`new` reads the dataset and the rules in order and stops at the first entry it
cannot accept. Explicit rules are consulted before the China data, and what
neither covers is proxied by default.
-/

namespace Hy2Route.Policy

open Foundation

structure DatasetDomain where
  name : Bytes
  exact : Bool

structure Dataset where
  domains : List DatasetDomain
  prefixes : List Prefix

structure RuleConfig where
  action : Bytes
  type : Bytes
  value : Bytes

inductive PolicyError where
  /-- china domain: the reason it does not normalize -/
  | chinaDomain (err : DomainError)
  /-- china prefix is not IPv4 -/
  | chinaPrefix (pre : Prefix)
  /-- rule action is invalid -/
  | ruleAction (value : Bytes)
  /-- rule domain: the reason it does not normalize -/
  | ruleDomain (err : DomainError)
  /-- rule IP is not IPv4 CIDR -/
  | ruleIP (value : Bytes)
  /-- rule type is invalid -/
  | ruleType (value : Bytes)

structure Classifier where
  explicitDomains : DomainTree
  chinaDomains : DomainTree
  explicitIPv4 : IPv4Tree
  chinaIPv4 : IPv4Tree

def Classifier.empty : Classifier :=
  ⟨DomainTree.empty, DomainTree.empty, IPv4Tree.empty, IPv4Tree.empty⟩

def parseAction (value : Bytes) : Except PolicyError Action :=
  if value = ascii "direct" then .ok .direct
  else if value = ascii "proxy" then .ok .proxy
  else .error (.ruleAction value)

namespace Classifier

def addChinaDomains : List DatasetDomain → Classifier → Except PolicyError Classifier
  | [], c => .ok c
  | domain :: rest, c =>
      match normalizeDomain domain.name with
      | .error err => .error (.chinaDomain err)
      | .ok normalized =>
          addChinaDomains rest
            { c with chinaDomains := c.chinaDomains.add normalized domain.exact .direct }

def addChinaPrefixes : List Prefix → Classifier → Except PolicyError Classifier
  | [], c => .ok c
  | .ipv4 pre :: rest, c =>
      addChinaPrefixes rest { c with chinaIPv4 := c.chinaIPv4.add pre .direct }
  | pre :: _, _ => .error (.chinaPrefix pre)

def addRule (rule : RuleConfig) (c : Classifier) : Except PolicyError Classifier :=
  match parseAction rule.action with
  | .error err => .error err
  | .ok action =>
      if rule.type = ascii "domain" then
        match normalizeDomain rule.value with
        | .error err => .error (.ruleDomain err)
        | .ok normalized =>
            .ok { c with explicitDomains := c.explicitDomains.add normalized false action }
      else if rule.type = ascii "ip" then
        match parseIPv4Prefix rule.value with
        | none => .error (.ruleIP rule.value)
        | some pre => .ok { c with explicitIPv4 := c.explicitIPv4.add pre action }
      else .error (.ruleType rule.type)

def addRules : List RuleConfig → Classifier → Except PolicyError Classifier
  | [], c => .ok c
  | rule :: rest, c =>
      match addRule rule c with
      | .error err => .error err
      | .ok c => addRules rest c

end Classifier

def new (data : Dataset) (rules : List RuleConfig) : Except PolicyError Classifier :=
  match Classifier.addChinaDomains data.domains Classifier.empty with
  | .error err => .error err
  | .ok c =>
      match Classifier.addChinaPrefixes data.prefixes c with
      | .error err => .error err
      | .ok c => Classifier.addRules rules c

namespace Classifier

def domain (c : Classifier) (domain : Bytes) : Decision :=
  match normalizeDomain domain with
  | .error _ => { action := .proxy, source := .default }
  | .ok normalized =>
      match c.explicitDomains.matchDomain normalized with
      | (action, true) => { action := action, source := .explicitDomain, domain := normalized }
      | (_, false) =>
          match c.chinaDomains.matchDomain normalized with
          | (action, true) => { action := action, source := .chinaDomain, domain := normalized }
          | (_, false) => { action := .proxy, source := .default, domain := normalized }

def ip (c : Classifier) (addr : Addr) : Decision :=
  match c.explicitIPv4.matchAddr addr with
  | (action, true) => { action := action, source := .explicitIP }
  | (_, false) =>
      match c.chinaIPv4.matchAddr addr with
      | (action, true) => { action := action, source := .chinaIP }
      | (_, false) => { action := .proxy, source := .default }

end Classifier

/-! ## What a built classifier contains -/

/-- The domain rule a configured rule stands for, when it stands for one. -/
def RuleConfig.domainRule? (rule : RuleConfig) : Option DomainRule :=
  match parseAction rule.action, normalizeDomain rule.value with
  | .ok action, .ok normalized =>
      if rule.type = ascii "domain" then some ⟨normalized, false, action⟩ else none
  | _, _ => none

/-- The prefix rule a configured rule stands for, when it stands for one. -/
def RuleConfig.prefixRule? (rule : RuleConfig) : Option PrefixRule :=
  match parseAction rule.action, parseIPv4Prefix rule.value with
  | .ok action, some pre => if rule.type = ascii "ip" then some ⟨pre, action⟩ else none
  | _, _ => none

def explicitDomainRules (rules : List RuleConfig) : List DomainRule :=
  rules.filterMap RuleConfig.domainRule?

def explicitPrefixRules (rules : List RuleConfig) : List PrefixRule :=
  rules.filterMap RuleConfig.prefixRule?

def chinaDomainRules (data : Dataset) : List DomainRule :=
  data.domains.filterMap fun domain =>
    match normalizeDomain domain.name with
    | .ok normalized => some ⟨normalized, domain.exact, .direct⟩
    | .error _ => none

def chinaPrefixRules (data : Dataset) : List PrefixRule :=
  data.prefixes.filterMap fun
    | .ipv4 pre => some ⟨pre, .direct⟩
    | _ => none

/-- The classifier that holds exactly the given rules. -/
def Classifier.ofRules (data : Dataset) (rules : List RuleConfig) : Classifier where
  explicitDomains := DomainTree.ofRules (explicitDomainRules rules)
  chinaDomains := DomainTree.ofRules (chinaDomainRules data)
  explicitIPv4 := IPv4Tree.ofRules (explicitPrefixRules rules)
  chinaIPv4 := IPv4Tree.ofRules (chinaPrefixRules data)

theorem domain_ne_ip : ascii "domain" ≠ ascii "ip" := by decide

theorem parseAction_known {value : Bytes} {action : Action}
    (h : parseAction value = .ok action) : action ≠ .unknown := by
  unfold parseAction at h
  split_ifs at h <;> cases h <;> decide

theorem explicitPrefixRules_known (rules : List RuleConfig) :
    ∀ rule ∈ explicitPrefixRules rules, rule.action ≠ .unknown := by
  intro rule hmem
  obtain ⟨config, -, h⟩ := List.mem_filterMap.mp hmem
  unfold RuleConfig.prefixRule? at h
  split at h
  · rename_i action pre haction _
    split_ifs at h
    cases h
    exact parseAction_known haction
  · cases h

theorem chinaPrefixRules_direct (data : Dataset) :
    ∀ rule ∈ chinaPrefixRules data, rule.action = .direct := by
  intro rule hmem
  obtain ⟨pre, -, h⟩ := List.mem_filterMap.mp hmem
  cases pre <;> cases h
  rfl

namespace Classifier

theorem addChinaDomains_ok {domains : List DatasetDomain} {c c' : Classifier}
    (h : addChinaDomains domains c = .ok c') :
    c' = { c with
      chinaDomains := c.chinaDomains.addAll (chinaDomainRules ⟨domains, []⟩) } := by
  induction domains generalizing c with
  | nil =>
      cases h
      rfl
  | cons domain rest ih =>
      rw [addChinaDomains] at h
      cases hn : normalizeDomain domain.name with
      | error err => simp [hn] at h
      | ok normalized =>
          simp only [hn] at h
          simpa [chinaDomainRules, hn, DomainTree.addAll] using ih h

theorem addChinaPrefixes_ok {prefixes : List Prefix} {c c' : Classifier}
    (h : addChinaPrefixes prefixes c = .ok c') :
    c' = { c with
      chinaIPv4 := c.chinaIPv4.addAll (chinaPrefixRules ⟨[], prefixes⟩) } := by
  induction prefixes generalizing c with
  | nil =>
      cases h
      rfl
  | cons pre rest ih =>
      cases pre with
      | ipv4 pre =>
          rw [addChinaPrefixes] at h
          simpa [chinaPrefixRules, IPv4Tree.addAll] using ih h
      | invalid addr => simp [addChinaPrefixes] at h
      | ipv6 bits length => simp [addChinaPrefixes] at h

/-- An accepted rule is added to exactly one tree. -/
theorem addRule_ok {rule : RuleConfig} {c c' : Classifier} (h : addRule rule c = .ok c') :
    c' = { c with
      explicitDomains := c.explicitDomains.addAll rule.domainRule?.toList
      explicitIPv4 := c.explicitIPv4.addAll rule.prefixRule?.toList } := by
  unfold addRule at h
  cases ha : parseAction rule.action with
  | error err => simp [ha] at h
  | ok action =>
      simp only [ha] at h
      split_ifs at h with hdomain hip
      · have hnot : rule.type ≠ ascii "ip" := hdomain ▸ domain_ne_ip
        cases hn : normalizeDomain rule.value with
        | error err => simp [hn] at h
        | ok normalized =>
            simp only [hn, Except.ok.injEq] at h
            have hpre : rule.prefixRule? = none := by
              unfold RuleConfig.prefixRule?
              split <;> simp_all
            simp [← h, hpre, RuleConfig.domainRule?, ha, hn, hdomain, DomainTree.addAll,
              IPv4Tree.addAll]
      · cases hp : parseIPv4Prefix rule.value with
        | none => simp [hp] at h
        | some pre =>
            simp only [hp, Except.ok.injEq] at h
            have hdom : rule.domainRule? = none := by
              unfold RuleConfig.domainRule?
              split <;> simp_all
            simp [← h, hdom, RuleConfig.prefixRule?, ha, hp, hip, DomainTree.addAll,
              IPv4Tree.addAll]

theorem addRules_ok {rules : List RuleConfig} {c c' : Classifier}
    (h : addRules rules c = .ok c') :
    c' = { c with
      explicitDomains := c.explicitDomains.addAll (explicitDomainRules rules)
      explicitIPv4 := c.explicitIPv4.addAll (explicitPrefixRules rules) } := by
  induction rules generalizing c with
  | nil =>
      cases h
      rfl
  | cons rule rest ih =>
      rw [addRules] at h
      cases hr : addRule rule c with
      | error err => simp [hr] at h
      | ok c₁ =>
          simp only [hr] at h
          have hsplit : ∀ {α β : Type} (f : α → Option β) (a : α) (l : List α),
              (a :: l).filterMap f = (f a).toList ++ l.filterMap f := by
            intro α β f a l
            cases hf : f a <;> simp [hf]
          rw [ih h, addRule_ok hr]
          simp [explicitDomainRules, explicitPrefixRules, hsplit, DomainTree.addAll,
            IPv4Tree.addAll]

end Classifier

/-- A successful build holds exactly the configured rules and the dataset. -/
theorem new_ok {data : Dataset} {rules : List RuleConfig} {c : Classifier}
    (h : new data rules = .ok c) : c = Classifier.ofRules data rules := by
  unfold new at h
  cases h₁ : Classifier.addChinaDomains data.domains Classifier.empty with
  | error err => simp [h₁] at h
  | ok c₁ =>
      simp only [h₁] at h
      cases h₂ : Classifier.addChinaPrefixes data.prefixes c₁ with
      | error err => simp [h₂] at h
      | ok c₂ =>
          simp only [h₂] at h
          rw [Classifier.addRules_ok h, Classifier.addChinaPrefixes_ok h₂,
            Classifier.addChinaDomains_ok h₁]
          rfl

/-! ## What is accepted -/

/-- A rule whose action, type and value are all accepted. -/
def RuleConfig.Accepted (rule : RuleConfig) : Prop :=
  (∃ action, parseAction rule.action = .ok action) ∧
    (rule.type = ascii "domain" ∧ (∃ name, normalizeDomain rule.value = .ok name) ∨
      rule.type = ascii "ip" ∧ ∃ pre, parseIPv4Prefix rule.value = some pre)

namespace Classifier

theorem addChinaDomains_isOk_iff {domains : List DatasetDomain} (c : Classifier) :
    (∃ c', addChinaDomains domains c = .ok c') ↔
      ∀ domain ∈ domains, ∃ name, normalizeDomain domain.name = .ok name := by
  induction domains generalizing c with
  | nil => simp [addChinaDomains]
  | cons domain rest ih =>
      rw [List.forall_mem_cons, addChinaDomains]
      cases hname : normalizeDomain domain.name with
      | error err => simp
      | ok name => simpa using ih _

theorem addChinaPrefixes_isOk_iff {prefixes : List Prefix} (c : Classifier) :
    (∃ c', addChinaPrefixes prefixes c = .ok c') ↔
      ∀ pre ∈ prefixes, ∃ pre4, pre = .ipv4 pre4 := by
  induction prefixes generalizing c with
  | nil => simp [addChinaPrefixes]
  | cons pre rest ih =>
      rw [List.forall_mem_cons]
      cases pre with
      | ipv4 pre4 => simpa [addChinaPrefixes] using ih _
      | invalid addr => simp [addChinaPrefixes]
      | ipv6 bits length => simp [addChinaPrefixes]

theorem addRule_isOk_iff {rule : RuleConfig} (c : Classifier) :
    (∃ c', addRule rule c = .ok c') ↔ rule.Accepted := by
  unfold addRule RuleConfig.Accepted
  cases parseAction rule.action with
  | error err => simp
  | ok action =>
      by_cases hdomain : rule.type = ascii "domain"
      · cases normalizeDomain rule.value <;> simp [hdomain, domain_ne_ip]
      · by_cases hip : rule.type = ascii "ip"
        · cases parseIPv4Prefix rule.value <;> simp [hip, domain_ne_ip.symm]
        · simp [hdomain, hip]

theorem addRules_isOk_iff {rules : List RuleConfig} (c : Classifier) :
    (∃ c', addRules rules c = .ok c') ↔ ∀ rule ∈ rules, rule.Accepted := by
  induction rules generalizing c with
  | nil => simp [addRules]
  | cons rule rest ih =>
      rw [List.forall_mem_cons, ← addRule_isOk_iff c, addRules]
      cases haccepted : addRule rule c with
      | error err => simp
      | ok c₁ => simpa using ih c₁

end Classifier

/-- A build succeeds exactly when every entry of the dataset and every rule is accepted. -/
theorem new_isOk_iff {data : Dataset} {rules : List RuleConfig} :
    (∃ c, new data rules = .ok c) ↔
      (∀ domain ∈ data.domains, ∃ name, normalizeDomain domain.name = .ok name) ∧
        (∀ pre ∈ data.prefixes, ∃ pre4, pre = .ipv4 pre4) ∧
        ∀ rule ∈ rules, rule.Accepted := by
  rw [← Classifier.addChinaDomains_isOk_iff Classifier.empty, new]
  cases hdomains : Classifier.addChinaDomains data.domains Classifier.empty with
  | error err => simp
  | ok c₁ =>
      rw [← Classifier.addChinaPrefixes_isOk_iff c₁]
      cases hprefixes : Classifier.addChinaPrefixes data.prefixes c₁ with
      | error err => simp [hprefixes]
      | ok c₂ => simpa [hprefixes] using Classifier.addRules_isOk_iff c₂

/-- An accepted configuration gives the classifier of its rules. -/
theorem new_eq_ofRules {data : Dataset} {rules : List RuleConfig}
    (hdomains : ∀ domain ∈ data.domains, ∃ name, normalizeDomain domain.name = .ok name)
    (hprefixes : ∀ pre ∈ data.prefixes, ∃ pre4, pre = .ipv4 pre4)
    (hrules : ∀ rule ∈ rules, rule.Accepted) :
    new data rules = .ok (Classifier.ofRules data rules) := by
  obtain ⟨c, h⟩ := new_isOk_iff.mpr ⟨hdomains, hprefixes, hrules⟩
  rw [h, new_ok h]

end Hy2Route.Policy
