import Hy2Route.Policy.Classifier

/-!
# Validation of the core's configuration

The checks of the firewall section and of the rules that the core makes when it
loads its configuration. The rules are checked twice, here and by the classifier,
and both checks accept the same rules.
-/

namespace Hy2Route.Config

open Foundation Policy

inductive ConfigError where
  /-- firewall mark leaves no bypass mark -/
  | noBypassMark
  /-- firewall table and lan_interface must contain only [A-Za-z0-9_.-] -/
  | firewallName
  /-- firewall mark and route_table must be non-zero -/
  | firewallZero
  /-- firewall bypass_mark must differ from mark -/
  | bypassMark
  /-- firewall bypass_mark 1 is reserved for heartbeat selectors -/
  | reservedBypassMark
  /-- firewall canary_source must be an IPv4 host address -/
  | canarySource
  /-- rule action must be direct or proxy -/
  | ruleAction
  /-- rule domain is invalid -/
  | ruleDomain
  /-- rule IP must be an IPv4 CIDR -/
  | ruleIP
  /-- rule type must be domain or ip -/
  | ruleType
  deriving DecidableEq

/-! ## Firewall -/

structure FirewallConfig where
  table : Bytes
  lanInterface : Bytes
  mark : UInt32
  bypassMark : UInt32
  routeTable : UInt32
  canarySource : Bytes

/-- `[A-Za-z0-9]` -/
def alphanumeric (b : UInt8) : Bool :=
  (0x41 ≤ b && b ≤ 0x5A) || (0x61 ≤ b && b ≤ 0x7A) || (0x30 ≤ b && b ≤ 0x39)

/-- The bytes of the name pattern: `[A-Za-z0-9_.-]`. -/
def nameByte (b : UInt8) : Bool :=
  alphanumeric b || b == 0x5F || b == dot || b == hyphen

def validName (value : Bytes) : Bool := value != [] && value.all nameByte

/-- A missing bypass mark is the mark after the firewall's own. -/
def defaultBypassMark (c : FirewallConfig) : Except ConfigError FirewallConfig :=
  if c.bypassMark = 0 then
    if c.mark = 0xFFFFFFFF then .error .noBypassMark
    else .ok { c with bypassMark := c.mark + 1 }
  else .ok c

def validateFirewall (c : FirewallConfig) : Except ConfigError Unit :=
  if !validName c.table || !validName c.lanInterface then .error .firewallName
  else if c.mark = 0 ∨ c.routeTable = 0 then .error .firewallZero
  else if c.bypassMark = c.mark then .error .bypassMark
  else if c.bypassMark = 1 then .error .reservedBypassMark
  else if c.canarySource = [] then .ok ()
  else match parseIPv4 c.canarySource with
    | none => .error .canarySource
    | some _ => .ok ()

/-! ## Rules -/

def validDNSLabel (label : Bytes) : Bool :=
  if label.length = 0 ∨ 63 < label.length ∨ label.head? = some hyphen ∨
      label.getLast? = some hyphen then false
  else (runes label).all labelRune

def validDNSName (name : Bytes) : Bool :=
  let name := trimSuffix (toLower name) [dot]
  if name.length = 0 ∨ 253 < name.length then false
  else (split name dot).all validDNSLabel

def validateRule (rule : RuleConfig) : Except ConfigError Unit :=
  if rule.action ≠ ascii "direct" ∧ rule.action ≠ ascii "proxy" then .error .ruleAction
  else if rule.type = ascii "domain" then
    if validDNSName rule.value then .ok () else .error .ruleDomain
  else if rule.type = ascii "ip" then
    match parseIPv4Prefix rule.value with
    | none => .error .ruleIP
    | some _ => .ok ()
  else .error .ruleType

def validateRules : List RuleConfig → Except ConfigError Unit
  | [] => .ok ()
  | rule :: rest =>
      match validateRule rule with
      | .error err => .error err
      | .ok () => validateRules rest

theorem validDNSLabel_iff (label : Bytes) : validDNSLabel label = true ↔ ValidLabel label := by
  rw [← checkLabel_ok_iff, validDNSLabel, checkLabel]
  split_ifs <;> simp_all

/-- The two checks of a name accept the same names. -/
theorem validDNSName_iff (name : Bytes) :
    validDNSName name = true ↔ ∃ normal, normalizeDomain name = .ok normal := by
  simp only [normalizeDomain_ok_iff, validDNSName, List.length_eq_zero_iff]
  constructor
  · intro h
    split_ifs at h with hlen
    push Not at hlen
    refine ⟨_, rfl, hlen.1, hlen.2, fun label hlabel => ?_⟩
    exact (validDNSLabel_iff label).mp (List.all_eq_true.mp h label hlabel)
  · rintro ⟨_, rfl, hne, hlen, hlabels⟩
    rw [if_neg (by push Not; exact ⟨hne, hlen⟩), List.all_eq_true]
    exact fun label hlabel => (validDNSLabel_iff label).mpr (hlabels label hlabel)

theorem validateRule_ok_iff (rule : RuleConfig) :
    validateRule rule = .ok () ↔ rule.Accepted := by
  have haction : (∃ action, parseAction rule.action = .ok action) ↔
      ¬ (rule.action ≠ ascii "direct" ∧ rule.action ≠ ascii "proxy") := by
    unfold parseAction
    split_ifs <;> simp_all
  unfold validateRule RuleConfig.Accepted
  rw [haction, ← validDNSName_iff]
  by_cases hbad : rule.action ≠ ascii "direct" ∧ rule.action ≠ ascii "proxy"
  · rw [if_pos hbad]
    exact iff_of_false (by simp) fun h => h.1 hbad
  · rw [if_neg hbad]
    by_cases hdomain : rule.type = ascii "domain"
    · by_cases hname : validDNSName rule.value = true <;>
        simp [hbad, hdomain, hname, domain_ne_ip]
    · by_cases hip : rule.type = ascii "ip"
      · cases parseIPv4Prefix rule.value <;> simp [hbad, hip, domain_ne_ip.symm]
      · simp [hdomain, hip]

/-- Validation and the classifier accept the same rules. -/
theorem validateRules_ok_iff (rules : List RuleConfig) :
    validateRules rules = .ok () ↔ ∀ rule ∈ rules, rule.Accepted := by
  induction rules with
  | nil => simp [validateRules]
  | cons rule rest ih =>
      rw [List.forall_mem_cons, ← validateRule_ok_iff, ← ih, validateRules]
      cases validateRule rule with
      | error err => simp
      | ok u => simp

/-- The rules pass the check exactly when the classifier of an empty dataset takes them.
With any dataset that is accepted without rules, rules that pass are accepted too. -/
theorem validateRules_ok_iff_new (rules : List RuleConfig) :
    (validateRules rules = .ok () ↔ ∃ c, new ⟨[], []⟩ rules = .ok c) ∧
    ∀ data : Dataset, (∃ c, new data [] = .ok c) → validateRules rules = .ok () →
      ∃ c, new data rules = .ok c := by
  constructor
  · rw [validateRules_ok_iff, new_isOk_iff]
    simp
  · intro data hdata hrules
    obtain ⟨hdomains, hprefixes, -⟩ := new_isOk_iff.mp hdata
    exact new_isOk_iff.mpr ⟨hdomains, hprefixes, (validateRules_ok_iff rules).mp hrules⟩

/-- Rules of both types, with a dataset of one domain. -/
theorem validateRules_ok_for_new :
    let rules : List RuleConfig :=
      [⟨ascii "direct", ascii "domain", ascii "Example.cn."⟩,
        ⟨ascii "proxy", ascii "ip", ascii "203.0.113.0/24"⟩]
    validateRules rules = .ok () ∧
      ∃ c, new ⟨[⟨ascii "example.org", false⟩], []⟩ rules = .ok c := by
  intro rules
  have hrules : validateRules rules = .ok () := by decide
  exact ⟨hrules, (validateRules_ok_iff_new rules).2 _ ⟨_, rfl⟩ hrules⟩

end Hy2Route.Config
