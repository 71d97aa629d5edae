import Hy2Route.Config.Validate

/-!
# The configuration generator

The checks that the generator makes on the marks and on the rules of the router's
configuration, and the rules that it writes for the core. The two sides check
names and addresses by different grammars: the generator admits underscores, empty
and long labels, and any digits and dots as an address, none of which the core
reads.
-/

namespace Hy2Route.Generate

open Foundation Policy Config

inductive GenerateError where
  /-- a number must be between its minimum and its maximum -/
  | range (label : String) (minimum maximum : Int)
  /-- bypass_mark must differ from fwmark -/
  | bypassMark
  /-- rule action must be 'direct' or 'proxy' -/
  | ruleAction
  /-- rule type must be 'ip' or 'domain' -/
  | ruleType
  /-- invalid domain rule -/
  | ruleDomain (value : Bytes)
  /-- only IPv4 addresses and CIDRs are supported in this release -/
  | ruleIP (value : Bytes)
  deriving DecidableEq

def text (v : Option Bytes) (fallback : Bytes) : Bytes :=
  match v with
  | none => fallback
  | some v => if v = [] then fallback else v

def boolean (v : Option Bytes) (fallback : Bool) : Bool :=
  text v (if fallback then ascii "1" else ascii "0") == ascii "1"

/-! ## Marks -/

/-- A numeric option, absent or with a value. -/
def number (v : Option Int) (fallback minimum maximum : Int) (label : String) :
    Except GenerateError Int :=
  let n := v.getD fallback
  if n < minimum ∨ maximum < n then .error (.range label minimum maximum) else .ok n

/-- The two marks of the firewall. -/
def marks (fwmark bypassMark : Option Int) : Except GenerateError (Int × Int) :=
  match number fwmark 102 1 2147483647 "fwmark" with
  | .error err => .error err
  | .ok fwmark =>
      match number bypassMark (fwmark + 1) 2 2147483647 "bypass_mark" with
      | .error err => .error err
      | .ok bypassMark =>
          if bypassMark = fwmark then .error .bypassMark else .ok (fwmark, bypassMark)

/-! ## Rules -/

/-- A rule section of the router's configuration. -/
structure RuleSection where
  enabled : Option Bytes
  action : Option Bytes
  type : Option Bytes
  value : Option Bytes

/-- `[A-Za-z0-9_]` -/
def wordByte (b : UInt8) : Bool := alphanumeric b || b == 0x5F

/-- The two patterns of a domain: `[A-Za-z0-9_][A-Za-z0-9_.-]*[A-Za-z0-9_]` and
one `[A-Za-z0-9_]`. -/
def validDomain (v : Bytes) : Bool :=
  match v with
  | [] => false
  | [b] => wordByte b
  | first :: b :: rest =>
      wordByte first && (b :: rest).dropLast.all nameByte &&
        wordByte ((b :: rest).getLast (List.cons_ne_nil b rest))

def lcByte (b : UInt8) : UInt8 := if 0x41 ≤ b ∧ b ≤ 0x5A then b + 0x20 else b

def lc (v : Bytes) : Bytes := v.map lcByte

/-- A value without a leading `*.` and without the dots that follow. -/
def bareName (v : Bytes) : Bytes :=
  (if v.take 2 = ascii "*." then v.drop 2 else v).dropWhile (· == dot)

def normalizeDomain (v : Bytes) : Bytes := lc (bareName v)

/-- The pattern of an address or a prefix: `[0-9.]+(/[0-9]+)?`. -/
def ipPattern (v : Bytes) : Bool :=
  let addr := v.takeWhile (· != 0x2F)
  addr != [] && addr.all (fun b => isDigit b || b == dot) &&
    match v.dropWhile (· != 0x2F) with
    | [] => true
    | _ :: bits => bits != [] && bits.all isDigit

structure RuleLists where
  proxyIPs : List Bytes := []
  directIPs : List Bytes := []
  proxyDomains : List Bytes := []
  directDomains : List Bytes := []

def addDomain (lists : RuleLists) (action value : Bytes) : RuleLists :=
  if action = ascii "proxy" then { lists with proxyDomains := lists.proxyDomains ++ [value] }
  else { lists with directDomains := lists.directDomains ++ [value] }

def addIP (lists : RuleLists) (action value : Bytes) : RuleLists :=
  if action = ascii "proxy" then { lists with proxyIPs := lists.proxyIPs ++ [value] }
  else { lists with directIPs := lists.directIPs ++ [value] }

def addRule (lists : RuleLists) (rule : RuleSection) : Except GenerateError RuleLists :=
  if !boolean rule.enabled true then .ok lists
  else
    let action := text rule.action []
    let type := text rule.type []
    let value := text rule.value []
    if action ≠ ascii "direct" ∧ action ≠ ascii "proxy" then .error .ruleAction
    else if type ≠ ascii "ip" ∧ type ≠ ascii "domain" then .error .ruleType
    else if type = ascii "domain" then
      let value := normalizeDomain value
      if validDomain value then .ok (addDomain lists action value)
      else .error (.ruleDomain value)
    else if ipPattern value then .ok (addIP lists action value)
    else .error (.ruleIP value)

def addRules (lists : RuleLists) : List RuleSection → Except GenerateError RuleLists
  | [] => .ok lists
  | rule :: rest =>
      match addRule lists rule with
      | .error err => .error err
      | .ok lists => addRules lists rest

/-- The rules of the core's configuration. -/
def emitCoreRules (lists : RuleLists) : List RuleConfig :=
  lists.directDomains.map (⟨ascii "direct", ascii "domain", ·⟩) ++
    lists.proxyDomains.map (⟨ascii "proxy", ascii "domain", ·⟩) ++
    lists.directIPs.map (⟨ascii "direct", ascii "ip", ·⟩) ++
    lists.proxyIPs.map (⟨ascii "proxy", ascii "ip", ·⟩)

/-! ## What is emitted -/

namespace RuleSection

variable (rule : RuleSection)

def on : Bool := boolean rule.enabled true

/-- The rule as the core gets it. -/
def config : RuleConfig where
  action := text rule.action []
  type := text rule.type []
  value := if text rule.type [] = ascii "domain" then normalizeDomain (text rule.value [])
    else text rule.value []

/-- A rule that passes the generator's checks. -/
def Checked : Prop :=
  (text rule.action [] = ascii "direct" ∨ text rule.action [] = ascii "proxy") ∧
    (text rule.type [] = ascii "domain" ∧
        validDomain (normalizeDomain (text rule.value [])) = true ∨
      text rule.type [] = ascii "ip" ∧ ipPattern (text rule.value []) = true)

end RuleSection

theorem mem_emitCoreRules_addDomain {lists : RuleLists} {action : Bytes} (value : Bytes)
    (haction : action = ascii "direct" ∨ action = ascii "proxy") (r : RuleConfig) :
    r ∈ emitCoreRules (addDomain lists action value) ↔
      r ∈ emitCoreRules lists ∨ r = ⟨action, ascii "domain", value⟩ := by
  have hne : ascii "direct" ≠ ascii "proxy" := by decide
  rcases haction with rfl | rfl
  · rw [addDomain, if_neg hne]
    simp only [emitCoreRules, List.map_append, List.map_singleton, List.mem_append,
      List.mem_singleton, or_assoc, or_left_comm, or_comm]
  · rw [addDomain, if_pos rfl]
    simp only [emitCoreRules, List.map_append, List.map_singleton, List.mem_append,
      List.mem_singleton, or_assoc, or_left_comm, or_comm]

theorem mem_emitCoreRules_addIP {lists : RuleLists} {action : Bytes} (value : Bytes)
    (haction : action = ascii "direct" ∨ action = ascii "proxy") (r : RuleConfig) :
    r ∈ emitCoreRules (addIP lists action value) ↔
      r ∈ emitCoreRules lists ∨ r = ⟨action, ascii "ip", value⟩ := by
  have hne : ascii "direct" ≠ ascii "proxy" := by decide
  rcases haction with rfl | rfl
  · rw [addIP, if_neg hne]
    simp only [emitCoreRules, List.map_append, List.map_singleton, List.mem_append,
      List.mem_singleton, or_assoc, or_left_comm, or_comm]
  · rw [addIP, if_pos rfl]
    simp only [emitCoreRules, List.map_append, List.map_singleton, List.mem_append,
      List.mem_singleton, or_assoc, or_left_comm, or_comm]

/-- An enabled rule that is accepted passed the checks and is emitted. -/
theorem addRule_ok {lists lists' : RuleLists} {rule : RuleSection}
    (h : addRule lists rule = .ok lists') :
    (rule.on = true → rule.Checked) ∧
      ∀ r, r ∈ emitCoreRules lists' ↔
        r ∈ emitCoreRules lists ∨ rule.on = true ∧ r = rule.config := by
  unfold addRule at h
  by_cases hon : boolean rule.enabled true = true
  · simp only [hon, Bool.not_true, Bool.false_eq_true, if_false] at h
    split_ifs at h with haction htype hdomain hname hpattern
    · replace haction : text rule.action [] = ascii "direct" ∨
          text rule.action [] = ascii "proxy" := by tauto
      cases h
      refine ⟨fun _ => ⟨haction, Or.inl ⟨hdomain, hname⟩⟩, fun r => ?_⟩
      rw [mem_emitCoreRules_addDomain _ haction]
      simp [RuleSection.config, RuleSection.on, hon, hdomain]
    · replace haction : text rule.action [] = ascii "direct" ∨
          text rule.action [] = ascii "proxy" := by tauto
      have hip : text rule.type [] = ascii "ip" := by tauto
      cases h
      refine ⟨fun _ => ⟨haction, Or.inr ⟨hip, hpattern⟩⟩, fun r => ?_⟩
      rw [mem_emitCoreRules_addIP _ haction]
      simp [RuleSection.config, RuleSection.on, hon, hip, domain_ne_ip.symm]
  · have hoff : rule.on = false := Bool.eq_false_iff.mpr hon
    simp only [Bool.eq_false_iff.mpr hon, Bool.not_false, if_true, Except.ok.injEq] at h
    simp [hoff, h]

theorem addRules_ok {rules : List RuleSection} {lists lists' : RuleLists}
    (h : addRules lists rules = .ok lists') :
    (∀ rule ∈ rules, rule.on = true → rule.Checked) ∧
      ∀ r, r ∈ emitCoreRules lists' ↔
        r ∈ emitCoreRules lists ∨ ∃ rule ∈ rules, rule.on = true ∧ r = rule.config := by
  induction rules generalizing lists with
  | nil =>
      cases h
      simp
  | cons rule rest ih =>
      rw [addRules] at h
      cases hrule : addRule lists rule with
      | error err => simp [hrule] at h
      | ok next =>
          simp only [hrule] at h
          obtain ⟨hchecked, hmem⟩ := addRule_ok hrule
          obtain ⟨hrest, hmem'⟩ := ih h
          refine ⟨List.forall_mem_cons.mpr ⟨hchecked, hrest⟩, fun r => ?_⟩
          rw [hmem', hmem, List.exists_mem_cons_iff, or_assoc]

/-! ## What the core reads -/

theorem lcByte_facts : ∀ n < 256,
    (lcByte (UInt8.ofNat n) = dot ↔ UInt8.ofNat n = dot) ∧
      (lcByte (UInt8.ofNat n) = hyphen ↔ UInt8.ofNat n = hyphen) ∧
      (nameByte (lcByte (UInt8.ofNat n)) = true →
        (lcByte (UInt8.ofNat n)).toNat < 0x80 ∧
        ¬ (0x41 ≤ (lcByte (UInt8.ofNat n)).toNat ∧ (lcByte (UInt8.ofNat n)).toNat ≤ 0x5A) ∧
        (UInt8.ofNat n ≠ dot →
          (labelRune (lcByte (UInt8.ofNat n)).toNat = true ↔ UInt8.ofNat n ≠ 0x5F))) := by
  decide +kernel

theorem lcByte_eq_dot (b : UInt8) : lcByte b = dot ↔ b = dot := by
  simpa using (lcByte_facts b.toNat b.toNat_lt).1

theorem lcByte_eq_hyphen (b : UInt8) : lcByte b = hyphen ↔ b = hyphen := by
  simpa using (lcByte_facts b.toNat b.toNat_lt).2.1

/-- In a lower-cased name byte only the underscore is foreign to a label. -/
theorem labelRune_lcByte_iff {b : UInt8} (hname : nameByte (lcByte b) = true) (hdot : b ≠ dot) :
    labelRune (lcByte b).toNat = true ↔ b ≠ 0x5F := by
  have hfacts := (lcByte_facts b.toNat b.toNat_lt).2.2
  rw [UInt8.ofNat_toNat] at hfacts
  exact (hfacts hname).2.2 hdot

theorem wordByte_nameByte {b : UInt8} (h : wordByte b = true) : nameByte b = true := by
  simp only [wordByte, nameByte, Bool.or_eq_true] at h ⊢
  tauto

theorem validDomain_bytes {v : Bytes} (h : validDomain v = true) : ∀ b ∈ v, nameByte b = true := by
  match v with
  | [] => simp
  | [b] => simpa using wordByte_nameByte h
  | first :: b :: rest =>
      simp only [validDomain, Bool.and_eq_true, List.all_eq_true] at h
      obtain ⟨⟨hfirst, hinner⟩, hlast⟩ := h
      refine List.forall_mem_cons.mpr ⟨wordByte_nameByte hfirst, fun x hx => ?_⟩
      rw [← List.dropLast_append_getLast (List.cons_ne_nil b rest), List.mem_append,
        List.mem_singleton] at hx
      rcases hx with hx | rfl
      · exact hinner x hx
      · exact wordByte_nameByte hlast

theorem validDomain_getLast {v : Bytes} (h : validDomain v = true) :
    ∃ front b, v = front ++ [b] ∧ b ≠ dot := by
  have hdot : wordByte dot = false := by decide
  match v with
  | [] => cases h
  | [b] => exact ⟨[], b, rfl, fun hb => by simp [validDomain, hb, hdot] at h⟩
  | first :: b :: rest =>
      simp only [validDomain, Bool.and_eq_true] at h
      refine ⟨first :: (b :: rest).dropLast, (b :: rest).getLast (List.cons_ne_nil b rest), ?_, ?_⟩
      · rw [List.cons_append, List.dropLast_append_getLast]
      · intro hlast
        rw [hlast, hdot] at h
        exact absurd h.2 (by decide)

/-- The core sees an accepted name as it was written by the generator. -/
theorem core_normal {v : Bytes} (h : validDomain (normalizeDomain v) = true) :
    trimSuffix (toLower (normalizeDomain v)) [dot] = normalizeDomain v := by
  have hlower : toLower (normalizeDomain v) = normalizeDomain v := by
    refine toLower_eq_self fun b hb => ?_
    obtain ⟨c, -, rfl⟩ := List.mem_map.mp hb
    have hfacts := (lcByte_facts c.toNat c.toNat_lt).2.2
    rw [UInt8.ofNat_toNat] at hfacts
    exact ⟨(hfacts (validDomain_bytes h _ hb)).1, (hfacts (validDomain_bytes h _ hb)).2.1⟩
  obtain ⟨front, b, hlast, hb⟩ := validDomain_getLast h
  rw [hlower]
  rcases eq_trimSuffix_singleton (normalizeDomain v) dot with hdot | hself
  · rw [hlast] at hdot
    exact absurd (List.append_inj' hdot rfl).2 (by simpa using hb)
  · exact hself.symm

/-- A name that the core reads, among those that the generator accepts: it has no
underscore, and no label is empty, long, or has a hyphen at an end. -/
structure Readable (name : Bytes) : Prop where
  short : name.length ≤ 253
  underscore : (0x5F : UInt8) ∉ name
  labels : ∀ label ∈ split name dot, label ≠ [] ∧ label.length ≤ 63 ∧
    label.head? ≠ some hyphen ∧ label.getLast? ≠ some hyphen

theorem validLabel_lc_iff {label : Bytes} (hname : ∀ b ∈ label, nameByte (lcByte b) = true)
    (hdot : ∀ b ∈ label, b ≠ dot) :
    ValidLabel (lc label) ↔ (label ≠ [] ∧ label.length ≤ 63 ∧ label.head? ≠ some hyphen ∧
      label.getLast? ≠ some hyphen) ∧ (0x5F : UInt8) ∉ label := by
  have hbytes : (∀ b ∈ lc label, labelRune b.toNat = true) ↔ (0x5F : UInt8) ∉ label := by
    rw [lc, List.forall_mem_map]
    constructor
    · intro hall hmem
      exact (labelRune_lcByte_iff (hname _ hmem) (hdot _ hmem)).mp (hall _ hmem) rfl
    · intro hnot b hb
      exact (labelRune_lcByte_iff (hname b hb) (hdot b hb)).mpr fun h => hnot (h ▸ hb)
  have hend : ∀ o : Option UInt8, o.map lcByte ≠ some hyphen ↔ o ≠ some hyphen := by
    intro o
    cases o <;> simp [lcByte_eq_hyphen]
  constructor
  · intro h
    refine ⟨⟨?_, ?_, ?_, ?_⟩, hbytes.mp h.bytes⟩
    · simpa [lc] using h.nonempty
    · simpa [lc] using h.short
    · exact (hend _).mp (by simpa [lc] using h.head)
    · exact (hend _).mp (by simpa [lc] using h.last)
  · rintro ⟨⟨hne, hlen, hhead, hlast⟩, hunder⟩
    refine ⟨by simpa [lc] using hne, by simpa [lc] using hlen, ?_, ?_, hbytes.mpr hunder⟩
    · simpa [lc] using (hend _).mpr hhead
    · simpa [lc] using (hend _).mpr hlast

theorem readable_iff {v : Bytes} (h : validDomain (normalizeDomain v) = true) :
    (∃ name, Policy.normalizeDomain (normalizeDomain v) = .ok name) ↔ Readable (bareName v) := by
  have hname : ∀ b ∈ bareName v, nameByte (lcByte b) = true := fun b hb =>
    validDomain_bytes h _ (List.mem_map_of_mem hb)
  have hlabel : ∀ label ∈ split (bareName v) dot, (ValidLabel (lc label) ↔
      (label ≠ [] ∧ label.length ≤ 63 ∧ label.head? ≠ some hyphen ∧
        label.getLast? ≠ some hyphen) ∧ (0x5F : UInt8) ∉ label) := fun label hmem =>
    validLabel_lc_iff (fun b hb => hname b (mem_of_mem_split hmem hb).1)
      fun b hb => (mem_of_mem_split hmem hb).2
  have hsplit : split (normalizeDomain v) dot = (split (bareName v) dot).map lc :=
    split_map lcByte_eq_dot (bareName v)
  have hne : normalizeDomain v ≠ [] := by
    rintro hnil
    rw [hnil] at h
    cases h
  simp only [normalizeDomain_ok_iff, core_normal h]
  constructor
  · rintro ⟨_, rfl, -, hlen, hlabels⟩
    have hvalid : ∀ label ∈ split (bareName v) dot, ValidLabel (lc label) := fun label hmem =>
      hlabels _ (hsplit ▸ List.mem_map_of_mem hmem)
    refine ⟨by simpa [normalizeDomain, lc] using hlen, fun hmem => ?_, fun label hmem => ?_⟩
    · rcases mem_split_or_eq dot hmem with heq | ⟨label, hin, hmem⟩
      · exact absurd heq (by decide)
      · exact ((hlabel label hin).mp (hvalid label hin)).2 hmem
    · exact ((hlabel label hmem).mp (hvalid label hmem)).1
  · intro hread
    refine ⟨_, rfl, hne, by simpa [normalizeDomain, lc] using hread.short, ?_⟩
    rw [hsplit, List.forall_mem_map]
    intro label hmem
    exact (hlabel label hmem).mpr ⟨hread.labels label hmem, fun hin =>
      hread.underscore (mem_of_mem_split hmem hin).1⟩

/-- A rule that the core reads: a readable name, or an address of four numbers of
at most 255 with a prefix length of at most 32, all without leading zeros. -/
def RuleSection.Read (rule : RuleSection) : Prop :=
  (text rule.type [] = ascii "domain" → Readable (bareName (text rule.value []))) ∧
    (text rule.type [] = ascii "ip" → ∃ pre : IPv4Prefix, text rule.value [] = pre.text)

theorem accepted_config_iff {rule : RuleSection} (h : rule.Checked) :
    rule.config.Accepted ↔ rule.Read := by
  obtain ⟨haction, hvalue⟩ := h
  have hparsed : ∃ action, parseAction rule.config.action = .ok action := by
    change ∃ action, parseAction (text rule.action []) = .ok action
    rcases haction with haction | haction <;> rw [haction]
    · exact ⟨.direct, rfl⟩
    · exact ⟨.proxy, rfl⟩
  unfold RuleConfig.Accepted RuleSection.Read
  rw [and_iff_right hparsed]
  rcases hvalue with ⟨htype, hvalid⟩ | ⟨htype, -⟩
  · rw [← readable_iff hvalid]
    simp [RuleSection.config, htype, domain_ne_ip]
  · simp [RuleSection.config, htype, domain_ne_ip.symm, parseIPv4Prefix_iff]

/-- The core accepts the rules of the generator, in its own validation and in the
classifier, exactly when it reads every one that is enabled. -/
theorem core_accepts_rules_iff {rules : List RuleSection} {lists : RuleLists}
    (hgenerated : addRules {} rules = .ok lists) {data : Dataset} {c : Classifier}
    (hdata : new data [] = .ok c) :
    (validateRules (emitCoreRules lists) = .ok () ∧
        ∃ c', new data (emitCoreRules lists) = .ok c') ↔
      ∀ rule ∈ rules, rule.on = true → rule.Read := by
  obtain ⟨hchecked, hmem⟩ := addRules_ok hgenerated
  obtain ⟨hdomains, hprefixes, -⟩ := new_isOk_iff.mp ⟨c, hdata⟩
  have hempty : ∀ r, r ∉ emitCoreRules {} := by simp [emitCoreRules]
  have hread : (∀ r ∈ emitCoreRules lists, r.Accepted) ↔
      ∀ rule ∈ rules, rule.on = true → rule.Read := by
    constructor
    · intro hall rule hrule hon
      exact (accepted_config_iff (hchecked rule hrule hon)).mp
        (hall _ ((hmem _).mpr (Or.inr ⟨rule, hrule, hon, rfl⟩)))
    · intro hall r hr
      rcases (hmem r).mp hr with hr | ⟨rule, hrule, hon, rfl⟩
      · exact absurd hr (hempty r)
      · exact (accepted_config_iff (hchecked rule hrule hon)).mpr (hall rule hrule hon)
  rw [validateRules_ok_iff, new_isOk_iff, hread]
  tauto

/-- A wildcard domain, a prefix and a disabled rule that the core would not read. -/
theorem core_accepts_readable_rules :
    let rules : List RuleSection :=
      [⟨none, some (ascii "proxy"), some (ascii "domain"), some (ascii "*.Example.com")⟩,
        ⟨none, some (ascii "direct"), some (ascii "ip"), some (ascii "203.0.113.0/24")⟩,
        ⟨some (ascii "0"), some (ascii "direct"), some (ascii "ip"), some (ascii "203.0.113.7")⟩]
    ∃ lists, addRules {} rules = .ok lists ∧ validateRules (emitCoreRules lists) = .ok () ∧
      ∃ c, new ⟨[], []⟩ (emitCoreRules lists) = .ok c := by
  intro rules
  have hgenerated : addRules {} rules =
      .ok { directIPs := [ascii "203.0.113.0/24"], proxyDomains := [ascii "example.com"] } := rfl
  have hdata : new ⟨[], []⟩ [] = .ok (Classifier.ofRules ⟨[], []⟩ []) := rfl
  refine ⟨_, hgenerated, (core_accepts_rules_iff hgenerated hdata).mpr ?_⟩
  refine List.forall_mem_cons.mpr ⟨fun _ => ⟨fun _ => ?_, ?_⟩, List.forall_mem_cons.mpr
    ⟨fun _ => ⟨?_, fun _ => ⟨⟨0xCB007100#32, 24, by decide⟩, by decide +kernel⟩⟩, ?_⟩⟩
  · exact ⟨by decide, by decide, by decide +kernel⟩
  · exact fun h => absurd h (by decide)
  · exact fun h => absurd h (by decide)
  · exact List.forall_mem_singleton.mpr fun hon => absurd hon (by decide)

/-- A bare host address and a name with an underscore pass the generator, and
either one makes the core refuse the configuration. -/
theorem core_refuses_generated_rules :
    let host : RuleSection :=
      ⟨none, some (ascii "direct"), some (ascii "ip"), some (ascii "203.0.113.7")⟩
    let name : RuleSection :=
      ⟨none, some (ascii "proxy"), some (ascii "domain"), some (ascii "_dmarc.example.com")⟩
    ∀ rule ∈ [host, name], ∃ lists, addRules {} [rule] = .ok lists ∧
      validateRules (emitCoreRules lists) ≠ .ok () ∧
      ∀ data c, new data (emitCoreRules lists) ≠ .ok c := by
  intro host name
  have hrefused : ∀ {rules : List RuleConfig}, validateRules rules ≠ .ok () →
      ∀ data c, new data rules ≠ .ok c := by
    intro rules hinvalid data c hnew
    exact hinvalid ((validateRules_ok_iff rules).mpr (new_isOk_iff.mp ⟨c, hnew⟩).2.2)
  refine List.forall_mem_cons.mpr ⟨?_, List.forall_mem_singleton.mpr ?_⟩
  · have hinvalid :
        validateRules (emitCoreRules { directIPs := [ascii "203.0.113.7"] }) ≠ .ok () := by decide
    exact ⟨_, rfl, hinvalid, hrefused hinvalid⟩
  · have hinvalid : validateRules
        (emitCoreRules { proxyDomains := [ascii "_dmarc.example.com"] }) ≠ .ok () := by
      decide +kernel
    exact ⟨_, rfl, hinvalid, hrefused hinvalid⟩

end Hy2Route.Generate
