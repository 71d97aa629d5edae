import Hy2Route.Dataset.Format
import Hy2Route.Foundation.Sorted
import Hy2Route.Policy.Decisions

/-!
# Compiling the source lists

The lines of the two lists are trimmed, blank lines and comments are skipped,
and what the others stand for is collected in a map, sorted and written. A
classifier built from the file decides by the entries of the lists, and the
file depends only on the sets of names and masked prefixes.
-/

namespace Hy2Route.Dataset

open Foundation Policy

inductive CompileError where
  /-- domain: the line and the reason it does not normalize -/
  | domain (line : Bytes) (err : DomainError)
  /-- IPv4 prefix is invalid -/
  | ipv4Prefix (line : Bytes)
  /-- write output: the reason it is refused -/
  | write (err : FormatError)

/-- Blank lines and comments. -/
def skipped (line : Bytes) : Bool := line == [] || (ascii "#").isPrefixOf line

section Lines

variable {α : Type} [DecidableEq α] (parse : Bytes → Except CompileError α)

/-- The loop of both loaders: what each line stands for is put into the map. -/
def loadLines : List α → List Bytes → Except CompileError (List α)
  | seen, [] => .ok seen
  | seen, text :: rest =>
      let line := trimSpace text
      if skipped line then loadLines seen rest
      else
        match parse line with
        | .error err => .error err
        | .ok entry => loadLines (seen.insert entry) rest

end Lines

def parseDomainLine (line : Bytes) : Except CompileError Bytes :=
  match normalizeDomain line with
  | .error err => .error (.domain line err)
  | .ok normalized => .ok normalized

def parsePrefixLine (line : Bytes) : Except CompileError IPv4Prefix :=
  match parseIPv4Prefix line with
  | none => .error (.ipv4Prefix line)
  | some pre => .ok pre.maskedPrefix

/-- The orders in which the two maps are iterated. -/
structure MapOrders where
  domains : Iteration Bytes
  prefixes : Iteration IPv4Prefix

def loadDomains (orders : MapOrders) (lines : List Bytes) :
    Except CompileError (List DatasetDomain) :=
  match loadLines parseDomainLine [] lines with
  | .error err => .error err
  | .ok seen =>
      .ok (sortBy (· ≤ ·) DatasetDomain.name
        ((orders.domains.order seen).map fun domain => ⟨domain, false⟩))

def loadPrefixes (orders : MapOrders) (lines : List Bytes) : Except CompileError (List Prefix) :=
  match loadLines parsePrefixLine [] lines with
  | .error err => .error err
  | .ok seen =>
      .ok ((sortBy (· ≤ ·) IPv4Prefix.text (orders.prefixes.order seen)).map .ipv4)

def compile (sha256 : Checksum) (orders : MapOrders) (domainLines prefixLines : List Bytes) :
    Except CompileError Bytes :=
  match loadDomains orders domainLines with
  | .error err => .error err
  | .ok domains =>
      match loadPrefixes orders prefixLines with
      | .error err => .error err
      | .ok prefixes =>
          match write sha256 ⟨domains, prefixes⟩ with
          | .error err => .error (.write err)
          | .ok raw => .ok raw

/-! ## The entries of a list -/

/-- The trimmed lines that are neither blank nor comments. -/
def entries (lines : List Bytes) : List Bytes :=
  (lines.map trimSpace).filter fun line => !skipped line

theorem entries_cons (text : Bytes) (rest : List Bytes) :
    entries (text :: rest) =
      if skipped (trimSpace text) then entries rest else trimSpace text :: entries rest := by
  simp only [entries, List.map_cons, List.filter_cons]
  cases skipped (trimSpace text) <;> rfl

section Lines

variable {α : Type} [DecidableEq α] {parse : Bytes → Except CompileError α}

theorem loadLines_ok {seen found : List α} {lines : List Bytes}
    (h : loadLines parse seen lines = .ok found) (hseen : seen.Nodup) :
    found.Nodup ∧ ∀ entry, entry ∈ found ↔
      entry ∈ seen ∨ ∃ line ∈ entries lines, parse line = .ok entry := by
  induction lines generalizing seen with
  | nil =>
      cases h
      exact ⟨hseen, by simp [entries]⟩
  | cons text rest ih =>
      simp only [loadLines] at h
      rw [entries_cons]
      split_ifs at h ⊢ with hskip
      · exact ih h hseen
      · cases hparse : parse (trimSpace text) with
        | error err => simp [hparse] at h
        | ok first =>
            simp only [hparse] at h
            obtain ⟨hnodup, hmem⟩ := ih h hseen.insert
            refine ⟨hnodup, fun entry => ?_⟩
            simp only [hmem, List.mem_insert_iff, List.exists_mem_cons_iff, hparse,
              Except.ok.injEq]
            rw [or_assoc, or_left_comm, eq_comm]

theorem loadLines_isOk_iff {seen : List α} {lines : List Bytes} :
    (∃ found, loadLines parse seen lines = .ok found) ↔
      ∀ line ∈ entries lines, ∃ entry, parse line = .ok entry := by
  induction lines generalizing seen with
  | nil => simp [loadLines, entries]
  | cons text rest ih =>
      simp only [loadLines]
      rw [entries_cons]
      split_ifs with hskip
      · exact ih
      · rw [List.forall_mem_cons]
        cases hparse : parse (trimSpace text) with
        | error err => simp
        | ok first => simpa using ih

/-- Each entry of either list has its like in the other. -/
structure Matched (like : Bytes → Bytes → Prop) (a b : List Bytes) : Prop where
  left : ∀ line ∈ entries a, ∃ other ∈ entries b, like line other
  right : ∀ other ∈ entries b, ∃ line ∈ entries a, like line other

/-- Lists whose entries stand for the same fill the map with the same keys. -/
theorem loadLines_matched {like : Bytes → Bytes → Prop} {a b : List Bytes} {found : List α}
    (hlike : ∀ line other, like line other →
      ∀ entry, parse line = .ok entry ↔ parse other = .ok entry)
    (hmatched : Matched like a b) (h : loadLines parse [] a = .ok found) :
    ∃ found', loadLines parse [] b = .ok found' ∧ found.Perm found' := by
  have hparsed := loadLines_isOk_iff.mp ⟨found, h⟩
  have hparsed' : ∀ other ∈ entries b, ∃ entry, parse other = .ok entry := by
    intro other hother
    obtain ⟨line, hline, hsame⟩ := hmatched.right other hother
    obtain ⟨entry, hentry⟩ := hparsed line hline
    exact ⟨entry, (hlike line other hsame entry).mp hentry⟩
  obtain ⟨found', h'⟩ := loadLines_isOk_iff.mpr hparsed'
  obtain ⟨hnodup, hmem⟩ := loadLines_ok h List.nodup_nil
  obtain ⟨hnodup', hmem'⟩ := loadLines_ok h' List.nodup_nil
  refine ⟨found', h', (List.perm_ext_iff_of_nodup hnodup hnodup').mpr fun entry => ?_⟩
  simp only [hmem, hmem', List.not_mem_nil, false_or]
  constructor
  · rintro ⟨line, hline, hentry⟩
    obtain ⟨other, hother, hsame⟩ := hmatched.left line hline
    exact ⟨other, hother, (hlike line other hsame entry).mp hentry⟩
  · rintro ⟨other, hother, hentry⟩
    obtain ⟨line, hline, hsame⟩ := hmatched.right other hother
    exact ⟨line, hline, (hlike line other hsame entry).mpr hentry⟩

end Lines

theorem parseDomainLine_ok_iff (line name : Bytes) :
    parseDomainLine line = .ok name ↔ normalizeDomain line = .ok name := by
  unfold parseDomainLine
  cases normalizeDomain line <;> simp

theorem parsePrefixLine_ok_iff (line : Bytes) (pre : IPv4Prefix) :
    parsePrefixLine line = .ok pre ↔
      (parseIPv4Prefix line).map IPv4Prefix.maskedPrefix = some pre := by
  unfold parsePrefixLine
  cases parseIPv4Prefix line <;> simp

/-! ## What is loaded -/

theorem loadDomains_ok_iff (orders : MapOrders) (lines : List Bytes)
    (domains : List DatasetDomain) :
    loadDomains orders lines = .ok domains ↔
      ∃ seen, loadLines parseDomainLine [] lines = .ok seen ∧
        domains = sortBy (· ≤ ·) DatasetDomain.name
          ((orders.domains.order seen).map fun domain => ⟨domain, false⟩) := by
  unfold loadDomains
  cases loadLines parseDomainLine [] lines with
  | error err => simp
  | ok seen => simp [eq_comm]

theorem loadPrefixes_ok_iff (orders : MapOrders) (lines : List Bytes) (prefixes : List Prefix) :
    loadPrefixes orders lines = .ok prefixes ↔
      ∃ seen, loadLines parsePrefixLine [] lines = .ok seen ∧
        prefixes =
          (sortBy (· ≤ ·) IPv4Prefix.text (orders.prefixes.order seen)).map .ipv4 := by
  unfold loadPrefixes
  cases loadLines parsePrefixLine [] lines with
  | error err => simp
  | ok seen => simp [eq_comm]

theorem mem_loadDomains {orders : MapOrders} {lines : List Bytes} {domains : List DatasetDomain}
    (h : loadDomains orders lines = .ok domains) (domain : DatasetDomain) :
    domain ∈ domains ↔
      domain.exact = false ∧ ∃ line ∈ entries lines, normalizeDomain line = .ok domain.name := by
  obtain ⟨seen, hseen, rfl⟩ := (loadDomains_ok_iff orders lines domains).mp h
  obtain ⟨-, hmem⟩ := loadLines_ok hseen List.nodup_nil
  simp only [mem_sortBy, List.mem_map, (orders.domains.perm seen).mem_iff, hmem,
    List.not_mem_nil, false_or, parseDomainLine_ok_iff]
  constructor
  · rintro ⟨name, hname, rfl⟩
    exact ⟨rfl, hname⟩
  · rintro ⟨hexact, hname⟩
    exact ⟨domain.name, hname, by rw [← hexact]⟩

theorem mem_loadPrefixes {orders : MapOrders} {lines : List Bytes} {prefixes : List Prefix}
    (h : loadPrefixes orders lines = .ok prefixes) (pre : Prefix) :
    pre ∈ prefixes ↔
      ∃ line ∈ entries lines, ∃ pre4, parseIPv4Prefix line = some pre4 ∧
        pre = .ipv4 pre4.maskedPrefix := by
  obtain ⟨seen, hseen, rfl⟩ := (loadPrefixes_ok_iff orders lines prefixes).mp h
  obtain ⟨-, hmem⟩ := loadLines_ok hseen List.nodup_nil
  simp only [List.mem_map, mem_sortBy, (orders.prefixes.perm seen).mem_iff, hmem,
    List.not_mem_nil, false_or, parsePrefixLine_ok_iff, Option.map_eq_some_iff]
  constructor
  · rintro ⟨_, ⟨line, hline, pre4, hparse, rfl⟩, rfl⟩
    exact ⟨line, hline, pre4, hparse, rfl⟩
  · rintro ⟨line, hline, pre4, hparse, rfl⟩
    exact ⟨_, ⟨line, hline, pre4, hparse, rfl⟩, rfl⟩

/-- Entries that differ at most in letter case. -/
def SameName (line other : Bytes) : Prop := toLower line = toLower other

/-- Entries whose prefixes differ at most in host bits. -/
def SameNetwork (line other : Bytes) : Prop :=
  (parseIPv4Prefix line).map IPv4Prefix.maskedPrefix =
    (parseIPv4Prefix other).map IPv4Prefix.maskedPrefix

instance SameName.decidable : DecidableRel SameName :=
  fun _ _ => inferInstanceAs (Decidable (_ = _))

instance SameNetwork.decidable : DecidableRel SameNetwork :=
  fun _ _ => inferInstanceAs (Decidable (_ = _))

theorem loadDomains_matched {orders orders' : MapOrders} {a b : List Bytes}
    {domains : List DatasetDomain} (hmatched : Matched SameName a b)
    (h : loadDomains orders a = .ok domains) : loadDomains orders' b = .ok domains := by
  have hlike : ∀ line other, SameName line other →
      ∀ name, parseDomainLine line = .ok name ↔ parseDomainLine other = .ok name := by
    intro line other hsame name
    rw [parseDomainLine_ok_iff, parseDomainLine_ok_iff, normalizeDomain_congr hsame]
  obtain ⟨seen, hseen, rfl⟩ := (loadDomains_ok_iff orders a domains).mp h
  obtain ⟨seen', hseen', hperm⟩ := loadLines_matched hlike hmatched hseen
  refine (loadDomains_ok_iff orders' b _).mpr ⟨seen', hseen', sortBy_eq_of_perm _ ?_ ?_⟩
  · simp only [List.mem_map]
    rintro _ ⟨name, -, rfl⟩ _ ⟨name', -, rfl⟩ rfl
    rfl
  · exact (((orders.domains.perm seen).trans hperm).trans (orders'.domains.perm seen').symm).map _

theorem loadPrefixes_matched {orders orders' : MapOrders} {a b : List Bytes}
    {prefixes : List Prefix} (hmatched : Matched SameNetwork a b)
    (h : loadPrefixes orders a = .ok prefixes) : loadPrefixes orders' b = .ok prefixes := by
  have hlike : ∀ line other, SameNetwork line other →
      ∀ pre, parsePrefixLine line = .ok pre ↔ parsePrefixLine other = .ok pre := by
    intro line other hsame pre
    rw [parsePrefixLine_ok_iff, parsePrefixLine_ok_iff, hsame]
  obtain ⟨seen, hseen, rfl⟩ := (loadPrefixes_ok_iff orders a prefixes).mp h
  obtain ⟨seen', hseen', hperm⟩ := loadLines_matched hlike hmatched hseen
  refine (loadPrefixes_ok_iff orders' b _).mpr ⟨seen', hseen', ?_⟩
  rw [sortBy_eq_of_perm _ fun p _ q _ htext => IPv4Prefix.text_injective htext]
  exact ((orders.prefixes.perm seen).trans hperm).trans (orders'.prefixes.perm seen').symm

theorem compile_ok_iff (sha256 : Checksum) (orders : MapOrders)
    (domainLines prefixLines : List Bytes) (raw : Bytes) :
    compile sha256 orders domainLines prefixLines = .ok raw ↔
      ∃ data : Dataset, loadDomains orders domainLines = .ok data.domains ∧
        loadPrefixes orders prefixLines = .ok data.prefixes ∧ write sha256 data = .ok raw := by
  unfold compile
  constructor
  · intro h
    cases hd : loadDomains orders domainLines with
    | error err => simp [hd] at h
    | ok domains =>
        cases hp : loadPrefixes orders prefixLines with
        | error err => simp [hd, hp] at h
        | ok prefixes =>
            cases hw : write sha256 ⟨domains, prefixes⟩ with
            | error err => simp [hd, hp, hw] at h
            | ok written =>
                simp only [hd, hp, hw] at h
                cases h
                exact ⟨⟨domains, prefixes⟩, rfl, rfl, hw⟩
  · rintro ⟨data, hd, hp, hw⟩
    simp only [hd, hp, hw]

/-! ## What the file means -/

/-- The labels of some entry's name end the labels of the given name. -/
def ListedName (lines : List Bytes) (name : Bytes) : Prop :=
  ∃ line ∈ entries lines, ∃ listed, normalizeDomain line = .ok listed ∧
    split listed dot <:+ split name dot

/-- Some entry's prefix contains the address. -/
def ListedAddr (lines : List Bytes) (a : BitVec 32) : Prop :=
  ∃ line ∈ entries lines, ∃ pre, parseIPv4Prefix line = some pre ∧ pre.contains a = true

section Meaning

variable {orders : MapOrders} {domainLines prefixLines : List Bytes} {data : Dataset}
  (hdomains : loadDomains orders domainLines = .ok data.domains)
  (hprefixes : loadPrefixes orders prefixLines = .ok data.prefixes)

include hdomains in
theorem chinaDomainRules_covers_iff (name : Bytes) :
    (∃ rule ∈ chinaDomainRules data, rule.covers name) ↔ ListedName domainLines name := by
  have hmem := mem_loadDomains hdomains
  constructor
  · rintro ⟨rule, hrule, hcovers⟩
    obtain ⟨domain, hdomain, hsome⟩ := List.mem_filterMap.mp hrule
    obtain ⟨hexact, line, hline, hname⟩ := (hmem domain).mp hdomain
    simp only [normalizeDomain_normal hname, Option.some.injEq, hexact] at hsome
    subst hsome
    exact ⟨line, hline, domain.name, hname, hcovers⟩
  · rintro ⟨line, hline, listed, hlisted, hsuffix⟩
    refine ⟨⟨listed, false, .direct⟩, List.mem_filterMap.mpr ⟨⟨listed, false⟩, ?_, ?_⟩, hsuffix⟩
    · exact (hmem _).mpr ⟨rfl, line, hline, hlisted⟩
    · simp only [normalizeDomain_normal hlisted]

include hprefixes in
theorem chinaPrefixRules_covers_iff (a : BitVec 32) :
    (∃ rule ∈ chinaPrefixRules data, rule.covers a) ↔ ListedAddr prefixLines a := by
  have hmem := mem_loadPrefixes hprefixes
  constructor
  · rintro ⟨rule, hrule, hcovers⟩
    obtain ⟨pre, hpre, hsome⟩ := List.mem_filterMap.mp hrule
    obtain ⟨line, hline, pre4, hparse, rfl⟩ := (hmem pre).mp hpre
    cases hsome
    exact ⟨line, hline, pre4, hparse, (pre4.contains_maskedPrefix a).mp hcovers⟩
  · rintro ⟨line, hline, pre4, hparse, hcontains⟩
    refine ⟨⟨pre4.maskedPrefix, .direct⟩,
      List.mem_filterMap.mpr ⟨.ipv4 pre4.maskedPrefix, ?_, rfl⟩, ?_⟩
    · exact (hmem _).mpr ⟨line, hline, pre4, hparse, rfl⟩
    · exact (pre4.contains_maskedPrefix a).mpr hcontains

include hdomains hprefixes in
/-- Every loaded name normalizes again, and every loaded prefix is IPv4. -/
theorem new_loaded : new data [] = .ok (Classifier.ofRules data []) := by
  refine new_eq_ofRules ?_ ?_ (by simp)
  · intro domain hdomain
    obtain ⟨-, line, -, hname⟩ := (mem_loadDomains hdomains domain).mp hdomain
    exact ⟨domain.name, normalizeDomain_normal hname⟩
  · intro pre hpre
    obtain ⟨line, -, pre4, -, rfl⟩ := (mem_loadPrefixes hprefixes pre).mp hpre
    exact ⟨_, rfl⟩

include hdomains in
theorem domain_loaded {q name : Bytes} (hname : normalizeDomain q = .ok name) :
    ListedName domainLines name ∧
        (Classifier.ofRules data []).domain q = ⟨.direct, .chinaDomain, name⟩ ∨
      ¬ ListedName domainLines name ∧
        (Classifier.ofRules data []).domain q = ⟨.proxy, .default, name⟩ := by
  rw [← chinaDomainRules_covers_iff hdomains]
  have hdecision := Classifier.domain_decision data [] q
  generalize (Classifier.ofRules data []).domain q = decision at hdecision
  cases hdecision with
  | malformed err hfailed =>
      rw [hname] at hfailed
      cases hfailed
  | explicit other hother action hknown hcovered hproxy =>
      obtain ⟨rule, hrule, -⟩ := hcovered
      cases hrule
  | china other hother huncovered hcovered =>
      cases hname.symm.trans hother
      exact Or.inl ⟨hcovered, rfl⟩
  | default other hother huncovered hforeign =>
      cases hname.symm.trans hother
      refine Or.inr ⟨?_, rfl⟩
      rintro ⟨rule, hrule, hcovers⟩
      exact hforeign rule hrule hcovers

include hprefixes in
theorem ip_loaded (a : BitVec 32) :
    ListedAddr prefixLines a ∧ (Classifier.ofRules data []).ip (.v4 a) = ⟨.direct, .chinaIP, []⟩ ∨
      ¬ ListedAddr prefixLines a ∧
        (Classifier.ofRules data []).ip (.v4 a) = ⟨.proxy, .default, []⟩ := by
  rw [← chinaPrefixRules_covers_iff hprefixes]
  have hdecision := Classifier.ip_decision data [] a
  generalize (Classifier.ofRules data []).ip (.v4 a) = decision at hdecision
  cases hdecision with
  | explicit action hknown hcovered hproxy =>
      obtain ⟨rule, hrule, -⟩ := hcovered
      cases hrule
  | china huncovered hcovered => exact Or.inl ⟨hcovered, rfl⟩
  | default huncovered hforeign =>
      refine Or.inr ⟨?_, rfl⟩
      rintro ⟨rule, hrule, hcovers⟩
      exact hforeign rule hrule hcovers

end Meaning

/-- A compiled file reads back, builds a classifier without rules, and decides
names and addresses by the entries of the lists. Lists that differ in the order
of their lines, in repeated or skipped lines, in letter case or in host bits
compile to the same file, whatever the order of the maps. -/
theorem compile_meaning (sha256 : Checksum) (orders : MapOrders)
    {domainLines prefixLines : List Bytes} {raw : Bytes}
    (h : compile sha256 orders domainLines prefixLines = .ok raw) :
    (∃ data c, read sha256 raw = .ok data ∧ new data [] = .ok c ∧
      (∀ q name, normalizeDomain q = .ok name →
        ((c.domain q).action = .direct ∧ (c.domain q).source = .chinaDomain ↔
          ListedName domainLines name) ∧
        (¬ ListedName domainLines name →
          (c.domain q).action = .proxy ∧ (c.domain q).source = .default)) ∧
      ∀ a, ((c.ip (.v4 a)).action = .direct ∧ (c.ip (.v4 a)).source = .chinaIP ↔
          ListedAddr prefixLines a) ∧
        (¬ ListedAddr prefixLines a →
          (c.ip (.v4 a)).action = .proxy ∧ (c.ip (.v4 a)).source = .default)) ∧
    ∀ orders' domainLines' prefixLines', Matched SameName domainLines domainLines' →
      Matched SameNetwork prefixLines prefixLines' →
        compile sha256 orders' domainLines' prefixLines' = .ok raw := by
  obtain ⟨data, hdomains, hprefixes, hwrite⟩ :=
    (compile_ok_iff sha256 orders domainLines prefixLines raw).mp h
  refine ⟨⟨data, _, read_write hwrite, new_loaded hdomains hprefixes, ?_, ?_⟩, ?_⟩
  · intro q name hname
    rcases domain_loaded hdomains hname with ⟨hlisted, hdecision⟩ | ⟨hlisted, hdecision⟩ <;>
      simp [hdecision, hlisted]
  · intro a
    rcases ip_loaded hprefixes a with ⟨hlisted, hdecision⟩ | ⟨hlisted, hdecision⟩ <;>
      simp [hdecision, hlisted]
  · intro orders' domainLines' prefixLines' hnames hnetworks
    exact (compile_ok_iff sha256 orders' domainLines' prefixLines' raw).mpr
      ⟨data, loadDomains_matched hnames hdomains, loadPrefixes_matched hnetworks hprefixes, hwrite⟩

/-- Maps that give their last key first. -/
def reversedOrders : MapOrders := ⟨Iteration.reversed _, Iteration.reversed _⟩

def sampleDomainLines : List Bytes :=
  [ascii "# generated", ascii "WeChat.COM.", ascii " wx.qq.com"]

def samplePrefixLines : List Bytes := [ascii "# generated", ascii "120.232.0.0/12"]

theorem compile_meaning_sample :
    ∃ raw, compile paritySum reversedOrders sampleDomainLines samplePrefixLines = .ok raw ∧
      compile paritySum reversedOrders
        [ascii "wx.QQ.com", ascii "wechat.com.", ascii "", ascii "wx.qq.com"]
        [ascii "120.239.7.1/12"] = .ok raw ∧
      ∃ data c, read paritySum raw = .ok data ∧ new data [] = .ok c ∧
        (c.domain (ascii "mp.WX.qq.com")).source = .chinaDomain ∧
        (c.ip (.v4 0x78EF0701)).source = .chinaIP := by
  have hsome : (compile paritySum reversedOrders sampleDomainLines
      samplePrefixLines).toOption.isSome = true := by decide +kernel
  cases hraw : compile paritySum reversedOrders sampleDomainLines samplePrefixLines with
  | error err =>
      rw [hraw] at hsome
      cases hsome
  | ok raw =>
      obtain ⟨⟨data, c, hread, hnew, hdomain, hip⟩, hsame⟩ := compile_meaning paritySum _ hraw
      have hname : ListedName sampleDomainLines (ascii "mp.wx.qq.com") :=
        ⟨ascii "wx.qq.com", by decide +kernel, ascii "wx.qq.com", by rfl, by decide +kernel⟩
      have haddr : ListedAddr samplePrefixLines 0x78EF0701 :=
        ⟨ascii "120.232.0.0/12", by decide +kernel, ⟨0x78E80000, 12, by decide⟩, by rfl, by rfl⟩
      refine ⟨raw, rfl, hsame _ _ _ ⟨?_, ?_⟩ ⟨?_, ?_⟩, data, c, hread, hnew, ?_, ?_⟩
      · decide +kernel
      · decide +kernel
      · decide +kernel
      · decide +kernel
      · exact ((hdomain (ascii "mp.WX.qq.com") (ascii "mp.wx.qq.com") (by rfl)).1.mpr hname).2
      · exact ((hip _).1.mpr haddr).2

end Hy2Route.Dataset
