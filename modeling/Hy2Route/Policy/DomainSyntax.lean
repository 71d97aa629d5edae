import Hy2Route.Foundation.LowerCase
import Hy2Route.Policy.Domains

/-!
# The syntax that normalization accepts

A name is meant to be ASCII: labels of letters, digits and inner hyphens between dots.
Normalization lower-cases before it checks, so it accepts what lower-cases to such a name.
That is the syntax itself, and names that have a capital I with a dot above or a Kelvin
sign in the place of a letter.
-/

namespace Hy2Route.Policy

open Foundation

/-- An ASCII letter, a digit or a hyphen. -/
def syntaxByte (b : UInt8) : Bool :=
  (0x41 ≤ b.toNat && b.toNat ≤ 0x5A) || labelRune b.toNat

structure SyntaxLabel (label : Bytes) : Prop where
  nonempty : label ≠ []
  short : label.length ≤ 63
  head : label.head? ≠ some hyphen
  last : label.getLast? ≠ some hyphen
  bytes : ∀ b ∈ label, syntaxByte b = true

/-- 1 to 253 bytes of labels between dots. -/
structure DNSSyntax (name : Bytes) : Prop where
  nonempty : name ≠ []
  short : name.length ≤ 253
  labels : ∀ label ∈ split name dot, SyntaxLabel label

/-- The name has a rune outside ASCII whose lower case is an ASCII letter. -/
def Misspelled (value : Bytes) : Prop := ∃ r ∈ runes value, LowersToASCII r

instance (value : Bytes) : Decidable (Misspelled value) :=
  inferInstanceAs (Decidable (∃ r ∈ runes value, LowersToASCII r))

/-! ## Lower-casing within ASCII -/

theorem lowerASCII_eq_iff {b c : UInt8} (hletter : ¬ (0x41 ≤ c.toNat ∧ c.toNat ≤ 0x5A))
    (hlower : ¬ (0x61 ≤ c.toNat ∧ c.toNat ≤ 0x7A)) : lowerASCII b = c ↔ b = c := by
  rw [← UInt8.toNat_inj, ← UInt8.toNat_inj, toNat_lowerASCII]
  split_ifs <;> omega

theorem lowerASCII_eq_dot (b : UInt8) : lowerASCII b = dot ↔ b = dot :=
  lowerASCII_eq_iff (by decide) (by decide)

theorem lowerASCII_eq_hyphen (b : UInt8) : lowerASCII b = hyphen ↔ b = hyphen :=
  lowerASCII_eq_iff (by decide) (by decide)

theorem labelRune_lowerASCII (b : UInt8) : labelRune (lowerASCII b).toNat = syntaxByte b := by
  rw [Bool.eq_iff_iff, toNat_lowerASCII]
  simp only [syntaxByte, labelRune, Bool.or_eq_true, Bool.and_eq_true, decide_eq_true_eq,
    beq_iff_eq]
  split_ifs <;> omega

theorem syntaxByte_ascii {b : UInt8} (h : syntaxByte b = true) : b.toNat < 0x80 := by
  simp only [syntaxByte, labelRune, Bool.or_eq_true, Bool.and_eq_true, decide_eq_true_eq,
    beq_iff_eq] at h
  omega

theorem validLabel_map_lowerASCII (label : Bytes) :
    ValidLabel (label.map lowerASCII) ↔ SyntaxLabel label := by
  have hend (last : Option UInt8) : last.map lowerASCII ≠ some hyphen ↔ last ≠ some hyphen := by
    cases last with
    | none => simp
    | some b => simp [lowerASCII_eq_hyphen]
  have hbytes : (∀ b ∈ label.map lowerASCII, labelRune b.toNat = true) ↔
      ∀ b ∈ label, syntaxByte b = true := by
    simp only [List.forall_mem_map, labelRune_lowerASCII]
  constructor
  · rintro ⟨hne, hshort, hhead, hlast, hall⟩
    rw [List.head?_map, hend] at hhead
    rw [List.getLast?_map, hend] at hlast
    exact ⟨by simpa using hne, by simpa using hshort, hhead, hlast, hbytes.mp hall⟩
  · rintro ⟨hne, hshort, hhead, hlast, hall⟩
    refine ⟨by simpa using hne, by simpa using hshort, ?_, ?_, hbytes.mpr hall⟩
    · rwa [List.head?_map, hend]
    · rwa [List.getLast?_map, hend]

theorem trimSuffix_map_lowerASCII (s : Bytes) :
    trimSuffix (s.map lowerASCII) [dot] = (trimSuffix s [dot]).map lowerASCII := by
  have hsuffix : [dot] <:+ s.map lowerASCII ↔ [dot] <:+ s := by
    rw [List.singleton_suffix_iff_getLast?_eq_some, List.singleton_suffix_iff_getLast?_eq_some,
      List.getLast?_map]
    cases s.getLast? with
    | none => simp
    | some b => simp [lowerASCII_eq_dot]
  unfold trimSuffix
  simp only [List.isSuffixOf_iff_suffix, hsuffix, List.length_map]
  split_ifs
  · rw [List.map_take]
  · rfl

/-- The bytes of a name in the syntax, with or without the final dot. -/
theorem DNSSyntax.ascii {value : Bytes} (h : DNSSyntax (trimSuffix value [dot])) :
    ∀ b ∈ value, b.toNat < 0x80 := by
  have hname : ∀ b ∈ trimSuffix value [dot], b.toNat < 0x80 := by
    intro b hb
    rcases mem_split_or_eq dot hb with rfl | ⟨label, hlabel, hin⟩
    · decide
    · exact syntaxByte_ascii ((h.labels label hlabel).bytes b hin)
  intro b hb
  rcases eq_trimSuffix_singleton value dot with hdot | hself
  · rw [hdot, List.mem_append, List.mem_singleton] at hb
    rcases hb with hb | rfl
    · exact hname b hb
    · decide
  · exact hname b (hself ▸ hb)

/-! ## Names without the two runes -/

theorem normalizeDomain_ascii {value : Bytes} (h : ∀ b ∈ value, b.toNat < 0x80) (name : Bytes) :
    normalizeDomain value = .ok name ↔
      name = (trimSuffix value [dot]).map lowerASCII ∧ DNSSyntax (trimSuffix value [dot]) := by
  rw [normalizeDomain_ok_iff, toLower_ascii h, trimSuffix_map_lowerASCII]
  refine and_congr_right ?_
  rintro rfl
  rw [split_map lowerASCII_eq_dot]
  simp only [List.forall_mem_map, validLabel_map_lowerASCII, ne_eq, List.map_eq_nil_iff,
    List.length_map]
  exact ⟨fun ⟨hne, hshort, hlabels⟩ => ⟨hne, hshort, hlabels⟩,
    fun ⟨hne, hshort, hlabels⟩ => ⟨hne, hshort, hlabels⟩⟩

/-- An accepted name lower-cases to ASCII. -/
theorem toLower_ascii_of_normalizeDomain {value name : Bytes}
    (h : normalizeDomain value = .ok name) : ∀ b ∈ toLower value, b.toNat < 0x80 := by
  obtain ⟨hname, -, -, hlabels⟩ := (normalizeDomain_ok_iff value name).mp h
  have hascii : ∀ b ∈ name, b.toNat < 0x80 := by
    intro b hb
    rcases labelRune_or_dot hlabels hb with rfl | hrune
    · decide
    · exact labelRune_ascii _ hrune
  intro b hb
  rcases eq_trimSuffix_singleton (toLower value) dot with hdot | hself
  · rw [hdot, ← hname, List.mem_append, List.mem_singleton] at hb
    rcases hb with hb | rfl
    · exact hascii b hb
    · decide
  · rw [hself, ← hname] at hb
    exact hascii b hb

theorem normalizeDomain_of_not_misspelled {value : Bytes} (h : ¬ Misspelled value) (name : Bytes) :
    normalizeDomain value = .ok name ↔
      name = (trimSuffix value [dot]).map lowerASCII ∧ DNSSyntax (trimSuffix value [dot]) := by
  have hnone : ∀ r ∈ runes value, ¬ LowersToASCII r := fun r hr hletter => h ⟨r, hr, hletter⟩
  constructor
  · intro hok
    have hascii := ascii_of_toLower (toLower_ascii_of_normalizeDomain hok) hnone
    exact (normalizeDomain_ascii hascii name).mp hok
  · intro hdns
    exact (normalizeDomain_ascii hdns.2.ascii name).mpr hdns

/-! ## All names -/

/-- Normalization does not tell the two runes from their letters. -/
theorem normalizeDomain_plain (value : Bytes) :
    normalizeDomain (plain value) = normalizeDomain value :=
  normalizeDomain_congr (toLower_plain value)

theorem not_misspelled_plain (value : Bytes) : ¬ Misspelled (plain value) := by
  rintro ⟨r, hr, hletter⟩
  rw [runes_plain] at hr
  obtain ⟨old, -, rfl⟩ := List.mem_map.mp hr
  exact not_lowersToASCII_plainRune old hletter

/-- The accepted names are those in the syntax once the two runes are spelled as letters. -/
theorem normalizeDomain_isOk_iff (value : Bytes) :
    (∃ name, normalizeDomain value = .ok name) ↔ DNSSyntax (trimSuffix (plain value) [dot]) := by
  rw [← normalizeDomain_plain]
  simp only [normalizeDomain_of_not_misspelled (not_misspelled_plain value), exists_eq_left]

theorem not_dnsSyntax_of_misspelled {value : Bytes} (h : Misspelled value) :
    ¬ DNSSyntax (trimSuffix value [dot]) := by
  intro hdns
  obtain ⟨r, hr, hletter⟩ := h
  have hlow := runes_ascii_iff.mpr hdns.ascii r hr
  rcases hletter with rfl | rfl
  · exact absurd hlow (by decide)
  · exact absurd hlow (by decide)

/-- What normalization is to do with a name. -/
structure NormalizesBySyntax (value : Bytes) : Prop where
  accepts : (∃ name, normalizeDomain value = .ok name) ↔ DNSSyntax (trimSuffix value [dot])
  result : ∀ name, normalizeDomain value = .ok name →
    name = (trimSuffix value [dot]).map lowerASCII
  idempotent : ∀ name, normalizeDomain value = .ok name → normalizeDomain name = .ok name

/-- Normalization accepts exactly the syntax, and returns the name in lower case, for the
names without the two runes and for those that stay outside the syntax when the runes are
spelled as letters. -/
theorem normalizesBySyntax_iff (value : Bytes) :
    NormalizesBySyntax value ↔
      ¬ Misspelled value ∨ ¬ DNSSyntax (trimSuffix (plain value) [dot]) := by
  by_cases h : Misspelled value
  · have hdns := not_dnsSyntax_of_misspelled h
    constructor
    · rintro ⟨haccepts, -, -⟩
      right
      rw [← normalizeDomain_isOk_iff, haccepts]
      exact hdns
    · intro hcondition
      have hplain := hcondition.resolve_left (not_not.mpr h)
      have hrefused : ¬ ∃ name, normalizeDomain value = .ok name := by
        rwa [normalizeDomain_isOk_iff]
      exact ⟨iff_of_false hrefused hdns, fun name hok => absurd ⟨name, hok⟩ hrefused,
        fun name hok => absurd ⟨name, hok⟩ hrefused⟩
  · refine iff_of_true ?_ (Or.inl h)
    have hiff := normalizeDomain_of_not_misspelled h
    exact ⟨by simp only [hiff, exists_eq_left], fun name hok => ((hiff name).mp hok).1,
      fun name hok => normalizeDomain_normal hok⟩

/-- A Kelvin sign for the letter: the name is accepted as `k.com`. -/
theorem normalizeDomain_kelvin :
    let value : Bytes := [0xE2, 0x84, 0xAA] ++ ascii ".com"
    normalizeDomain value = .ok (ascii "k.com") ∧ ¬ NormalizesBySyntax value := by
  intro value
  have hok : normalizeDomain value = .ok (ascii "k.com") := by decide +kernel
  refine ⟨hok, fun h => ?_⟩
  exact not_dnsSyntax_of_misspelled (by decide) (h.accepts.mp ⟨_, hok⟩)

end Hy2Route.Policy
