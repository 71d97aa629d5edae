import Hy2Route.Foundation.Utf8

/-!
# Lower-casing to ASCII

Two runes outside ASCII have an ASCII letter as their lower case: the capital I with a
dot above and the Kelvin sign. A text lower-cases to ASCII exactly when it is ASCII once
these two are spelled with the letter that they become.
-/

namespace Hy2Route.Foundation

/-- The lower case of an ASCII letter, and any other byte. -/
def lowerASCII (b : UInt8) : UInt8 := if 0x41 ≤ b ∧ b ≤ 0x5A then b + 0x20 else b

/-- The capital I with a dot above or the Kelvin sign. -/
def LowersToASCII (r : Nat) : Prop := r = 0x130 ∨ r = 0x212A

instance : DecidablePred LowersToASCII := fun _ => inferInstanceAs (Decidable (_ ∨ _))

/-- The two runes spelled with their ASCII letter. -/
def plainRune (r : Nat) : Nat := if r = 0x130 then 0x69 else if r = 0x212A then 0x6B else r

def plain (s : Bytes) : Bytes := encodeRunes ((runes s).map plainRune)

/-! ## One rune -/

theorem toNat_lowerASCII (b : UInt8) :
    (lowerASCII b).toNat = if 0x41 ≤ b.toNat ∧ b.toNat ≤ 0x5A then b.toNat + 0x20 else b.toNat := by
  unfold lowerASCII
  simp only [UInt8.le_iff_toNat_le]
  change (if 0x41 ≤ b.toNat ∧ b.toNat ≤ 0x5A then b + 0x20 else b).toNat = _
  split_ifs with h
  · rw [UInt8.toNat_add]
    change (b.toNat + 0x20) % 2 ^ 8 = _
    omega
  · rfl

theorem toLowerRune_ascii {b : UInt8} (h : b.toNat < 0x80) :
    UInt8.ofNat (toLowerRune b.toNat) = lowerASCII b := by
  refine ofNat_eq_of_toNat ?_
  rw [toNat_lowerASCII, toLowerRune, if_pos h]

/-- No other range of the table reaches down to ASCII. -/
theorem lowerRanges_above : lowerRanges.all (fun range =>
    decide (0x80 ≤ (range.low : Int) + range.delta) ||
      decide (range.low = range.high ∧ LowersToASCII range.low)) = true := by
  decide

theorem toLowerRune_lt_iff (r : Nat) : toLowerRune r < 0x80 ↔ r < 0x80 ∨ LowersToASCII r := by
  constructor
  · intro h
    by_contra hnot
    obtain ⟨hhigh, hother⟩ := not_or.mp hnot
    rw [toLowerRune, if_neg hhigh] at h
    cases hfind : lowerRanges.find? (·.holds r) with
    | none =>
        rw [hfind] at h
        exact hhigh h
    | some range =>
        rw [hfind] at h
        have hholds := List.find?_some hfind
        simp only [CaseRange.holds, Bool.and_eq_true, decide_eq_true_eq] at hholds
        have habove := List.all_eq_true.mp lowerRanges_above range (List.mem_of_find?_eq_some hfind)
        rw [Bool.or_eq_true, decide_eq_true_eq, decide_eq_true_eq] at habove
        rcases habove with habove | ⟨hsingle, hletter⟩
        · simp only at h
          omega
        · have hr : r = range.low := by omega
          exact hother (hr ▸ hletter)
  · rintro (h | rfl | rfl)
    · rw [toLowerRune, if_pos h]
      split_ifs <;> omega
    · decide
    · decide

theorem plainRune_eq_self {r : Nat} (h : ¬ LowersToASCII r) : plainRune r = r := by
  obtain ⟨hdotted, hkelvin⟩ := not_or.mp h
  rw [plainRune, if_neg hdotted, if_neg hkelvin]

theorem toLowerRune_plainRune (r : Nat) : toLowerRune (plainRune r) = toLowerRune r := by
  by_cases h : LowersToASCII r
  · rcases h with rfl | rfl <;> decide
  · rw [plainRune_eq_self h]

theorem isScalar_plainRune {r : Nat} (h : IsScalar r) : IsScalar (plainRune r) := by
  unfold plainRune
  split_ifs
  · decide
  · decide
  · exact h

theorem not_lowersToASCII_plainRune (r : Nat) : ¬ LowersToASCII (plainRune r) := by
  by_cases h : LowersToASCII r
  · rcases h with rfl | rfl <;> decide
  · rwa [plainRune_eq_self h]

/-- A rune that is encoded as ASCII is ASCII. -/
theorem lt_of_encodeRune_ascii {r : Nat} (h : ∀ b ∈ encodeRune r, b.toNat < 0x80) : r < 0x80 := by
  by_contra hhigh
  by_cases hscalar : IsScalar r
  · obtain ⟨b, hb⟩ := List.exists_mem_of_length_pos (length_encodeRune_pos r)
    have hlow := le_of_mem_encodeRune hscalar (Nat.not_lt.mp hhigh) b hb
    exact absurd (h b hb) (Nat.not_lt.mpr hlow)
  · have herror : encodeRune r = encodeRune runeError := by
      unfold IsScalar at hscalar
      simp only [encodeRune, if_pos (not_not.mp hscalar)]
      rfl
    rw [herror] at h
    exact absurd (h 0xEF (by decide)) (by decide)

/-! ## Texts -/

section Texts

variable {s : Bytes}

theorem runes_ascii_iff : (∀ r ∈ runes s, r < 0x80) ↔ ∀ b ∈ s, b.toNat < 0x80 := by
  have hall := runes_all_iff (p := fun r => decide (r < 0x80)) (fun _ => of_decide_eq_true) s
  simpa using hall

theorem toLower_ascii (h : ∀ b ∈ s, b.toNat < 0x80) : toLower s = s.map lowerASCII := by
  induction s with
  | nil => rfl
  | cons b rest ih =>
      obtain ⟨hb, hrest⟩ := List.forall_mem_cons.mp h
      rw [toLower_cons_ascii hb, ih hrest, toLowerRune_ascii hb, List.map_cons]

theorem runes_plain (s : Bytes) : runes (plain s) = (runes s).map plainRune := by
  refine runes_encodeRunes fun r hr => ?_
  obtain ⟨old, hold, rfl⟩ := List.mem_map.mp hr
  exact isScalar_plainRune (isScalar_of_mem_runes old hold)

theorem toLower_plain (s : Bytes) : toLower (plain s) = toLower s := by
  simp only [toLower, runes_plain, List.flatMap_map, toLowerRune_plainRune]

/-- What lower-cases to ASCII is ASCII but for the two runes. -/
theorem ascii_of_toLower (h : ∀ b ∈ toLower s, b.toNat < 0x80)
    (hnone : ∀ r ∈ runes s, ¬ LowersToASCII r) : ∀ b ∈ s, b.toNat < 0x80 := by
  refine runes_ascii_iff.mp fun r hr => ?_
  have hlower : toLowerRune r < 0x80 :=
    lt_of_encodeRune_ascii fun b hb => h b (List.mem_flatMap.mpr ⟨r, hr, hb⟩)
  exact ((toLowerRune_lt_iff r).mp hlower).resolve_right (hnone r hr)

end Texts

end Hy2Route.Foundation
