import Hy2Route.Foundation.Strings

/-!
# Texts as sequences of runes

A string decodes to runes and runes encode to a string. Decoding what was encoded
gives the runes back; encoding what was decoded gives the string back exactly when
every byte belongs to a valid sequence, because an invalid byte comes back as the
three bytes of the replacement rune.
-/

namespace Hy2Route.Foundation

/-- A Unicode scalar value. -/
def IsScalar (r : Nat) : Prop := ¬ ((0xD800 ≤ r ∧ r ≤ 0xDFFF) ∨ 0x10FFFF < r)

instance (r : Nat) : Decidable (IsScalar r) := inferInstanceAs (Decidable (¬ _))

theorem isScalar_runeError : IsScalar runeError := by decide

theorem isScalar_of_ascii {r : Nat} (h : r < 0x80) : IsScalar r := by
  unfold IsScalar
  omega

/-- The bytes that encode the runes. -/
def encodeRunes (rs : List Nat) : Bytes := rs.flatMap encodeRune

/-- The string of the runes of a string. -/
def recode (s : Bytes) : Bytes := encodeRunes (runes s)

section Encode

variable {r : Nat}

theorem encodeRune_one (h : r < 0x80) : encodeRune r = [UInt8.ofNat r] := by
  have hscalar := isScalar_of_ascii h
  unfold IsScalar at hscalar
  simp only [encodeRune, if_neg hscalar, if_pos h]

theorem eq_encodeRune {b : UInt8} (h : b.toNat < 0x80) (rest : Bytes) :
    b :: rest = encodeRune b.toNat ++ rest := by
  rw [encodeRune_one h, UInt8.ofNat_toNat]
  rfl

theorem encodeRune_two (hlow : 0x80 ≤ r) (hhigh : r < 0x800) :
    encodeRune r = [UInt8.ofNat (0xC0 + r / 0x40), UInt8.ofNat (0x80 + r % 0x40)] := by
  have hscalar : ¬ ((0xD800 ≤ r ∧ r ≤ 0xDFFF) ∨ 0x10FFFF < r) := by omega
  simp only [encodeRune, if_neg hscalar, if_neg (Nat.not_lt.mpr hlow), if_pos hhigh]

theorem encodeRune_three (hscalar : IsScalar r) (hlow : 0x800 ≤ r) (hhigh : r < 0x10000) :
    encodeRune r = [UInt8.ofNat (0xE0 + r / 0x1000), UInt8.ofNat (0x80 + r / 0x40 % 0x40),
      UInt8.ofNat (0x80 + r % 0x40)] := by
  unfold IsScalar at hscalar
  have hone : ¬ r < 0x80 := by omega
  simp only [encodeRune, if_neg hscalar, if_neg hone, if_neg (Nat.not_lt.mpr hlow), if_pos hhigh]

theorem encodeRune_four (hscalar : IsScalar r) (hlow : 0x10000 ≤ r) :
    encodeRune r = [UInt8.ofNat (0xF0 + r / 0x40000), UInt8.ofNat (0x80 + r / 0x1000 % 0x40),
      UInt8.ofNat (0x80 + r / 0x40 % 0x40), UInt8.ofNat (0x80 + r % 0x40)] := by
  unfold IsScalar at hscalar
  have hone : ¬ r < 0x80 := by omega
  have htwo : ¬ r < 0x800 := by omega
  simp only [encodeRune, if_neg hscalar, if_neg hone, if_neg htwo, if_neg (Nat.not_lt.mpr hlow)]

theorem ofNat_eq_of_toNat {b : UInt8} {n : Nat} (h : n = b.toNat) : UInt8.ofNat n = b := by
  rw [h, UInt8.ofNat_toNat]

theorem toNat_ofNat_of_lt {n : Nat} (h : n < 256) : (UInt8.ofNat n).toNat = n := by
  rw [UInt8.toNat_ofNat', Nat.mod_eq_of_lt h]

end Encode

/-- The second bytes that are accepted after a first byte. -/
theorem accept_iff {x y : Nat} : ¬ (y < acceptLow x ∨ acceptHigh x < y) ↔
    0x80 ≤ y ∧ y ≤ 0xBF ∧ (x = 0xE0 → 0xA0 ≤ y) ∧ (x = 0xF0 → 0x90 ≤ y) ∧
      (x = 0xED → y ≤ 0x9F) ∧ (x = 0xF4 → y ≤ 0x8F) := by
  unfold acceptLow acceptHigh
  split_ifs <;> omega

/-- Read the rune at the front of a string that is not empty: an invalid byte, or the
encoding of the rune. -/
inductive Decoded (s : Bytes) : Prop where
  | invalid (decoded : decodeRune s = (runeError, 1))
  | valid (r : Nat) (rest : Bytes) (scalar : IsScalar r) (text : s = encodeRune r ++ rest)
      (decoded : decodeRune s = (r, (encodeRune r).length))

section Decode

variable {b b₁ b₂ b₃ : UInt8} {rest : Bytes}

theorem decoded_one (hone : b.toNat < 0x80) : Decoded (b :: rest) := by
  refine .valid b.toNat rest (isScalar_of_ascii hone) (eq_encodeRune hone rest) ?_
  rw [encodeRune_one hone, decodeRune_ascii hone]
  rfl

theorem decoded_two (hone : ¬ b.toNat < 0x80) (hlead : ¬ (b.toNat < 0xC2 ∨ 0xF4 < b.toNat))
    (hsecond : ¬ (b₁.toNat < acceptLow b.toNat ∨ acceptHigh b.toNat < b₁.toNat))
    (htwo : b.toNat < 0xE0) : Decoded (b :: b₁ :: rest) := by
  obtain ⟨hlow, hhigh, -⟩ := accept_iff.mp hsecond
  have htext : encodeRune (b.toNat % 0x20 * 0x40 + b₁.toNat % 0x40) = [b, b₁] := by
    rw [encodeRune_two (by omega) (by omega), ofNat_eq_of_toNat (b := b) (by omega),
      ofNat_eq_of_toNat (b := b₁) (by omega)]
  refine .valid _ rest ?_ (by rw [htext]; rfl) ?_
  · unfold IsScalar
    omega
  · rw [htext]
    simp only [decodeRune, if_neg hone, if_neg hlead, if_neg hsecond, if_pos htwo]
    rfl

theorem decoded_three (hone : ¬ b.toNat < 0x80) (hlead : ¬ (b.toNat < 0xC2 ∨ 0xF4 < b.toNat))
    (hsecond : ¬ (b₁.toNat < acceptLow b.toNat ∨ acceptHigh b.toNat < b₁.toNat))
    (htwo : ¬ b.toNat < 0xE0) (hthird : ¬ (b₂.toNat < 0x80 ∨ 0xBF < b₂.toNat))
    (hthree : b.toNat < 0xF0) : Decoded (b :: b₁ :: b₂ :: rest) := by
  obtain ⟨hlow, hhigh, hE0, -, hED, -⟩ := accept_iff.mp hsecond
  have hscalar : IsScalar
      (b.toNat % 0x10 * 0x1000 + b₁.toNat % 0x40 * 0x40 + b₂.toNat % 0x40) := by
    unfold IsScalar
    omega
  have htext : encodeRune
      (b.toNat % 0x10 * 0x1000 + b₁.toNat % 0x40 * 0x40 + b₂.toNat % 0x40) = [b, b₁, b₂] := by
    rw [encodeRune_three hscalar (by omega) (by omega),
      ofNat_eq_of_toNat (b := b) (by omega), ofNat_eq_of_toNat (b := b₁) (by omega),
      ofNat_eq_of_toNat (b := b₂) (by omega)]
  refine .valid _ rest hscalar (by rw [htext]; rfl) ?_
  rw [htext]
  simp only [decodeRune, if_neg hone, if_neg hlead, if_neg hsecond, if_neg htwo, if_neg hthird,
    if_pos hthree]
  rfl

theorem decoded_four (hone : ¬ b.toNat < 0x80) (hlead : ¬ (b.toNat < 0xC2 ∨ 0xF4 < b.toNat))
    (hsecond : ¬ (b₁.toNat < acceptLow b.toNat ∨ acceptHigh b.toNat < b₁.toNat))
    (htwo : ¬ b.toNat < 0xE0) (hthird : ¬ (b₂.toNat < 0x80 ∨ 0xBF < b₂.toNat))
    (hthree : ¬ b.toNat < 0xF0) (hfourth : ¬ (b₃.toNat < 0x80 ∨ 0xBF < b₃.toNat)) :
    Decoded (b :: b₁ :: b₂ :: b₃ :: rest) := by
  obtain ⟨hlow, hhigh, -, hF0, -, hF4⟩ := accept_iff.mp hsecond
  have hscalar : IsScalar (b.toNat % 0x08 * 0x40000 + b₁.toNat % 0x40 * 0x1000 +
      b₂.toNat % 0x40 * 0x40 + b₃.toNat % 0x40) := by
    unfold IsScalar
    omega
  have htext : encodeRune (b.toNat % 0x08 * 0x40000 + b₁.toNat % 0x40 * 0x1000 +
      b₂.toNat % 0x40 * 0x40 + b₃.toNat % 0x40) = [b, b₁, b₂, b₃] := by
    rw [encodeRune_four hscalar (by omega), ofNat_eq_of_toNat (b := b) (by omega),
      ofNat_eq_of_toNat (b := b₁) (by omega), ofNat_eq_of_toNat (b := b₂) (by omega),
      ofNat_eq_of_toNat (b := b₃) (by omega)]
  refine .valid _ rest hscalar (by rw [htext]; rfl) ?_
  rw [htext]
  simp only [decodeRune, if_neg hone, if_neg hlead, if_neg hsecond, if_neg htwo, if_neg hthird,
    if_neg hthree, if_neg hfourth]
  rfl

theorem decoded (b : UInt8) (rest : Bytes) : Decoded (b :: rest) := by
  -- the cases are the checks of the decoder, in its order
  by_cases hone : b.toNat < 0x80
  · exact decoded_one hone
  by_cases hlead : b.toNat < 0xC2 ∨ 0xF4 < b.toNat
  · exact .invalid (by simp only [decodeRune, if_neg hone, if_pos hlead])
  cases rest with
  | nil => exact .invalid (by simp only [decodeRune, if_neg hone, if_neg hlead])
  | cons b₁ rest =>
      by_cases hsecond : b₁.toNat < acceptLow b.toNat ∨ acceptHigh b.toNat < b₁.toNat
      · exact .invalid (by simp only [decodeRune, if_neg hone, if_neg hlead, if_pos hsecond])
      by_cases htwo : b.toNat < 0xE0
      · exact decoded_two hone hlead hsecond htwo
      cases rest with
      | nil =>
          exact .invalid (by simp only [decodeRune, if_neg hone, if_neg hlead, if_neg hsecond,
            if_neg htwo])
      | cons b₂ rest =>
          by_cases hthird : b₂.toNat < 0x80 ∨ 0xBF < b₂.toNat
          · exact .invalid (by simp only [decodeRune, if_neg hone, if_neg hlead, if_neg hsecond,
              if_neg htwo, if_pos hthird])
          by_cases hthree : b.toNat < 0xF0
          · exact decoded_three hone hlead hsecond htwo hthird hthree
          cases rest with
          | nil =>
              exact .invalid (by simp only [decodeRune, if_neg hone, if_neg hlead,
                if_neg hsecond, if_neg htwo, if_neg hthird, if_neg hthree])
          | cons b₃ rest =>
              by_cases hfourth : b₃.toNat < 0x80 ∨ 0xBF < b₃.toNat
              · exact .invalid (by simp only [decodeRune, if_neg hone, if_neg hlead,
                  if_neg hsecond, if_neg htwo, if_neg hthird, if_neg hthree, if_pos hfourth])
              · exact decoded_four hone hlead hsecond htwo hthird hthree hfourth

end Decode

section DecodeEncoded

variable {r : Nat}

theorem decodeRune_encodeRune_two (hone : ¬ r < 0x80) (htwo : r < 0x800) (rest : Bytes) :
    decodeRune (encodeRune r ++ rest) = (r, (encodeRune r).length) := by
  have h₀ : (UInt8.ofNat (0xC0 + r / 0x40)).toNat = 0xC0 + r / 0x40 :=
    toNat_ofNat_of_lt (by omega)
  have h₁ : (UInt8.ofNat (0x80 + r % 0x40)).toNat = 0x80 + r % 0x40 :=
    toNat_ofNat_of_lt (by omega)
  have haccept : ¬ (0x80 + r % 0x40 < acceptLow (0xC0 + r / 0x40) ∨
      acceptHigh (0xC0 + r / 0x40) < 0x80 + r % 0x40) := accept_iff.mpr (by omega)
  rw [encodeRune_two (by omega) htwo]
  simp only [decodeRune, List.cons_append, h₀, h₁, if_neg haccept,
    if_neg (show ¬ 0xC0 + r / 0x40 < 0x80 by omega),
    if_neg (show ¬ (0xC0 + r / 0x40 < 0xC2 ∨ 0xF4 < 0xC0 + r / 0x40) by omega),
    if_pos (show 0xC0 + r / 0x40 < 0xE0 by omega), List.length_cons, List.length_nil]
  congr 1
  omega

theorem decodeRune_encodeRune_three (h : IsScalar r) (htwo : ¬ r < 0x800) (hthree : r < 0x10000)
    (rest : Bytes) : decodeRune (encodeRune r ++ rest) = (r, (encodeRune r).length) := by
  have hscalar := h
  unfold IsScalar at hscalar
  have h₀ : (UInt8.ofNat (0xE0 + r / 0x1000)).toNat = 0xE0 + r / 0x1000 :=
    toNat_ofNat_of_lt (by omega)
  have h₁ : (UInt8.ofNat (0x80 + r / 0x40 % 0x40)).toNat = 0x80 + r / 0x40 % 0x40 :=
    toNat_ofNat_of_lt (by omega)
  have h₂ : (UInt8.ofNat (0x80 + r % 0x40)).toNat = 0x80 + r % 0x40 :=
    toNat_ofNat_of_lt (by omega)
  have haccept : ¬ (0x80 + r / 0x40 % 0x40 < acceptLow (0xE0 + r / 0x1000) ∨
      acceptHigh (0xE0 + r / 0x1000) < 0x80 + r / 0x40 % 0x40) := accept_iff.mpr (by omega)
  rw [encodeRune_three h (by omega) hthree]
  simp only [decodeRune, List.cons_append, h₀, h₁, h₂, if_neg haccept,
    if_neg (show ¬ 0xE0 + r / 0x1000 < 0x80 by omega),
    if_neg (show ¬ (0xE0 + r / 0x1000 < 0xC2 ∨ 0xF4 < 0xE0 + r / 0x1000) by omega),
    if_neg (show ¬ 0xE0 + r / 0x1000 < 0xE0 by omega),
    if_neg (show ¬ (0x80 + r % 0x40 < 0x80 ∨ 0xBF < 0x80 + r % 0x40) by omega),
    if_pos (show 0xE0 + r / 0x1000 < 0xF0 by omega), List.length_cons, List.length_nil]
  congr 1
  omega

theorem decodeRune_encodeRune_four (h : IsScalar r) (hthree : ¬ r < 0x10000) (rest : Bytes) :
    decodeRune (encodeRune r ++ rest) = (r, (encodeRune r).length) := by
  have hscalar := h
  unfold IsScalar at hscalar
  have h₀ : (UInt8.ofNat (0xF0 + r / 0x40000)).toNat = 0xF0 + r / 0x40000 :=
    toNat_ofNat_of_lt (by omega)
  have h₁ : (UInt8.ofNat (0x80 + r / 0x1000 % 0x40)).toNat = 0x80 + r / 0x1000 % 0x40 :=
    toNat_ofNat_of_lt (by omega)
  have h₂ : (UInt8.ofNat (0x80 + r / 0x40 % 0x40)).toNat = 0x80 + r / 0x40 % 0x40 :=
    toNat_ofNat_of_lt (by omega)
  have h₃ : (UInt8.ofNat (0x80 + r % 0x40)).toNat = 0x80 + r % 0x40 :=
    toNat_ofNat_of_lt (by omega)
  have haccept : ¬ (0x80 + r / 0x1000 % 0x40 < acceptLow (0xF0 + r / 0x40000) ∨
      acceptHigh (0xF0 + r / 0x40000) < 0x80 + r / 0x1000 % 0x40) := accept_iff.mpr (by omega)
  rw [encodeRune_four h (by omega)]
  simp only [decodeRune, List.cons_append, h₀, h₁, h₂, h₃, if_neg haccept,
    if_neg (show ¬ 0xF0 + r / 0x40000 < 0x80 by omega),
    if_neg (show ¬ (0xF0 + r / 0x40000 < 0xC2 ∨ 0xF4 < 0xF0 + r / 0x40000) by omega),
    if_neg (show ¬ 0xF0 + r / 0x40000 < 0xE0 by omega),
    if_neg (show ¬ (0x80 + r / 0x40 % 0x40 < 0x80 ∨ 0xBF < 0x80 + r / 0x40 % 0x40) by omega),
    if_neg (show ¬ 0xF0 + r / 0x40000 < 0xF0 by omega),
    if_neg (show ¬ (0x80 + r % 0x40 < 0x80 ∨ 0xBF < 0x80 + r % 0x40) by omega),
    List.length_cons, List.length_nil]
  congr 1
  omega

/-- The encoding of a scalar value decodes to it, whatever follows. -/
theorem decodeRune_encodeRune (h : IsScalar r) (rest : Bytes) :
    decodeRune (encodeRune r ++ rest) = (r, (encodeRune r).length) := by
  by_cases hone : r < 0x80
  · rw [encodeRune_one hone, List.singleton_append, decodeRune_ascii] <;>
      rw [toNat_ofNat_of_lt (by omega)]
    · rfl
    · exact hone
  by_cases htwo : r < 0x800
  · exact decodeRune_encodeRune_two hone htwo rest
  by_cases hthree : r < 0x10000
  · exact decodeRune_encodeRune_three h htwo hthree rest
  · exact decodeRune_encodeRune_four h hthree rest

end DecodeEncoded

/-! ## Whole texts -/

/-- The runes of a string with the bytes they take. -/
def runeWidthsFrom : Nat → Bytes → List (Nat × Nat)
  | _, [] => []
  | skip + 1, _ :: rest => runeWidthsFrom skip rest
  | 0, b :: rest =>
      decodeRune (b :: rest) :: runeWidthsFrom ((decodeRune (b :: rest)).2 - 1) rest

def runeWidths (s : Bytes) : List (Nat × Nat) := runeWidthsFrom 0 s

theorem runeWidthsFrom_eq_drop (skip : Nat) (s : Bytes) :
    runeWidthsFrom skip s = runeWidths (s.drop skip) := by
  induction s generalizing skip with
  | nil => simp [runeWidths, runeWidthsFrom]
  | cons b rest ih =>
      cases skip with
      | zero => rfl
      | succ skip => exact ih skip

theorem map_fst_runeWidthsFrom (skip : Nat) (s : Bytes) :
    (runeWidthsFrom skip s).map Prod.fst = runesFrom skip s := by
  induction s generalizing skip with
  | nil => rfl
  | cons b rest ih =>
      cases skip with
      | zero => exact congrArg _ (ih _)
      | succ skip => exact ih skip

theorem map_fst_runeWidths (s : Bytes) : (runeWidths s).map Prod.fst = runes s :=
  map_fst_runeWidthsFrom 0 s

theorem runeWidths_cons (b : UInt8) (rest : Bytes) :
    runeWidths (b :: rest) = decodeRune (b :: rest) ::
      runeWidths (rest.drop ((decodeRune (b :: rest)).2 - 1)) := by
  rw [← runeWidthsFrom_eq_drop]
  rfl

theorem runeWidths_invalid {b : UInt8} {rest : Bytes}
    (h : decodeRune (b :: rest) = (runeError, 1)) :
    runeWidths (b :: rest) = (runeError, 1) :: runeWidths rest := by
  rw [runeWidths_cons, h]
  rfl

theorem length_encodeRune_pos (r : Nat) : 0 < (encodeRune r).length := by
  simp only [encodeRune]
  split_ifs <;> exact Nat.succ_pos _

theorem runeWidths_encodeRune {r : Nat} (h : IsScalar r) (rest : Bytes) :
    runeWidths (encodeRune r ++ rest) = (r, (encodeRune r).length) :: runeWidths rest := by
  have hdecode := decodeRune_encodeRune h rest
  have hpos := length_encodeRune_pos r
  cases htext : encodeRune r with
  | nil => simp [htext] at hpos
  | cons b more =>
      rw [htext] at hdecode
      rw [List.cons_append] at hdecode ⊢
      rw [runeWidths_cons, hdecode]
      simp

/-- A text is empty, starts with an invalid byte, or starts with the encoding of a rune. -/
theorem text_induction {P : Bytes → Prop} (nil : P [])
    (invalid : ∀ b rest, decodeRune (b :: rest) = (runeError, 1) → P rest → P (b :: rest))
    (valid : ∀ r rest, IsScalar r → P rest → P (encodeRune r ++ rest)) (s : Bytes) : P s := by
  induction hlen : s.length using Nat.strongRecOn generalizing s with
  | _ n ih =>
      cases s with
      | nil => exact nil
      | cons b rest =>
          cases decoded b rest with
          | invalid hdecode =>
              exact invalid b rest hdecode (ih rest.length (by simp [← hlen]) rest rfl)
          | valid r more hscalar htext hdecode =>
              have hpos := length_encodeRune_pos r
              rw [htext] at hlen ⊢
              rw [List.length_append] at hlen
              exact valid r more hscalar (ih more.length (by omega) more rfl)

theorem runes_invalid {b : UInt8} {rest : Bytes} (h : decodeRune (b :: rest) = (runeError, 1)) :
    runes (b :: rest) = runeError :: runes rest := by
  rw [← map_fst_runeWidths, runeWidths_invalid h, List.map_cons, map_fst_runeWidths]

theorem runes_encodeRune {r : Nat} (h : IsScalar r) (rest : Bytes) :
    runes (encodeRune r ++ rest) = r :: runes rest := by
  rw [← map_fst_runeWidths, runeWidths_encodeRune h, List.map_cons, map_fst_runeWidths]

/-- Every rune of a text is a scalar value. -/
theorem isScalar_of_mem_runes {s : Bytes} : ∀ r ∈ runes s, IsScalar r := by
  induction s using text_induction with
  | nil => exact fun _ h => absurd h List.not_mem_nil
  | invalid b rest h ih =>
      rw [runes_invalid h]
      exact List.forall_mem_cons.mpr ⟨isScalar_runeError, ih⟩
  | valid r rest h ih =>
      rw [runes_encodeRune h]
      exact List.forall_mem_cons.mpr ⟨h, ih⟩

/-- Scalar values come back from their encoding. -/
theorem runes_encodeRunes {rs : List Nat} (h : ∀ r ∈ rs, IsScalar r) :
    runes (encodeRunes rs) = rs := by
  induction rs with
  | nil => rfl
  | cons r rest ih =>
      obtain ⟨hfirst, hrest⟩ := List.forall_mem_cons.mp h
      rw [encodeRunes, List.flatMap_cons, runes_encodeRune hfirst]
      exact congrArg _ (ih hrest)

theorem recode_encodeRunes {rs : List Nat} (h : ∀ r ∈ rs, IsScalar r) :
    recode (encodeRunes rs) = encodeRunes rs := by
  rw [recode, runes_encodeRunes h]

/-- A recoded text is valid. -/
theorem recode_recode (s : Bytes) : recode (recode s) = recode s :=
  recode_encodeRunes isScalar_of_mem_runes

/-- A rune of a text is an invalid byte or takes the bytes of its encoding. -/
theorem eq_or_of_mem_runeWidths {s : Bytes} : ∀ p ∈ runeWidths s,
    p = (runeError, 1) ∨ IsScalar p.1 ∧ p.2 = (encodeRune p.1).length := by
  induction s using text_induction with
  | nil => exact fun _ h => absurd h List.not_mem_nil
  | invalid b rest h ih =>
      rw [runeWidths_invalid h]
      exact List.forall_mem_cons.mpr ⟨Or.inl rfl, ih⟩
  | valid r rest h ih =>
      rw [runeWidths_encodeRune h]
      exact List.forall_mem_cons.mpr ⟨Or.inr ⟨h, rfl⟩, ih⟩

/-- `utf8.ValidString` -/
def ValidUtf8 (s : Bytes) : Prop := (runeError, 1) ∉ runeWidths s

instance (s : Bytes) : Decidable (ValidUtf8 s) := inferInstanceAs (Decidable (_ ∉ _))

/-- Each invalid byte comes back as three. -/
theorem length_recode (s : Bytes) :
    (recode s).length = s.length + 2 * (runeWidths s).count (runeError, 1) := by
  induction s using text_induction with
  | nil => rfl
  | invalid b rest h ih =>
      have herror : (encodeRune runeError).length = 3 := by decide
      rw [recode, encodeRunes] at ih ⊢
      rw [runes_invalid h, runeWidths_invalid h, List.flatMap_cons, List.length_append, ih, herror,
        List.count_cons_self, List.length_cons]
      omega
  | valid r rest h ih =>
      have hne : (r, (encodeRune r).length) ≠ (runeError, 1) := by
        rintro heq
        obtain ⟨rfl, hone⟩ := Prod.mk.inj heq
        revert hone
        decide
      rw [recode, encodeRunes] at ih ⊢
      rw [runes_encodeRune h, runeWidths_encodeRune h, List.flatMap_cons, List.length_append, ih,
        List.count_cons_of_ne hne, List.length_append, Nat.add_assoc]

/-- Exactly the valid texts come back unchanged. -/
theorem recode_eq_self_iff {s : Bytes} : recode s = s ↔ ValidUtf8 s := by
  constructor
  · intro heq
    have hlength := length_recode s
    rw [heq] at hlength
    exact List.count_eq_zero.mp (by omega)
  · induction s using text_induction with
    | nil => exact fun _ => rfl
    | invalid b rest h ih =>
        rw [ValidUtf8, runeWidths_invalid h]
        exact fun hvalid => absurd List.mem_cons_self hvalid
    | valid r rest h ih =>
        rw [ValidUtf8, runeWidths_encodeRune h]
        intro hvalid
        rw [recode, runes_encodeRune h, encodeRunes, List.flatMap_cons]
        exact congrArg _ (ih fun hmem => hvalid (List.mem_cons_of_mem _ hmem))

/-- A text of ASCII characters is valid. -/
theorem recode_ascii {s : Bytes} (h : ∀ b ∈ s, b.toNat < 0x80) : recode s = s := by
  induction s with
  | nil => rfl
  | cons b rest ih =>
      obtain ⟨hb, hrest⟩ := List.forall_mem_cons.mp h
      rw [recode, eq_encodeRune hb, runes_encodeRune (isScalar_of_ascii hb), encodeRunes,
        List.flatMap_cons]
      exact congrArg _ (ih hrest)

/-- The same with a check that can be evaluated. -/
theorem recode_of_all {s : Bytes} (h : s.all (fun b => b.toNat < 0x80) = true) : recode s = s :=
  recode_ascii fun b hb => of_decide_eq_true (List.all_eq_true.mp h b hb)

/-- The bytes of a rune that is no ASCII character. -/
theorem bounds_of_mem_encodeRune {r : Nat} (hscalar : IsScalar r) (h : 0x80 ≤ r) :
    ∀ b ∈ encodeRune r, 0x80 ≤ b.toNat ∧ b.toNat < 0xFF := by
  have hmax : r ≤ 0x10FFFF := by
    unfold IsScalar at hscalar
    omega
  have hbyte : ∀ n, 0x80 ≤ n → n < 0xFF →
      0x80 ≤ (UInt8.ofNat n).toNat ∧ (UInt8.ofNat n).toNat < 0xFF := fun n hlow hhigh => by
    rw [toNat_ofNat_of_lt (by omega)]
    exact ⟨hlow, hhigh⟩
  by_cases htwo : r < 0x800
  · rw [encodeRune_two h htwo]
    simp only [List.forall_mem_cons, List.not_mem_nil, false_implies, implies_true, and_true]
    exact ⟨hbyte _ (by omega) (by omega), hbyte _ (by omega) (by omega)⟩
  by_cases hthree : r < 0x10000
  · rw [encodeRune_three hscalar (by omega) hthree]
    simp only [List.forall_mem_cons, List.not_mem_nil, false_implies, implies_true, and_true]
    exact ⟨hbyte _ (by omega) (by omega), hbyte _ (by omega) (by omega),
      hbyte _ (by omega) (by omega)⟩
  · rw [encodeRune_four hscalar (by omega)]
    simp only [List.forall_mem_cons, List.not_mem_nil, false_implies, implies_true, and_true]
    exact ⟨hbyte _ (by omega) (by omega), hbyte _ (by omega) (by omega),
      hbyte _ (by omega) (by omega), hbyte _ (by omega) (by omega)⟩

theorem le_of_mem_encodeRune {r : Nat} (hscalar : IsScalar r) (h : 0x80 ≤ r) :
    ∀ b ∈ encodeRune r, 0x80 ≤ b.toNat :=
  fun b hb => (bounds_of_mem_encodeRune hscalar h b hb).1

/-! ## Fields and replacement -/

/-- Runes of the given widths, each with its bytes. -/
def piecesOf : List (Nat × Nat) → Bytes → List (Nat × Bytes)
  | [], _ => []
  | (rune, width) :: more, s => (rune, s.take width) :: piecesOf more (s.drop width)

/-- `strings.Fields`: the parts between runs of white space. -/
def fields (s : Bytes) : List Bytes :=
  (((piecesOf (runeWidths s) s).splitOnP fun piece => isSpace piece.1).map
    fun part => part.flatMap Prod.snd).filter (· ≠ [])

/-- Replace a text where it first stands, and again after it; the first `skip` bytes
belong to an occurrence that was replaced. -/
def replaceFrom (old new : Bytes) : Nat → Bytes → Bytes
  | _, [] => []
  | skip + 1, _ :: rest => replaceFrom old new skip rest
  | 0, b :: rest =>
      if old.isPrefixOf (b :: rest) then new ++ replaceFrom old new (old.length - 1) rest
      else b :: replaceFrom old new 0 rest

/-- `strings.ReplaceAll` of a text that is not empty. -/
def replaceAll (s old new : Bytes) : Bytes := replaceFrom old new 0 s

end Hy2Route.Foundation
