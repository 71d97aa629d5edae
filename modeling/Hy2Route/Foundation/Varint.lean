import Hy2Route.Foundation.Binary

/-!
# Integers of variable width

The two highest bits of the first byte tell how often the width of one byte is doubled.
The other bits are the number, most significant byte first. A number is written in the
least width that it fits in and read in any width.
-/

namespace Hy2Route.Foundation

/-- The bytes after the first one. -/
def varintTail (size : Nat) : Nat := 2 ^ size - 1

/-- The numbers below fit. -/
def varintBound (size : Nat) : Nat := 64 * 256 ^ varintTail size

def varintIn (size n : Nat) : Bytes :=
  UInt8.ofNat (size * 64 + n / 256 ^ varintTail size) :: bigEndian (varintTail size) n

/-- The least size in which a number below `varintBound 3` fits. -/
def varintSize (n : Nat) : Nat :=
  if n < varintBound 0 then 0
  else if n < varintBound 1 then 1
  else if n < varintBound 2 then 2
  else 3

def varint (n : Nat) : Bytes := varintIn (varintSize n) n

def takeVarint : Bytes → Option (Nat × Bytes)
  | [] => none
  | b :: rest =>
      let tail := varintTail (b.toNat / 64)
      if rest.length < tail then none
      else some (b.toNat % 64 * 256 ^ tail + ofBigEndian (rest.take tail), rest.drop tail)

theorem varintSize_le (n : Nat) : varintSize n ≤ 3 := by
  unfold varintSize
  split_ifs <;> decide

theorem lt_varintBound_varintSize {n : Nat} (hn : n < varintBound 3) :
    n < varintBound (varintSize n) := by
  unfold varintSize
  split_ifs with h₀ h₁ h₂
  · exact h₀
  · exact h₁
  · exact h₂
  · exact hn

theorem toNat_varint_head {size n : Nat} (hsize : size ≤ 3) (hn : n < varintBound size) :
    (UInt8.ofNat (size * 64 + n / 256 ^ varintTail size)).toNat =
      size * 64 + n / 256 ^ varintTail size := by
  have hhigh : n / 256 ^ varintTail size < 64 :=
    (Nat.div_lt_iff_lt_mul (Nat.pow_pos (by decide))).mpr hn
  rw [UInt8.toNat_ofNat']
  exact Nat.mod_eq_of_lt (by omega)

theorem takeVarint_varintIn {size n : Nat} (hsize : size ≤ 3) (hn : n < varintBound size)
    (rest : Bytes) : takeVarint (varintIn size n ++ rest) = some (n, rest) := by
  have hhigh : n / 256 ^ varintTail size < 64 :=
    (Nat.div_lt_iff_lt_mul (Nat.pow_pos (by decide))).mpr hn
  have hdiv : (size * 64 + n / 256 ^ varintTail size) / 64 = size := by
    rw [Nat.mul_comm, Nat.mul_add_div (by decide), Nat.div_eq_of_lt hhigh, Nat.add_zero]
  have hmod : (size * 64 + n / 256 ^ varintTail size) % 64 = n / 256 ^ varintTail size := by
    rw [Nat.mul_comm, Nat.mul_add_mod, Nat.mod_eq_of_lt hhigh]
  have hlen : ¬ (bigEndian (varintTail size) n ++ rest).length < varintTail size := by simp
  rw [varintIn, List.cons_append, takeVarint, toNat_varint_head hsize hn, hdiv, hmod]
  simp only [if_neg hlen]
  rw [List.take_left' (length_bigEndian _ n), List.drop_left' (length_bigEndian _ n),
    ofBigEndian_bigEndian, Nat.div_add_mod']

/-- What is read is a number in one of the four widths. -/
theorem takeVarint_eq_some_iff {s rest : Bytes} {n : Nat} :
    takeVarint s = some (n, rest) ↔
      ∃ size, size ≤ 3 ∧ n < varintBound size ∧ s = varintIn size n ++ rest := by
  constructor
  · intro h
    cases s with
    | nil => cases h
    | cons b tail =>
        have hb : b.toNat < 256 := b.toNat_lt
        rw [takeVarint] at h
        split_ifs at h with hlen
        obtain ⟨rfl, rfl⟩ := Prod.mk.injEq _ _ _ _ ▸ Option.some.inj h
        generalize hwidth : varintTail (b.toNat / 64) = width at hlen
        have htake : (tail.take width).length = width := by
          rw [List.length_take]
          omega
        have hlow : ofBigEndian (tail.take width) < 256 ^ width := by
          have hlt := ofBigEndian_lt (tail.take width)
          rwa [htake] at hlt
        have hdiv : (b.toNat % 64 * 256 ^ width + ofBigEndian (tail.take width)) / 256 ^ width =
            b.toNat % 64 := by
          rw [Nat.mul_comm, Nat.mul_add_div (Nat.pow_pos (by decide)), Nat.div_eq_of_lt hlow,
            Nat.add_zero]
        have hbytes : bigEndian width (b.toNat % 64 * 256 ^ width + ofBigEndian (tail.take width)) =
            tail.take width := by
          have hraw := bigEndian_ofBigEndian (tail.take width)
          rw [htake] at hraw
          rw [bigEndian_add_mul, hraw]
        have hhead : b.toNat / 64 * 64 + b.toNat % 64 = b.toNat := by omega
        refine ⟨b.toNat / 64, by omega, ?_, ?_⟩
        · rw [varintBound, hwidth, ← Nat.div_lt_iff_lt_mul (Nat.pow_pos (by decide)), hdiv]
          omega
        · rw [varintIn, hwidth, hdiv, hbytes, hhead, UInt8.ofNat_toNat, List.cons_append,
            List.take_append_drop]
  · rintro ⟨size, hsize, hn, rfl⟩
    exact takeVarint_varintIn hsize hn rest

end Hy2Route.Foundation
