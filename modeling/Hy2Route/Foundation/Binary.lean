import Hy2Route.Foundation.Strings
import Mathlib.Algebra.Order.Ring.Nat
import Mathlib.Tactic.Common
import Mathlib.Tactic.Ring

/-!
# Binary formats

Numbers are written with their most significant byte first. A decoder takes a
value from the front of a byte string and leaves the rest. It inverts an encoder
when it reads back what the encoder wrote, whatever follows, and accepts nothing
that the encoder would not have written.
-/

namespace Hy2Route.Foundation

/-! ## Numbers -/

/-- The lowest `width` bytes of a number, most significant first. -/
def bigEndian : Nat → Nat → Bytes
  | 0, _ => []
  | width + 1, n => UInt8.ofNat (n / 256 ^ width) :: bigEndian width n

def ofBigEndian : Bytes → Nat
  | [] => 0
  | b :: rest => b.toNat * 256 ^ rest.length + ofBigEndian rest

@[simp] theorem length_bigEndian (width n : Nat) : (bigEndian width n).length = width := by
  induction width with
  | zero => rfl
  | succ width ih => simp [bigEndian, ih]

theorem ofBigEndian_lt (raw : Bytes) : ofBigEndian raw < 256 ^ raw.length := by
  induction raw with
  | nil => simp [ofBigEndian]
  | cons b rest ih =>
      have hb : b.toNat + 1 ≤ 256 := b.toNat_lt
      calc ofBigEndian (b :: rest)
          < b.toNat * 256 ^ rest.length + 256 ^ rest.length := by
            rw [ofBigEndian]
            omega
        _ = (b.toNat + 1) * 256 ^ rest.length := by ring
        _ ≤ 256 * 256 ^ rest.length := Nat.mul_le_mul_right _ hb
        _ = 256 ^ (b :: rest).length := by rw [List.length_cons, pow_succ, Nat.mul_comm]

theorem ofBigEndian_bigEndian (width n : Nat) :
    ofBigEndian (bigEndian width n) = n % 256 ^ width := by
  induction width with
  | zero => simp [bigEndian, ofBigEndian, Nat.mod_one]
  | succ width ih =>
      have hbyte : (UInt8.ofNat (n / 256 ^ width)).toNat = n / 256 ^ width % 256 :=
        UInt8.toNat_ofNat'
      rw [bigEndian, ofBigEndian, length_bigEndian, ih, hbyte, pow_succ, Nat.mod_mul]
      ring

/-- Multiples of the next power do not change the bytes. -/
theorem bigEndian_add_mul (width high n : Nat) :
    bigEndian width (high * 256 ^ width + n) = bigEndian width n := by
  induction width generalizing high with
  | zero => rfl
  | succ width ih =>
      have hshift : high * 256 ^ (width + 1) + n = high * 256 * 256 ^ width + n := by ring
      have hdiv : (high * 256 * 256 ^ width + n) / 256 ^ width = high * 256 + n / 256 ^ width := by
        rw [Nat.mul_comm, Nat.mul_add_div (Nat.pow_pos (by decide))]
      have hbyte : UInt8.ofNat (high * 256 + n / 256 ^ width) = UInt8.ofNat (n / 256 ^ width) := by
        apply UInt8.toNat_inj.mp
        rw [UInt8.toNat_ofNat', UInt8.toNat_ofNat']
        omega
      rw [bigEndian, hshift, ih, hdiv, hbyte, bigEndian]

theorem bigEndian_ofBigEndian (raw : Bytes) : bigEndian raw.length (ofBigEndian raw) = raw := by
  induction raw with
  | nil => rfl
  | cons b rest ih =>
      have hdiv : (b.toNat * 256 ^ rest.length + ofBigEndian rest) / 256 ^ rest.length =
          b.toNat := by
        rw [Nat.mul_comm, Nat.mul_add_div (Nat.pow_pos (by decide)),
          Nat.div_eq_of_lt (ofBigEndian_lt rest), Nat.add_zero]
      rw [List.length_cons, ofBigEndian, bigEndian, hdiv, bigEndian_add_mul, ih,
        UInt8.ofNat_toNat]

/-! ## Decoders -/

/-- Take a value from the front of a byte string and leave the rest. -/
abbrev Decoder (ε α : Type) := Bytes → Except ε (α × Bytes)

variable {ε α : Type}

/-- A number of the given width. -/
def takeNumber (width : Nat) (err : ε) : Decoder ε Nat := fun raw =>
  if raw.length < width then .error err
  else .ok (ofBigEndian (raw.take width), raw.drop width)

theorem takeNumber_bigEndian {width n : Nat} (hn : n < 256 ^ width) (err : ε) (rest : Bytes) :
    takeNumber width err (bigEndian width n ++ rest) = .ok (n, rest) := by
  have hlen : ¬ (bigEndian width n ++ rest).length < width := by simp
  rw [takeNumber, if_neg hlen, List.take_left' (length_bigEndian width n),
    List.drop_left' (length_bigEndian width n), ofBigEndian_bigEndian, Nat.mod_eq_of_lt hn]

theorem takeNumber_ok {width n : Nat} {err : ε} {raw rest : Bytes}
    (h : takeNumber width err raw = .ok (n, rest)) :
    n < 256 ^ width ∧ raw = bigEndian width n ++ rest := by
  unfold takeNumber at h
  split_ifs at h with hlen
  cases h
  have htake : (raw.take width).length = width := by
    rw [List.length_take]
    omega
  have hbytes := bigEndian_ofBigEndian (raw.take width)
  have hlt := ofBigEndian_lt (raw.take width)
  rw [htake] at hbytes hlt
  exact ⟨hlt, by rw [hbytes, List.take_append_drop]⟩

theorem takeNumber_eq_ok_iff {width n : Nat} {err : ε} {raw rest : Bytes} :
    takeNumber width err raw = .ok (n, rest) ↔
      n < 256 ^ width ∧ raw = bigEndian width n ++ rest := by
  constructor
  · exact takeNumber_ok
  · rintro ⟨hn, rfl⟩
    exact takeNumber_bigEndian hn err rest

theorem bind_eq_ok_iff {β : Type} {x : Except ε α} {f : α → Except ε β} {b : β} :
    (x >>= f) = .ok b ↔ ∃ a, x = .ok a ∧ f a = .ok b := by
  cases x with
  | error err =>
      constructor
      · intro h
        cases h
      · rintro ⟨a, h, -⟩
        cases h
  | ok a =>
      constructor
      · intro h
        exact ⟨a, rfl, h⟩
      · rintro ⟨a', h, hf⟩
        cases h
        exact hf

/-! ## Vectors -/

/-- Data behind its own length. -/
def vector (width : Nat) (data : Bytes) : Bytes := bigEndian width data.length ++ data

/-- Take data behind its own length, when there is enough of it. -/
def takeVector (width : Nat) (raw : Bytes) : Option (Bytes × Bytes) :=
  if raw.length < width then none
  else
    let length := ofBigEndian (raw.take width)
    if raw.length - width < length then none
    else some ((raw.drop width).take length, raw.drop (width + length))

@[simp] theorem length_vector (width : Nat) (data : Bytes) :
    (vector width data).length = width + data.length := by
  simp [vector]

theorem takeVector_vector {width : Nat} {data : Bytes} (h : data.length < 256 ^ width)
    (rest : Bytes) : takeVector width (vector width data ++ rest) = some (data, rest) := by
  have htake : (vector width data ++ rest).take width = bigEndian width data.length := by
    rw [vector, List.append_assoc, List.take_left' (length_bigEndian width _)]
  have hdrop : (vector width data ++ rest).drop width = data ++ rest := by
    rw [vector, List.append_assoc, List.drop_left' (length_bigEndian width _)]
  have hnumber : ofBigEndian ((vector width data ++ rest).take width) = data.length := by
    rw [htake, ofBigEndian_bigEndian, Nat.mod_eq_of_lt h]
  have hshort : ¬ (vector width data ++ rest).length < width := by simp; omega
  have hfits : ¬ (vector width data ++ rest).length - width < data.length := by simp; omega
  simp only [takeVector, if_neg hshort, hnumber, if_neg hfits, ← List.drop_drop, hdrop,
    List.take_left, List.drop_left]

/-- A vector is taken exactly from its own encoding and whatever follows. -/
theorem takeVector_iff {width : Nat} {raw data rest : Bytes} :
    takeVector width raw = some (data, rest) ↔
      data.length < 256 ^ width ∧ raw = vector width data ++ rest := by
  constructor
  · intro h
    unfold takeVector at h
    simp only at h
    split_ifs at h with hshort hfits
    cases h
    have htake : (raw.take width).length = width := by
      rw [List.length_take]
      omega
    have hlt := ofBigEndian_lt (raw.take width)
    have hbytes := bigEndian_ofBigEndian (raw.take width)
    rw [htake] at hlt hbytes
    have hlen : ((raw.drop width).take (ofBigEndian (raw.take width))).length =
        ofBigEndian (raw.take width) := by
      rw [List.length_take, List.length_drop]
      omega
    refine ⟨by rwa [hlen], ?_⟩
    rw [vector, hlen, hbytes, List.append_assoc, ← List.drop_drop, List.take_append_drop,
      List.take_append_drop]
  · rintro ⟨hlt, rfl⟩
    exact takeVector_vector hlt rest

/-- The decoder reads back what the encoder writes, and accepts nothing else. -/
structure Inverts (encode : α → Except ε Bytes) (decode : Decoder ε α) : Prop where
  reads : ∀ {a raw}, encode a = .ok raw → ∀ rest, decode (raw ++ rest) = .ok (a, rest)
  accepts : ∀ {raw a rest}, decode raw = .ok (a, rest) →
    ∃ front, encode a = .ok front ∧ raw = front ++ rest

/-- Write values one after the other, up to the first that is refused. -/
def encodeAll (encode : α → Except ε Bytes) : List α → Except ε Bytes
  | [] => .ok []
  | a :: as =>
      match encode a with
      | .error err => .error err
      | .ok front =>
          match encodeAll encode as with
          | .error err => .error err
          | .ok rest => .ok (front ++ rest)

theorem encodeAll_cons_ok {encode : α → Except ε Bytes} {a : α} {as : List α} {raw : Bytes} :
    encodeAll encode (a :: as) = .ok raw ↔
      ∃ front rest, encode a = .ok front ∧ encodeAll encode as = .ok rest ∧
        raw = front ++ rest := by
  rw [encodeAll]
  cases encode a with
  | error err => simp
  | ok front =>
      cases encodeAll encode as with
      | error err => simp
      | ok rest => simp [eq_comm]

theorem encodeAll_isOk_iff {encode : α → Except ε Bytes} {as : List α} :
    (∃ raw, encodeAll encode as = .ok raw) ↔ ∀ a ∈ as, ∃ raw, encode a = .ok raw := by
  induction as with
  | nil => simp [encodeAll]
  | cons a as ih =>
      rw [List.forall_mem_cons, ← ih]
      simp only [encodeAll_cons_ok]
      constructor
      · rintro ⟨raw, front, rest, ha, has, -⟩
        exact ⟨⟨front, ha⟩, rest, has⟩
      · rintro ⟨⟨front, ha⟩, rest, has⟩
        exact ⟨_, front, rest, ha, has, rfl⟩

/-- Read a value a number of times. -/
def times (decode : Decoder ε α) : Nat → Decoder ε (List α)
  | 0, raw => .ok ([], raw)
  | n + 1, raw =>
      match decode raw with
      | .error err => .error err
      | .ok (a, rest) =>
          match times decode n rest with
          | .error err => .error err
          | .ok (as, rest) => .ok (a :: as, rest)

namespace Inverts

variable {encode : α → Except ε Bytes} {decode : Decoder ε α}

theorem reads_all (h : Inverts encode decode) {as : List α} {raw : Bytes}
    (hraw : encodeAll encode as = .ok raw) (rest : Bytes) :
    times decode as.length (raw ++ rest) = .ok (as, rest) := by
  induction as generalizing raw with
  | nil =>
      cases hraw
      rfl
  | cons a as ih =>
      obtain ⟨front, others, ha, has, rfl⟩ := encodeAll_cons_ok.mp hraw
      simp only [List.length_cons, times, List.append_assoc, h.reads ha, ih has]

theorem accepts_all (h : Inverts encode decode) {n : Nat} {raw rest : Bytes} {as : List α}
    (hread : times decode n raw = .ok (as, rest)) :
    as.length = n ∧ ∃ front, encodeAll encode as = .ok front ∧ raw = front ++ rest := by
  induction n generalizing raw as with
  | zero =>
      cases hread
      exact ⟨rfl, [], rfl, rfl⟩
  | succ n ih =>
      rw [times] at hread
      cases hfirst : decode raw with
      | error err => simp [hfirst] at hread
      | ok first =>
          obtain ⟨a, middle⟩ := first
          simp only [hfirst] at hread
          cases hmore : times decode n middle with
          | error err => simp [hmore] at hread
          | ok more =>
              obtain ⟨others, last⟩ := more
              simp only [hmore, Except.ok.injEq, Prod.mk.injEq] at hread
              obtain ⟨rfl, rfl⟩ := hread
              obtain ⟨front, ha, rfl⟩ := h.accepts hfirst
              obtain ⟨hlen, back, hback, rfl⟩ := ih hmore
              refine ⟨by rw [List.length_cons, hlen], front ++ back, ?_, by simp⟩
              exact encodeAll_cons_ok.mpr ⟨front, back, ha, hback, rfl⟩

end Inverts

end Hy2Route.Foundation
