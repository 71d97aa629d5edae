import Hy2Route.Foundation.Binary

/-!
# Reads that are checked and loops that are counted

An index or a slice outside its list is a fault, and so is a loop that has not ended
after the rounds it was given. A loop is a step that goes on with a state or ends with a
result. It computes a function of its first state, without a fault, when every step ends
with the function's value or goes on to a smaller state with the same value.
-/

namespace Hy2Route.Foundation

inductive Fault where
  /-- index or slice bounds out of range -/
  | outOfRange
  /-- the rounds of a loop were not enough -/
  | unfinished
  deriving DecidableEq

theorem ok_bind {α β : Type} (a : α) (f : α → Except Fault β) :
    (Except.ok a >>= f : Except Fault β) = f a :=
  rfl

theorem pure_eq_ok {α : Type} (a : α) : (pure a : Except Fault α) = .ok a :=
  rfl

/-- A check that ends a computation when something is wrong. -/
def refuse {ε : Type} (bad : Prop) [Decidable bad] (err : ε) : Except ε Unit :=
  if bad then .error err else .ok ()

theorem refuse_bind_eq_ok_iff {ε α : Type} {bad : Prop} [Decidable bad] {err : ε}
    {f : Unit → Except ε α} {a : α} :
    (refuse bad err >>= f) = .ok a ↔ ¬ bad ∧ f () = .ok a := by
  by_cases h : bad
  · simp [refuse, h, Bind.bind, Except.bind]
  · simp [refuse, h, Bind.bind, Except.bind]

theorem refuse_eq_ok_iff {ε : Type} {bad : Prop} [Decidable bad] {err : ε} {u : Unit} :
    refuse bad err = .ok u ↔ ¬ bad := by
  by_cases h : bad <;> simp [refuse, h]

theorem mapError_eq_ok_iff {ε ε' α : Type} {f : ε → ε'} {x : Except ε α} {a : α} :
    x.mapError f = .ok a ↔ x = .ok a := by
  cases x <;> simp [Except.mapError]

section Reads

variable {α : Type*}

/-- `list[i]` -/
def index (list : List α) (i : Nat) : Except Fault α :=
  match list[i]? with
  | some a => .ok a
  | none => .error .outOfRange

/-- `list[low:high]`; a slice past the length is a fault, also within the capacity. -/
def subslice (list : List α) (low high : Nat) : Except Fault (List α) :=
  if low ≤ high ∧ high ≤ list.length then .ok ((list.drop low).take (high - low))
  else .error .outOfRange

/-- `list[i] = a` -/
def store (list : List α) (i : Nat) (a : α) : Except Fault (List α) :=
  if i < list.length then .ok (list.set i a) else .error .outOfRange

/-- The number in the first two bytes, most significant first. -/
def bigEndianUint16 (b : Bytes) : Except Fault Nat := do
  let low ← index b 1
  let high ← index b 0
  return low.toNat ||| high.toNat <<< 8

theorem index_eq {list : List α} {i : Nat} (h : i < list.length) (default : α) :
    index list i = .ok (list.getD i default) := by
  rw [index, List.getD_eq_getElem?_getD, List.getElem?_eq_getElem h]
  rfl

theorem subslice_eq {list : List α} {low high : Nat} (hle : low ≤ high)
    (hend : high ≤ list.length) :
    subslice list low high = .ok ((list.drop low).take (high - low)) :=
  if_pos ⟨hle, hend⟩

theorem subslice_zero {list : List α} {high : Nat} (h : high ≤ list.length) :
    subslice list 0 high = .ok (list.take high) := by
  rw [subslice_eq (Nat.zero_le _) h]
  rfl

theorem subslice_to_end {list : List α} {low : Nat} (h : low ≤ list.length) :
    subslice list low list.length = .ok (list.drop low) := by
  rw [subslice_eq h (Nat.le_refl _), List.take_of_length_le (by rw [List.length_drop])]

theorem bigEndianUint16_eq {b : Bytes} (h : b.length = 2) :
    bigEndianUint16 b = .ok (ofBigEndian b) := by
  obtain ⟨high, low, rfl⟩ := List.length_eq_two.mp h
  have hlow := low.toNat_lt
  change Except.ok (low.toNat ||| high.toNat <<< 8) = _
  rw [Nat.or_comm, ← Nat.shiftLeft_add_eq_or_of_lt hlow, Nat.shiftLeft_eq]
  simp [ofBigEndian]

/-- Two bytes that are there are read as a number. -/
theorem subslice_bind_uint16 {raw : Bytes} {low high : Nat} (hwidth : high = low + 2)
    (hend : high ≤ raw.length) :
    (subslice raw low high >>= bigEndianUint16) = .ok (ofBigEndian ((raw.drop low).take 2)) := by
  subst hwidth
  rw [subslice_eq (by omega) hend, Nat.add_sub_cancel_left]
  refine bigEndianUint16_eq ?_
  rw [List.length_take, List.length_drop]
  omega

end Reads

section Loops

variable {σ ρ : Type*}

inductive LoopStep (σ ρ : Type*) where
  | next (s : σ)
  | done (result : ρ)

/-- At most so many rounds of a loop. -/
def iterate (step : σ → Except Fault (LoopStep σ ρ)) : Nat → σ → Except Fault ρ
  | 0, _ => .error .unfinished
  | rounds + 1, s =>
      match step s with
      | .error fault => .error fault
      | .ok (.next s) => iterate step rounds s
      | .ok (.done result) => .ok result

/-- A loop whose steps keep a value and come nearer to the end returns the value, after
no more rounds than there were steps to the end. -/
theorem iterate_eq {step : σ → Except Fault (LoopStep σ ρ)} (value : σ → ρ) (left : σ → Nat)
    (hstep : ∀ s, step s = .ok (.done (value s)) ∨
      ∃ s', step s = .ok (.next s') ∧ left s' < left s ∧ value s' = value s) {rounds : Nat}
    {s : σ} (hrounds : left s < rounds) : iterate step rounds s = .ok (value s) := by
  induction rounds generalizing s with
  | zero => exact absurd hrounds (Nat.not_lt_zero _)
  | succ rounds ih =>
      rcases hstep s with hdone | ⟨s', hnext, hless, hvalue⟩
      · rw [iterate, hdone]
      · rw [iterate, hnext, ← hvalue]
        exact ih (by omega)

/-- The rounds before the one that ends a loop only lead to it. -/
theorem iterate_of_next {step : σ → Except Fault (LoopStep σ ρ)} (state : Nat → σ) {n : Nat}
    (hnext : ∀ i < n, step (state i) = .ok (.next (state (i + 1)))) (rounds : Nat) :
    iterate step (n + rounds) (state 0) = iterate step rounds (state n) := by
  induction n generalizing state with
  | zero => rw [Nat.zero_add]
  | succ n ih =>
      rw [Nat.add_right_comm, iterate, hnext 0 (Nat.succ_pos n)]
      exact ih (fun i => state (i + 1)) fun i hi => hnext (i + 1) (Nat.succ_lt_succ hi)

end Loops

end Hy2Route.Foundation
