import Mathlib.Data.List.Induction

/-!
# Runs under a condition on each call

A run applies calls to a state one after the other. A condition may restrict
each call in terms of the state it is made in, and a property that every
restricted call preserves holds at the end of the run. What the last state
holds can be traced back to the call that stored it.
-/

namespace Hy2Route.Foundation

variable {σ α : Type*} (step : σ → α → σ) (ok : σ → α → Prop)

/-- Every call of the run meets the condition in the state it is made in. -/
def Allowed : σ → List α → Prop
  | _, [] => True
  | s, a :: rest => ok s a ∧ Allowed (step s a) rest

instance Allowed.decidable [∀ s a, Decidable (ok s a)] :
    ∀ (s : σ) (calls : List α), Decidable (Allowed step ok s calls)
  | _, [] => inferInstanceAs (Decidable True)
  | s, a :: rest =>
      have := Allowed.decidable (step s a) rest
      inferInstanceAs (Decidable (ok s a ∧ Allowed step ok (step s a) rest))

variable {step ok}

theorem allowed_append {s : σ} {calls more : List α} :
    Allowed step ok s (calls ++ more) ↔
      Allowed step ok s calls ∧ Allowed step ok (calls.foldl step s) more := by
  induction calls generalizing s with
  | nil => simp [Allowed]
  | cons a rest ih =>
      simp only [List.cons_append, Allowed, ih, List.foldl_cons, and_assoc]

/-- A run is allowed when each of its calls is allowed after the calls before it. -/
theorem allowed_iff_forall_split {s : σ} {calls : List α} :
    Allowed step ok s calls ↔
      ∀ past a later, calls = past ++ a :: later → ok (past.foldl step s) a := by
  constructor
  · rintro h past a later rfl
    exact (allowed_append.mp h).2.1
  · intro h
    induction calls generalizing s with
    | nil => trivial
    | cons a rest ih =>
        refine ⟨h [] a rest rfl, ih fun past b later hrest => ?_⟩
        exact h (a :: past) b later (by rw [hrest]; rfl)

theorem Allowed.mono {other : σ → α → Prop} (himp : ∀ s a, ok s a → other s a) {s : σ}
    {calls : List α} (h : Allowed step ok s calls) : Allowed step other s calls := by
  induction calls generalizing s with
  | nil => trivial
  | cons a rest ih => exact ⟨himp s a h.1, ih h.2⟩

/-- The condition may be on the calls alone. -/
theorem Allowed.of_forall {P : α → Prop} (s : σ) {calls : List α} (h : ∀ a ∈ calls, P a) :
    Allowed step (fun _ a => P a) s calls := by
  induction calls generalizing s with
  | nil => trivial
  | cons a rest ih =>
      rw [List.forall_mem_cons] at h
      exact ⟨h.1, ih _ h.2⟩

theorem Allowed.and {other : σ → α → Prop} {s : σ} {calls : List α}
    (h : Allowed step ok s calls) (hother : Allowed step other s calls) :
    Allowed step (fun s a => ok s a ∧ other s a) s calls := by
  induction calls generalizing s with
  | nil => trivial
  | cons a rest ih => exact ⟨⟨h.1, hother.1⟩, ih h.2 hother.2⟩

/-- What every allowed call preserves holds at the end of an allowed run. -/
theorem Allowed.invariant {Inv : σ → Prop} (hstep : ∀ s a, ok s a → Inv s → Inv (step s a))
    {s : σ} {calls : List α} (h : Allowed step ok s calls) (hs : Inv s) :
    Inv (calls.foldl step s) := by
  induction calls generalizing s with
  | nil => exact hs
  | cons a rest ih => exact ih h.2 (hstep s a h.1 hs)

/-- What every call preserves holds at the end of every run. -/
theorem foldl_invariant {Inv : σ → Prop} (hstep : ∀ s a, Inv s → Inv (step s a)) {s : σ}
    (hs : Inv s) (calls : List α) : Inv (calls.foldl step s) := by
  induction calls generalizing s with
  | nil => exact hs
  | cons a rest ih => exact ih (hstep s a hs)

/-- A property that a call keeps exactly when it meets the condition holds at the end of
exactly the allowed runs. -/
theorem foldl_iff_allowed (Inv P : σ → Prop)
    (hstep : ∀ s a, Inv s → Inv (step s a) ∧ (P (step s a) ↔ P s ∧ ok s a)) {s : σ} (hs : Inv s)
    (calls : List α) : P (calls.foldl step s) ↔ P s ∧ Allowed step ok s calls := by
  induction calls generalizing s with
  | nil => exact (and_iff_left trivial).symm
  | cons a rest ih =>
      obtain ⟨hinv, hiff⟩ := hstep s a hs
      rw [List.foldl_cons, ih hinv, hiff, and_assoc]
      rfl

/-- What the last state of a run holds, and the first does not, was stored by one
of its calls. -/
theorem exists_call_of_held {β : Type*} {Inv : σ → Prop} (held : σ → β → Prop)
    {stores : σ → α → β → Prop} (hinv : ∀ s a, Inv s → Inv (step s a))
    (hstep : ∀ s a b, Inv s → held (step s a) b → held s b ∨ stores s a b) {s : σ} (hs : Inv s)
    {b : β} (hnone : ¬ held s b) (calls : List α) (h : held (calls.foldl step s) b) :
    ∃ earlier past later, calls = earlier ++ past :: later ∧
      stores (earlier.foldl step s) past b := by
  induction calls using List.reverseRecOn with
  | nil => exact absurd h hnone
  | append_singleton calls a ih =>
      rw [List.foldl_append] at h
      rcases hstep _ a b (foldl_invariant hinv hs calls) h with hold | hnew
      · obtain ⟨earlier, past, later, rfl, hstored⟩ := ih hold
        exact ⟨earlier, past, later ++ [a], by simp, hstored⟩
      · exact ⟨calls, a, [], rfl, hnew⟩

/-- A state holds what was stored and not lost since, when this is so over one call. -/
theorem held_iff_stored {β : Type*} {Inv : σ → Prop} (held : σ → β → Prop)
    {stores loses : σ → α → β → Prop} (hinv : ∀ s a, Inv s → Inv (step s a))
    (hstep : ∀ s a b, Inv s → (held (step s a) b ↔ stores s a b ∨ held s b ∧ ¬ loses s a b))
    {s : σ} (hs : Inv s) {b : β} (hnone : ¬ held s b) (calls : List α) :
    held (calls.foldl step s) b ↔
      ∃ earlier past later, calls = earlier ++ past :: later ∧
        stores (earlier.foldl step s) past b ∧
        ∀ mid a rest, later = mid ++ a :: rest →
          ¬ loses ((earlier ++ past :: mid).foldl step s) a b := by
  induction calls using List.reverseRecOn with
  | nil => simpa using hnone
  | append_singleton calls a ih =>
      rw [List.foldl_append, List.foldl_cons, List.foldl_nil,
        hstep _ a b (foldl_invariant hinv hs calls), ih]
      constructor
      · rintro (hstore | ⟨⟨earlier, past, later, rfl, hstore, hkept⟩, hlast⟩)
        · exact ⟨calls, a, [], rfl, hstore, fun mid _ rest hnil => by simp at hnil⟩
        · refine ⟨earlier, past, later ++ [a], by simp, hstore, fun mid c rest hsplit => ?_⟩
          -- the call that loses is one of the earlier ones, or the last one
          rcases List.eq_nil_or_concat rest with rfl | ⟨rest, last, rfl⟩
          · obtain ⟨rfl, heq⟩ := List.append_inj' hsplit rfl
            rwa [← List.head_eq_of_cons_eq heq]
          · rw [List.concat_eq_append, ← List.cons_append, ← List.append_assoc] at hsplit
            exact hkept mid c rest (List.append_inj' hsplit rfl).1
      · rintro ⟨earlier, past, later, hcalls, hstore, hkept⟩
        rcases List.eq_nil_or_concat later with rfl | ⟨later, last, rfl⟩
        · obtain ⟨rfl, heq⟩ := List.append_inj' hcalls rfl
          exact Or.inl ((List.head_eq_of_cons_eq heq) ▸ hstore)
        · rw [List.concat_eq_append, ← List.cons_append, ← List.append_assoc] at hcalls
          obtain ⟨rfl, heq⟩ := List.append_inj' hcalls rfl
          obtain rfl := List.head_eq_of_cons_eq heq
          refine Or.inr ⟨⟨earlier, past, later, rfl, hstore, fun mid c rest hsplit => ?_⟩, ?_⟩
          · exact hkept mid c (rest ++ [a]) (by simp [hsplit])
          · exact hkept later a [] (by simp)

end Hy2Route.Foundation
