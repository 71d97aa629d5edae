import Mathlib.Algebra.Order.Group.Int
import Mathlib.Tactic.Common

/-!
# Holding back after a failure

What has failed is not tried again for a while. Only a moment is stored, from which on it
may be tried: a failure sets the moment and a success clears it. The moment says as much
as the whole history, as long as failures are noted in the order of their times.
-/

namespace Hy2Route.Foundation

inductive Attempt where
  | succeeded
  | failed (time : Int)
  deriving DecidableEq

variable {cooldown now clock : Int} {history : List Attempt} {retryAt : Option Int}

/-- Something failed less than the cooldown ago, and nothing has succeeded since. -/
def Cooling (cooldown : Int) (history : List Attempt) (now : Int) : Prop :=
  ∃ before time after, history = before ++ .failed time :: after ∧
    Attempt.succeeded ∉ after ∧ now < time + cooldown

theorem not_cooling_nil : ¬ Cooling cooldown [] now := by
  rintro ⟨before, time, after, hhistory, -⟩
  exact absurd hhistory.symm (by simp)

theorem not_cooling_succeeded : ¬ Cooling cooldown (history ++ [.succeeded]) now := by
  rintro ⟨before, time, after, hhistory, hsince, -⟩
  rcases List.eq_nil_or_concat after with rfl | ⟨front, last, rfl⟩
  · exact absurd (List.append_inj_right' hhistory rfl) (by simp)
  · rw [List.concat_eq_append, ← List.cons_append, ← List.append_assoc] at hhistory
    obtain rfl : Attempt.succeeded = last := by
      simpa using List.append_inj_right' hhistory rfl
    exact hsince (by simp)

theorem cooling_failed_iff {time : Int} :
    Cooling cooldown (history ++ [.failed time]) now ↔
      now < time + cooldown ∨ Cooling cooldown history now := by
  constructor
  · rintro ⟨before, time', after, hhistory, hsince, hlt⟩
    rcases List.eq_nil_or_concat after with rfl | ⟨front, last, rfl⟩
    · obtain rfl : time = time' := by
        simpa using List.append_inj_right' hhistory rfl
      exact Or.inl hlt
    · rw [List.concat_eq_append, ← List.cons_append, ← List.append_assoc] at hhistory
      refine Or.inr ⟨before, time', front, List.append_inj_left' hhistory rfl, ?_, hlt⟩
      exact fun hmem => hsince (by simp [hmem])
  · rintro (hlt | ⟨before, time', after, rfl, hsince, hlt⟩)
    · exact ⟨history, time, [], rfl, List.not_mem_nil, hlt⟩
    · exact ⟨before, time', after ++ [.failed time], by simp, by simp [hsince], hlt⟩

/-- The moment has come exactly when the history does not hold back, and no failure is
later than the clock. -/
structure Remembers (cooldown : Int) (retryAt : Option Int) (history : List Attempt)
    (clock : Int) : Prop where
  due_iff : ∀ now, (∀ moment ∈ retryAt, moment ≤ now) ↔ ¬ Cooling cooldown history now
  past : ∀ time, Attempt.failed time ∈ history → time ≤ clock

theorem Remembers.start (cooldown clock : Int) : Remembers cooldown none [] clock :=
  ⟨fun _ => iff_of_true nofun not_cooling_nil, nofun⟩

theorem Remembers.later {time : Int} (h : Remembers cooldown retryAt history clock)
    (hle : clock ≤ time) : Remembers cooldown retryAt history time :=
  ⟨h.due_iff, fun time hmem => (h.past time hmem).trans hle⟩

theorem Remembers.succeeded (h : Remembers cooldown retryAt history clock) :
    Remembers cooldown none (history ++ [.succeeded]) clock := by
  refine ⟨fun _ => iff_of_true nofun not_cooling_succeeded, fun time hmem => h.past time ?_⟩
  simpa using hmem

/-- The last failure is the latest one, so it alone decides. -/
theorem Remembers.failed {time : Int} (h : Remembers cooldown retryAt history clock)
    (hle : clock ≤ time) :
    Remembers cooldown (some (time + cooldown)) (history ++ [.failed time]) time := by
  refine ⟨fun now => ?_, fun time' hmem => ?_⟩
  · rw [cooling_failed_iff]
    constructor
    · rintro hdue (hlt | ⟨before, time', after, rfl, -, hlt⟩)
      · exact absurd (hdue _ rfl) (by omega)
      · have hpast := h.past time' (by simp)
        exact absurd (hdue _ rfl) (by omega)
    · rintro hnot moment ⟨⟩
      exact Int.not_lt.mp fun hlt => hnot (Or.inl hlt)
  · rcases List.mem_append.mp hmem with hmem | hmem
    · exact (h.past time' hmem).trans hle
    · obtain rfl : time' = time := by simpa using hmem
      exact le_rfl

end Hy2Route.Foundation
