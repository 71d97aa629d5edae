import Mathlib.Data.List.Sort
import Mathlib.Tactic.Common

/-!
# Sets collected in a map and sorted by a key

A map gives its keys in an order that is not known. Sorting them by a key that
tells them apart yields the same list whatever that order was, so it depends on
the set of keys alone.
-/

namespace Hy2Route.Foundation

/-- The order in which a map is iterated. -/
structure Iteration (α : Type*) where
  order : List α → List α
  perm : ∀ keys, (order keys).Perm keys

/-- Keys that come last first. -/
def Iteration.reversed (α : Type*) : Iteration α where
  order := List.reverse
  perm := List.reverse_perm

variable {α κ : Type*} (le : κ → κ → Prop) [DecidableRel le]

def sortBy (key : α → κ) (l : List α) : List α :=
  l.insertionSort fun a b => le (key a) (key b)

@[simp] theorem mem_sortBy {key : α → κ} {l : List α} {a : α} : a ∈ sortBy le key l ↔ a ∈ l :=
  List.mem_insertionSort _

variable [Std.Total le] [IsTrans κ le]

theorem pairwise_sortBy (key : α → κ) (l : List α) :
    (sortBy le key l).Pairwise fun a b => le (key a) (key b) := by
  have : Std.Total fun a b : α => le (key a) (key b) := ⟨fun a b => Std.Total.total _ _⟩
  have : IsTrans α fun a b => le (key a) (key b) := ⟨fun a b c => IsTrans.trans _ _ _⟩
  exact List.pairwise_insertionSort _ l

/-- Sorting forgets the order when the key tells the elements apart. -/
theorem sortBy_eq_of_perm [Std.Antisymm le] {key : α → κ} {l₁ l₂ : List α}
    (hkey : ∀ a ∈ l₁, ∀ b ∈ l₁, key a = key b → a = b) (h : l₁.Perm l₂) :
    sortBy le key l₁ = sortBy le key l₂ := by
  refine List.Perm.eq_of_pairwise ?_ (pairwise_sortBy le key l₁) (pairwise_sortBy le key l₂) ?_
  · intro a b ha hb hab hba
    rw [mem_sortBy] at ha hb
    exact hkey a ha b (h.mem_iff.mpr hb) (Std.Antisymm.antisymm _ _ hab hba)
  · exact (List.perm_insertionSort _ l₁).trans (h.trans (List.perm_insertionSort _ l₂).symm)

end Hy2Route.Foundation
