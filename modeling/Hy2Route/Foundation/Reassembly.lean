import Mathlib.Data.List.Nodup
import Mathlib.Data.List.Perm.Subperm
import Mathlib.Data.List.Range
import Mathlib.Tactic.Common

/-!
# Putting parts together

The parts of a whole are numbered from zero and come in any order; some come twice and
some never. Only the parts of one whole are held: a part of another whole drops them.
When the last missing part comes, the whole is put together in the order of the numbers.
-/

namespace Hy2Route.Foundation

theorem find?_eq_some_iff_mem {α β : Type*} [DecidableEq β] {f : α → β} {l : List α}
    (hdistinct : (l.map f).Nodup) {a : α} {b : β} :
    l.find? (fun x => f x = b) = some a ↔ a ∈ l ∧ f a = b := by
  constructor
  · intro h
    exact ⟨List.mem_of_find?_eq_some h, by simpa using List.find?_some h⟩
  · rintro ⟨hmem, rfl⟩
    obtain ⟨x, hx⟩ : ∃ x, l.find? (fun x => f x = f a) = some x := by
      rw [← Option.isSome_iff_exists, List.find?_isSome]
      exact ⟨a, hmem, by simp⟩
    have hvalue : f x = f a := by simpa using List.find?_some hx
    rw [hx, List.inj_on_of_nodup_map hdistinct (List.mem_of_find?_eq_some hx) hmem hvalue]

/-! ## Parts in order -/

section InOrder

variable {α : Type*} (number : α → Nat)

/-- The place of each number, filled by the part that has it. -/
def slots (n : Nat) (held : List α) : List (Option α) :=
  (List.range n).map fun i => held.find? fun a => number a = i

/-- The parts in the order of their numbers. -/
def inOrder (n : Nat) (held : List α) : List α :=
  (List.range n).filterMap fun i => held.find? fun a => number a = i

variable {number}

@[simp] theorem length_slots (n : Nat) (held : List α) : (slots number n held).length = n := by
  simp [slots]

theorem getElem?_slots {n i : Nat} (hi : i < n) (held : List α) :
    (slots number n held)[i]? = some (held.find? fun a => number a = i) := by
  simp [slots, hi]

theorem slots_nil (n : Nat) : slots number n [] = List.replicate n none := by
  simp [slots]

/-- A part with a number that was not there fills its place. -/
theorem slots_append {n : Nat} {held : List α} {a : α} (hnew : ∀ b ∈ held, number b ≠ number a) :
    slots number n (held ++ [a]) = (slots number n held).set (number a) (some a) := by
  refine List.ext_getElem? fun i => ?_
  by_cases hi : i < n
  · rw [getElem?_slots hi, List.find?_append]
    by_cases heq : number a = i
    · have hnone : held.find? (fun b => number b = i) = none := by
        refine List.find?_eq_none.mpr fun b hb => ?_
        simpa [← heq] using hnew b hb
      rw [heq, List.getElem?_set_self (by simpa using hi), hnone]
      simp [heq]
    · rw [List.getElem?_set_ne heq, getElem?_slots hi]
      simp [heq]
  · rw [List.getElem?_eq_none (by simpa using hi), List.getElem?_eq_none (by simpa using hi)]

theorem nodup_of_places {l : List α} (h : ∀ {i a}, l[i]? = some a → number a = i) :
    l.Nodup := by
  refine List.nodup_iff_injective_getElem.mpr fun i j hij => Fin.ext ?_
  rw [← h (List.getElem?_eq_getElem i.isLt), ← h (List.getElem?_eq_getElem j.isLt)]
  exact congrArg number hij

/-- Parts with different numbers below their own count have all of them. -/
theorem exists_of_length_eq {n i : Nat} {held : List α} (hdistinct : (held.map number).Nodup)
    (hbound : ∀ a ∈ held, number a < n) (hlen : held.length = n) (hi : i < n) :
    ∃ a ∈ held, number a = i := by
  have hsubset : held.map number ⊆ List.range n := by
    intro j hj
    obtain ⟨a, ha, rfl⟩ := List.mem_map.mp hj
    exact List.mem_range.mpr (hbound a ha)
  have hperm : (held.map number).Perm (List.range n) :=
    (List.subperm_of_subset hdistinct hsubset).perm_of_length_le (by simp [hlen])
  exact List.mem_map.mp (hperm.mem_iff.mpr (List.mem_range.mpr hi))

section Complete

variable {n : Nat} {held : List α} (hdistinct : (held.map number).Nodup)
  (hbound : ∀ a ∈ held, number a < n) (hlen : held.length = n)

include hdistinct hbound hlen

theorem exists_find?_of_length_eq {i : Nat} (hi : i < n) :
    ∃ a, held.find? (fun b => number b = i) = some a := by
  obtain ⟨a, ha, hnumber⟩ := exists_of_length_eq hdistinct hbound hlen hi
  exact ⟨a, (find?_eq_some_iff_mem hdistinct).mpr ⟨ha, hnumber⟩⟩

theorem slots_eq_map_some : slots number n held = (inOrder number n held).map some := by
  rw [slots, inOrder]
  have hall : ∀ i ∈ List.range n, ∃ a, held.find? (fun b => number b = i) = some a :=
    fun i hi => exists_find?_of_length_eq hdistinct hbound hlen (List.mem_range.mp hi)
  revert hall
  generalize List.range n = numbers
  intro hall
  induction numbers with
  | nil => rfl
  | cons i rest ih =>
      obtain ⟨a, ha⟩ := hall i List.mem_cons_self
      have hrest := ih fun j hj => hall j (List.mem_cons_of_mem i hj)
      simp only [List.map_cons, List.filterMap_cons, ha, hrest]

theorem length_inOrder : (inOrder number n held).length = n := by
  have h := congrArg List.length (slots_eq_map_some hdistinct hbound hlen)
  rw [length_slots, List.length_map] at h
  exact h.symm

theorem getElem?_inOrder {i : Nat} {a : α} :
    (inOrder number n held)[i]? = some a ↔ a ∈ held ∧ number a = i := by
  by_cases hi : i < n
  · have hslot : (slots number n held)[i]? = some (held.find? fun a => number a = i) :=
      getElem?_slots hi held
    rw [slots_eq_map_some hdistinct hbound hlen, List.getElem?_map] at hslot
    obtain ⟨b, hb⟩ := exists_find?_of_length_eq hdistinct hbound hlen hi
    rw [← find?_eq_some_iff_mem hdistinct, hb]
    rw [hb] at hslot
    obtain ⟨c, hc, hcb⟩ := Option.map_eq_some_iff.mp hslot
    rw [hc, Option.some.inj hcb]
  · rw [List.getElem?_eq_none (by rw [length_inOrder hdistinct hbound hlen]; omega)]
    constructor
    · intro h
      cases h
    · rintro ⟨hmem, rfl⟩
      exact absurd (hbound a hmem) hi

theorem inOrder_perm : (inOrder number n held).Perm held := by
  have hnodup : (inOrder number n held).Nodup :=
    nodup_of_places fun hi => ((getElem?_inOrder hdistinct hbound hlen).mp hi).2
  have hsubset : inOrder number n held ⊆ held := by
    intro a ha
    obtain ⟨i, hi⟩ := List.mem_iff_getElem?.mp ha
    exact ((getElem?_inOrder hdistinct hbound hlen).mp hi).1
  refine (List.subperm_of_subset hnodup hsubset).perm_of_length_le ?_
  rw [length_inOrder hdistinct hbound hlen, hlen]

end Complete

end InOrder

/-! ## Wholes, one at a time -/

section Reassembly

variable {α κ : Type*} (key : α → κ) (number : α → Nat) (total : κ → Nat)

/-- A part of the whole that is held and that was missing. -/
def Missing (held : List α) (a : α) : Prop :=
  held.head?.map key = some (key a) ∧ ∀ b ∈ held, number b ≠ number a

/-- Parts of one whole with different numbers. -/
structure Together (held : List α) : Prop where
  same : ∀ a ∈ held, held.head?.map key = some (key a)
  bound : ∀ a ∈ held, number a < total (key a)
  distinct : (held.map number).Nodup

section Together

variable {key number total} {held : List α} {a : α}

theorem together_nil : Together key number total [] :=
  ⟨by simp, by simp, by simp⟩

theorem together_singleton (h : number a < total (key a)) : Together key number total [a] :=
  ⟨by simp, by simpa using h, by simp⟩

theorem Missing.head?_append (h : Missing key number held a) :
    (held ++ [a]).head? = held.head? := by
  obtain ⟨first, hfirst, -⟩ := Option.map_eq_some_iff.mp h.1
  simp [List.head?_append, hfirst]

theorem Together.append (h : Together key number total held) (hmissing : Missing key number held a)
    (ha : number a < total (key a)) : Together key number total (held ++ [a]) := by
  refine ⟨fun b hb => ?_, fun b hb => ?_, ?_⟩
  · rw [hmissing.head?_append]
    rcases List.mem_append.mp hb with hb | hb
    · exact h.same b hb
    · rw [List.mem_singleton.mp hb]
      exact hmissing.1
  · rcases List.mem_append.mp hb with hb | hb
    · exact h.bound b hb
    · rw [List.mem_singleton.mp hb]
      exact ha
  · rw [List.map_append, List.nodup_append]
    refine ⟨h.distinct, by simp, ?_⟩
    intro i hi j hj
    obtain ⟨b, hb, rfl⟩ := List.mem_map.mp hi
    rw [List.map_singleton, List.mem_singleton] at hj
    rw [hj]
    exact hmissing.2 b hb

theorem Together.key_eq (h : Together key number total held) {k : κ}
    (hk : held.head?.map key = some k) {b : α} (hb : b ∈ held) : key b = k :=
  Option.some.inj ((h.same b hb).symm.trans hk)

theorem Together.number_lt (h : Together key number total held) {k : κ}
    (hk : held.head?.map key = some k) : ∀ b ∈ held, number b < total k := by
  intro b hb
  rw [← h.key_eq hk hb]
  exact h.bound b hb

/-- As long as a part is missing not all of them are held. -/
theorem Together.length_lt (h : Together key number total held)
    (hmissing : Missing key number held a) (ha : number a < total (key a)) :
    held.length < total (key a) := by
  have happend := h.append hmissing ha
  have hkey : (held ++ [a]).head?.map key = some (key a) := by
    rw [hmissing.head?_append]
    exact hmissing.1
  have hsubset : (held ++ [a]).map number ⊆ List.range (total (key a)) := by
    intro j hj
    obtain ⟨b, hb, rfl⟩ := List.mem_map.mp hj
    exact List.mem_range.mpr (happend.number_lt hkey b hb)
  have hle := (List.subperm_of_subset happend.distinct hsubset).length_le
  simp only [List.length_map, List.length_append, List.length_singleton, List.length_range] at hle
  omega

end Together

/-- All the parts of one whole, in order. -/
structure Parts (k : κ) (parts : List α) : Prop where
  length : parts.length = total k
  several : 2 ≤ total k
  place : ∀ {i a}, parts[i]? = some a → number a = i ∧ key a = k

section Parts

variable {key number total} {k : κ} {parts : List α} (hparts : Parts key number total k parts)

include hparts

theorem Parts.getElem?_iff {i : Nat} {b : α} :
    parts[i]? = some b ↔ b ∈ parts ∧ number b = i := by
  constructor
  · intro h
    exact ⟨List.mem_of_getElem? h, (hparts.place h).1⟩
  · rintro ⟨hmem, rfl⟩
    obtain ⟨j, hj⟩ := List.mem_iff_getElem?.mp hmem
    rwa [(hparts.place hj).1]

theorem Parts.of_mem {b : α} (hb : b ∈ parts) : key b = k ∧ number b < total k := by
  obtain ⟨i, hi⟩ := List.mem_iff_getElem?.mp hb
  obtain ⟨hnumber, hkey⟩ := hparts.place hi
  rw [hnumber, ← hparts.length]
  exact ⟨hkey, (List.getElem?_eq_some_iff.mp hi).1⟩

theorem Parts.inj {b c : α} (hb : b ∈ parts) (hc : c ∈ parts) (h : number b = number c) :
    b = c := by
  have hplace := hparts.getElem?_iff.mpr ⟨hb, rfl⟩
  rw [h, hparts.getElem?_iff.mpr ⟨hc, rfl⟩] at hplace
  exact (Option.some.inj hplace).symm

theorem Parts.not_subset {held : List α} (hlt : held.length < total k) : ¬ parts ⊆ held := by
  intro hsub
  have hnodup : parts.Nodup := nodup_of_places fun hi => (hparts.place hi).1
  have hle := (List.subperm_of_subset hnodup hsub).length_le
  rw [hparts.length] at hle
  omega

/-- As many parts as there are of the whole are all of them. -/
theorem Parts.subset_of_full {held : List α} (h : Together key number total held)
    (hheld : held ⊆ parts) (hk : held.head?.map key = some k) (hlen : held.length = total k) :
    parts ⊆ held := by
  intro p hp
  obtain ⟨b, hb, hnumber⟩ :=
    exists_of_length_eq h.distinct (h.number_lt hk) hlen (hparts.of_mem hp).2
  rwa [← hparts.inj (hheld hb) hp hnumber]

theorem Parts.mem_of_not_missing {held : List α} (hheld : held ⊆ parts)
    (hk : held.head?.map key = some k) {a : α} (ha : a ∈ parts)
    (hnot : ¬ Missing key number held a) : a ∈ held := by
  by_contra hout
  refine hnot ⟨by rw [hk, (hparts.of_mem ha).1], fun b hb hnumber => hout ?_⟩
  rwa [← hparts.inj (hheld hb) ha hnumber]

end Parts

variable [DecidableEq κ]

instance (held : List α) (a : α) : Decidable (Missing key number held a) :=
  inferInstanceAs (Decidable (_ ∧ _))

/-- What is held when a part has come. -/
def gather (held : List α) (a : α) : List α :=
  if Missing key number held a then held ++ [a]
  else if held.head?.map key = some (key a) then held
  else [a]

/-- The whole that a part completes. -/
def completed (held : List α) (a : α) : Option (List α) :=
  if Missing key number held a ∧ held.length + 1 = total (key a) then
    some (inOrder number (total (key a)) (held ++ [a]))
  else none

/-- The wholes that are completed when the parts come one after the other. -/
def wholes : List α → List α → List (List α)
  | _, [] => []
  | held, a :: rest =>
      (completed key number total held a).toList ++ wholes (gather key number held a) rest

variable {key number total} {held : List α} {a : α}

/-- A whole is made of the parts that were held and the one that has just come, each at
its place. -/
theorem completed_eq_some (h : Together key number total held) (ha : number a < total (key a))
    {whole : List α} (hwhole : completed key number total held a = some whole) :
    whole.length = total (key a) ∧ ∀ i b, whole[i]? = some b ↔
      (b ∈ held ∨ b = a) ∧ number b = i := by
  unfold completed at hwhole
  split_ifs at hwhole with hlast
  obtain rfl := Option.some.inj hwhole
  have htogether := h.append hlast.1 ha
  have hkey : (held ++ [a]).head?.map key = some (key a) := by
    rw [hlast.1.head?_append]
    exact hlast.1.1
  have hbound := htogether.number_lt hkey
  have hlen : (held ++ [a]).length = total (key a) := by simpa using hlast.2
  refine ⟨length_inOrder htogether.distinct hbound hlen, fun i b => ?_⟩
  rw [getElem?_inOrder htogether.distinct hbound hlen, List.mem_append, List.mem_singleton]

/-! ## The parts of one whole -/

section Parts

variable {k : κ} {parts : List α} (hparts : Parts key number total k parts)

include hparts

/-- The whole that the last missing part completes is all the parts in order. -/
theorem Parts.completed_eq (h : Together key number total held) (hheld : held ⊆ parts)
    (ha : a ∈ parts) {whole : List α}
    (hwhole : completed key number total held a = some whole) : whole = parts := by
  obtain ⟨hkey, hbound⟩ := hparts.of_mem ha
  rw [← hkey] at hbound
  obtain ⟨hlen, hplaces⟩ := completed_eq_some h hbound hwhole
  refine List.ext_getElem? fun i => ?_
  by_cases hi : i < total (key a)
  · obtain ⟨b, hb⟩ : ∃ b, whole[i]? = some b := ⟨_, List.getElem?_eq_getElem (hlen ▸ hi)⟩
    obtain ⟨hmem, hnumber⟩ := (hplaces i b).mp hb
    have hbparts : b ∈ parts := by
      rcases hmem with hmem | rfl
      · exact hheld hmem
      · exact ha
    rw [hb, hparts.getElem?_iff.mpr ⟨hbparts, hnumber⟩]
  · have hplen := hparts.length
    rw [← hkey] at hplen
    rw [List.getElem?_eq_none (by omega), List.getElem?_eq_none (by omega)]

variable [DecidableEq α]

/-- While parts of one whole come, what is held of it grows until it is completed once. -/
theorem Parts.wholes_of_held (h : Together key number total held) (hheld : held ⊆ parts)
    (hk : held.head?.map key = some k) {arrival : List α} (harrival : arrival ⊆ parts) :
    wholes key number total held arrival =
      if held.length < total k ∧ ∀ p ∈ parts, p ∈ held ∨ p ∈ arrival then [parts] else [] := by
  induction arrival generalizing held with
  | nil =>
      have hnot : ¬ (held.length < total k ∧ ∀ p ∈ parts, p ∈ held ∨ p ∈ []) := by
        rintro ⟨hlt, hall⟩
        exact hparts.not_subset hlt fun p hp => by simpa using hall p hp
      rw [if_neg hnot, wholes]
  | cons a rest ih =>
      have ha : a ∈ parts := harrival List.mem_cons_self
      have hrest : rest ⊆ parts := fun b hb => harrival (List.mem_cons_of_mem a hb)
      obtain ⟨hakey, habound⟩ := hparts.of_mem ha
      have hbound : number a < total (key a) := by rwa [hakey]
      by_cases hmissing : Missing key number held a
      · -- the part was missing: it is held from now on, or was the last one
        have hlt := h.length_lt hmissing hbound
        rw [hakey] at hlt
        have htogether := h.append hmissing hbound
        have hgather : gather key number held a = held ++ [a] := if_pos hmissing
        have hheld' : held ++ [a] ⊆ parts :=
          List.append_subset.mpr ⟨hheld, List.cons_subset.mpr ⟨ha, List.nil_subset _⟩⟩
        have hhead : (held ++ [a]).head?.map key = some k := by
          rw [hmissing.head?_append]
          exact hk
        have hcome (p : α) : p ∈ held ++ [a] ∨ p ∈ rest ↔ p ∈ held ∨ p ∈ a :: rest := by
          rw [List.mem_append, List.mem_singleton, List.mem_cons, or_assoc]
        rw [wholes, hgather, ih htogether hheld' hhead hrest]
        simp only [hcome, List.length_append, List.length_singleton]
        by_cases hlast : held.length + 1 = total k
        · obtain ⟨whole, hwhole⟩ : ∃ whole, completed key number total held a = some whole :=
            ⟨_, if_pos ⟨hmissing, by rwa [hakey]⟩⟩
          have hfull := hparts.subset_of_full htogether hheld' hhead (by simpa using hlast)
          have hall : ∀ p ∈ parts, p ∈ held ∨ p ∈ a :: rest :=
            fun p hp => (hcome p).mp (Or.inl (hfull hp))
          rw [hwhole, hparts.completed_eq h hheld ha hwhole,
            if_neg fun hless => hless.1.ne hlast, if_pos ⟨hlt, hall⟩]
          rfl
        · have hnone : completed key number total held a = none :=
            if_neg fun hboth => hlast (by rw [← hakey]; exact hboth.2)
          have hmore : held.length + 1 < total k ↔ held.length < total k := by omega
          simp only [hnone, Option.toList_none, List.nil_append, hmore]
      · -- the part is held already
        have hin := hparts.mem_of_not_missing hheld hk ha hmissing
        have hgather : gather key number held a = held := by
          rw [gather, if_neg hmissing, if_pos (by rw [hakey]; exact hk)]
        have hnone : completed key number total held a = none :=
          if_neg fun hboth => hmissing hboth.1
        have hcome (p : α) : p ∈ held ∨ p ∈ rest ↔ p ∈ held ∨ p ∈ a :: rest := by
          rw [List.mem_cons]
          constructor
          · exact Or.imp_right Or.inr
          · rintro (hp | rfl | hp)
            · exact Or.inl hp
            · exact Or.inl hin
            · exact Or.inr hp
        rw [wholes, hnone, hgather, ih h hheld hk hrest]
        simp only [Option.toList_none, List.nil_append, hcome]

/-- When only parts of one whole come, in any order and any number of times, the whole is
put together once if all of them come, and never otherwise. -/
theorem Parts.wholes_eq (hother : held.head?.map key ≠ some k) {arrival : List α}
    (harrival : arrival ⊆ parts) :
    wholes key number total held arrival = if parts ⊆ arrival then [parts] else [] := by
  have hseveral := hparts.several
  cases arrival with
  | nil =>
      have hnot : ¬ parts ⊆ [] := by
        intro hsub
        have hnil := List.subset_nil.mp hsub
        have hlen := hparts.length
        rw [hnil, List.length_nil] at hlen
        omega
      rw [if_neg hnot, wholes]
  | cons a rest =>
      have ha : a ∈ parts := harrival List.mem_cons_self
      obtain ⟨hakey, habound⟩ := hparts.of_mem ha
      have hne : held.head?.map key ≠ some (key a) := by rwa [hakey]
      have hnone : completed key number total held a = none := if_neg fun hboth => hne hboth.1.1
      have hgather : gather key number held a = [a] := by
        rw [gather, if_neg fun hmissing => hne hmissing.1, if_neg hne]
      have hheld : [a] ⊆ parts := fun b hb => by rwa [List.mem_singleton.mp hb]
      have hrest : rest ⊆ parts := fun b hb => harrival (List.mem_cons_of_mem a hb)
      have hiff : ([a].length < total k ∧ ∀ p ∈ parts, p ∈ [a] ∨ p ∈ rest) ↔
          parts ⊆ a :: rest := by
        rw [List.length_singleton, and_iff_right (by omega)]
        refine forall₂_congr fun p _ => ?_
        rw [List.mem_singleton, List.mem_cons]
      rw [wholes, hnone, hgather, hparts.wholes_of_held (together_singleton (by rwa [hakey])) hheld
        (by simp [hakey]) hrest]
      simp only [Option.toList_none, List.nil_append, hiff]

end Parts

end Reassembly

end Hy2Route.Foundation
