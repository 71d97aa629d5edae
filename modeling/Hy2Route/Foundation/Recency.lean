import Mathlib.Data.List.AList
import Mathlib.Data.List.Nodup
import Mathlib.Tactic.Common

/-!
# Bounded maps in order of use

The items of a bounded map are listed from the least to the most recently
touched. Touching a key moves it to the end with its new value; when the map is
then over its capacity, items leave at the front. An implementation instead
removes front items one at a time until there is room and then appends. The
loop rule below says what such a loop leaves, for any state that can report its
size and its front key.
-/

namespace Hy2Route.Foundation

variable {K V σ : Type*}

section Items

variable [DecidableEq K]

/-- Every item except the one stored under the key. -/
def removeKey (k : K) (items : List (K × V)) : List (K × V) := items.filter (·.1 ≠ k)

/-- Move a key to the end with a new value and keep the last `cap` items. -/
def touchItems (cap : Nat) (k : K) (v : V) (items : List (K × V)) : List (K × V) :=
  let items := removeKey k items ++ [(k, v)]
  items.drop (items.length - cap)

theorem mem_removeKey {k j : K} {v : V} {items : List (K × V)} :
    (j, v) ∈ removeKey k items ↔ (j, v) ∈ items ∧ j ≠ k := by
  simp [removeKey]

theorem removeKey_of_not_mem {k : K} {items : List (K × V)} (h : k ∉ items.map Prod.fst) :
    removeKey k items = items := by
  apply List.filter_eq_self.mpr
  intro item hmem
  have hne : item.1 ≠ k := fun heq => h (heq ▸ List.mem_map_of_mem hmem)
  simpa using hne

theorem map_fst_removeKey (k : K) (items : List (K × V)) :
    (removeKey k items).map Prod.fst = (items.map Prod.fst).filter (· ≠ k) := by
  rw [removeKey, List.filter_map]
  rfl

theorem filter_ne_eq_erase {k : K} {keys : List K} (hnd : keys.Nodup) :
    keys.filter (· ≠ k) = keys.erase k := by
  rw [hnd.erase_eq_filter]
  apply List.filter_congr
  intro j _
  by_cases h : j = k <;> simp [h]

theorem length_removeKey_of_mem {k : K} {items : List (K × V)} (h : k ∈ items.map Prod.fst)
    (hnd : (items.map Prod.fst).Nodup) : (removeKey k items).length + 1 = items.length := by
  have hlen : (removeKey k items).length = ((items.map Prod.fst).erase k).length := by
    rw [← List.length_map Prod.fst, map_fst_removeKey, filter_ne_eq_erase hnd]
  have hpos := List.length_pos_of_mem h
  rw [hlen, List.length_erase_of_mem h]
  simp only [List.length_map] at hpos ⊢
  omega

/-- Touching a present key only moves it. -/
theorem touchItems_of_mem {cap : Nat} {k : K} {v : V} {items : List (K × V)}
    (h : k ∈ items.map Prod.fst) (hnd : (items.map Prod.fst).Nodup)
    (hcap : items.length ≤ cap) :
    touchItems cap k v items = removeKey k items ++ [(k, v)] := by
  have hlen := length_removeKey_of_mem h hnd
  have hzero : (removeKey k items ++ [(k, v)]).length - cap = 0 := by
    simp only [List.length_append, List.length_singleton]
    omega
  simp only [touchItems, hzero, List.drop_zero]

/-- Touching a new key drops exactly the front items that leave no room. -/
theorem touchItems_of_not_mem {cap : Nat} {k : K} {v : V} {items : List (K × V)}
    (h : k ∉ items.map Prod.fst) (hcap : 1 ≤ cap) :
    touchItems cap k v items = items.drop (items.length + 1 - cap) ++ [(k, v)] := by
  have hle : items.length + 1 - cap ≤ items.length := by omega
  simp only [touchItems, removeKey_of_not_mem h, List.length_append, List.length_singleton]
  rw [List.drop_append_of_le_length hle]

theorem length_touchItems_le (cap : Nat) (k : K) (v : V) (items : List (K × V)) :
    (touchItems cap k v items).length ≤ cap := by
  simp only [touchItems, List.length_drop]
  omega

theorem nodup_touchItems {cap : Nat} {k : K} {v : V} {items : List (K × V)}
    (hnd : (items.map Prod.fst).Nodup) :
    ((touchItems cap k v items).map Prod.fst).Nodup := by
  have hall : ((removeKey k items ++ [(k, v)]).map Prod.fst).Nodup := by
    rw [List.map_append, map_fst_removeKey]
    apply List.Nodup.append (hnd.filter _) (by simp)
    simp [List.disjoint_singleton]
  exact hall.sublist ((List.drop_sublist _ _).map Prod.fst)

/-- A touched item is the new one or an old one under another key. -/
theorem mem_of_mem_touchItems {cap : Nat} {k j : K} {v w : V} {items : List (K × V)}
    (h : (j, w) ∈ touchItems cap k v items) :
    (j = k ∧ w = v) ∨ ((j, w) ∈ items ∧ j ≠ k) := by
  have hmem := List.mem_of_mem_drop h
  rcases List.mem_append.mp hmem with hold | hnew
  · exact Or.inr (mem_removeKey.mp hold)
  · exact Or.inl (by simpa using hnew)

theorem mem_touchItems_self {cap : Nat} {k : K} {v : V} {items : List (K × V)}
    (hcap : 1 ≤ cap) : (k, v) ∈ touchItems cap k v items := by
  have hle : (removeKey k items ++ [(k, v)]).length - cap ≤ (removeKey k items).length := by
    simp only [List.length_append, List.length_singleton]
    omega
  simp only [touchItems]
  rw [List.drop_append_of_le_length hle]
  simp

/-- With room for one more item, touching keeps every other item. -/
theorem mem_touchItems_of_room {cap : Nat} {k j : K} {v w : V} {items : List (K × V)}
    (hroom : items.length < cap ∨ k ∈ items.map Prod.fst ∧ items.length ≤ cap)
    (hnd : (items.map Prod.fst).Nodup) (hmem : (j, w) ∈ items) (hne : j ≠ k) :
    (j, w) ∈ touchItems cap k v items := by
  by_cases hk : k ∈ items.map Prod.fst
  · rw [touchItems_of_mem hk hnd (by omega)]
    exact List.mem_append_left _ (mem_removeKey.mpr ⟨hmem, hne⟩)
  · have hlt : items.length < cap := hroom.resolve_right fun h => hk h.1
    rw [touchItems_of_not_mem hk (by omega), Nat.sub_eq_zero_of_le hlt, List.drop_zero]
    exact List.mem_append_left _ hmem

/-- The keys are listed from the one used longest ago to the one used last, by a log of
uses with the newest in front. -/
def ByLastUse (log order : List K) : Prop := order.Pairwise fun j k => log.idxOf k < log.idxOf j

theorem ByLastUse.sublist {log order order' : List K} (h : ByLastUse log order)
    (hsub : order'.Sublist order) : ByLastUse log order' :=
  List.Pairwise.sublist hsub h

/-- The key that is used moves to the end. -/
theorem ByLastUse.use {log order : List K} (h : ByLastUse log order) (k : K) :
    ByLastUse (k :: log) (order.filter (· ≠ k) ++ [k]) := by
  have hidx : ∀ j ≠ k, (k :: log).idxOf j = log.idxOf j + 1 := fun j hj =>
    List.idxOf_cons_ne log (Ne.symm hj)
  refine List.pairwise_append.mpr ⟨?_, List.pairwise_singleton _ _, ?_⟩
  · refine (h.sublist List.filter_sublist).imp_of_mem fun {j i} hj hi hlt => ?_
    have hjk : j ≠ k := by simpa using (List.mem_filter.mp hj).2
    have hik : i ≠ k := by simpa using (List.mem_filter.mp hi).2
    rw [hidx j hjk, hidx i hik]
    omega
  · intro j hj i hi
    have hjk : j ≠ k := by simpa using (List.mem_filter.mp hj).2
    rw [List.mem_singleton.mp hi, hidx j hjk, List.idxOf_cons_self]
    omega

end Items

/-- A map of at most `cap` items in order of use. -/
structure RecencyMap (K V : Type*) (cap : Nat) where
  items : List (K × V)
  distinct : (items.map Prod.fst).Nodup
  bounded : items.length ≤ cap

namespace RecencyMap

variable {cap : Nat}

def empty : RecencyMap K V cap := ⟨[], by simp, by simp⟩

def touch [DecidableEq K] (k : K) (v : V) (m : RecencyMap K V cap) : RecencyMap K V cap :=
  ⟨touchItems cap k v m.items, nodup_touchItems m.distinct, length_touchItems_le cap k v m.items⟩

/-- Keep the items that satisfy a test, in their order. -/
def retain (p : K × V → Bool) (m : RecencyMap K V cap) : RecencyMap K V cap :=
  ⟨m.items.filter p, m.distinct.sublist (List.filter_sublist.map Prod.fst),
    Nat.le_trans (List.length_filter_le p m.items) m.bounded⟩

end RecencyMap

/-! ## A finite map with a list of its keys in order of use -/

section Ordered

variable [DecidableEq K]

/-- The items of a finite map in the order of a list of keys. -/
def orderedItems (m : AList fun _ : K => V) (order : List K) : List (K × V) :=
  order.filterMap fun k => (m.lookup k).map (k, ·)

/-- The list holds every key of the map, once each. -/
structure OrderedBy (m : AList fun _ : K => V) (order : List K) : Prop where
  nodup : order.Nodup
  mem_iff : ∀ k, k ∈ order ↔ k ∈ m

theorem orderedItems_congr {m m' : AList fun _ : K => V} {order : List K}
    (h : ∀ k ∈ order, m.lookup k = m'.lookup k) : orderedItems m order = orderedItems m' order := by
  apply List.filterMap_congr
  intro k hk
  rw [h k hk]

theorem orderedItems_filter (m : AList fun _ : K => V) (order : List K) (k : K) :
    orderedItems m (order.filter (· ≠ k)) = removeKey k (orderedItems m order) := by
  induction order with
  | nil => rfl
  | cons j rest ih =>
      simp only [orderedItems, removeKey, ne_eq, decide_not] at ih ⊢
      by_cases hj : j = k
      · subst hj
        cases hl : m.lookup j <;> simp [hl, ih]
      · cases hl : m.lookup j <;> simp [hj, hl, ih]

namespace OrderedBy

variable {m : AList fun _ : K => V} {order : List K}

theorem mem_orderedItems (h : OrderedBy m order) {k : K} {v : V} :
    (k, v) ∈ orderedItems m order ↔ m.lookup k = some v := by
  simp only [orderedItems, List.mem_filterMap, Option.map_eq_some_iff, Prod.mk.injEq]
  constructor
  · rintro ⟨j, -, w, hw, rfl, rfl⟩
    exact hw
  · intro hv
    have hmem : k ∈ m := AList.lookup_isSome.mp (by simp [hv])
    exact ⟨k, (h.mem_iff k).mpr hmem, v, hv, rfl, rfl⟩

theorem map_fst_orderedItems (h : OrderedBy m order) :
    (orderedItems m order).map Prod.fst = order := by
  have hall : ∀ k ∈ order, (m.lookup k).isSome := fun k hk =>
    AList.lookup_isSome.mpr ((h.mem_iff k).mp hk)
  clear h
  induction order with
  | nil => rfl
  | cons k rest ih =>
      obtain ⟨v, hv⟩ := Option.isSome_iff_exists.mp (hall k (by simp))
      have hrest := ih fun j hj => hall j (by simp [hj])
      simpa [orderedItems, hv] using hrest

theorem length_keys (h : OrderedBy m order) :
    m.keys.length = (orderedItems m order).length := by
  have hperm : m.keys.Perm order := by
    apply (List.perm_ext_iff_of_nodup m.keys_nodup h.nodup).mpr
    intro k
    rw [h.mem_iff, AList.mem_keys]
  rw [hperm.length_eq, ← List.length_map Prod.fst, h.map_fst_orderedItems]

theorem head?_eq (h : OrderedBy m order) :
    order.head? = (orderedItems m order).head?.map Prod.fst := by
  rw [← List.head?_map, h.map_fst_orderedItems]

/-- Dropping a key from the map and from its order. -/
theorem erase (h : OrderedBy m order) (k : K) :
    OrderedBy (m.erase k) (order.erase k) ∧
      orderedItems (m.erase k) (order.erase k) = removeKey k (orderedItems m order) := by
  have hfilter := filter_ne_eq_erase (k := k) h.nodup
  refine ⟨⟨h.nodup.erase k, ?_⟩, ?_⟩
  · intro j
    rw [h.nodup.mem_erase_iff, h.mem_iff, AList.mem_erase]
  · rw [← orderedItems_filter, hfilter]
    apply orderedItems_congr
    intro j hj
    exact AList.lookup_erase_ne (h.nodup.mem_erase_iff.mp hj).1

/-- Storing a key and placing it last, whether it was present or not. -/
theorem insert_back (h : OrderedBy m order) (k : K) (v : V) :
    OrderedBy (m.insert k v) (order.erase k ++ [k]) ∧
      orderedItems (m.insert k v) (order.erase k ++ [k]) =
        removeKey k (orderedItems m order) ++ [(k, v)] := by
  have hmem : ∀ j, j ∈ order.erase k ↔ j ≠ k ∧ j ∈ order := fun j => h.nodup.mem_erase_iff
  refine ⟨⟨?_, ?_⟩, ?_⟩
  · apply List.Nodup.append (h.nodup.erase k) (by simp)
    simp [List.disjoint_singleton, hmem]
  · intro j
    simp only [List.mem_append, List.mem_singleton, hmem, AList.mem_insert, h.mem_iff]
    tauto
  · have hold : orderedItems (m.insert k v) (order.erase k) = orderedItems m (order.erase k) := by
      apply orderedItems_congr
      intro j hj
      exact AList.lookup_insert_ne ((hmem j).mp hj).1
    rw [orderedItems, List.filterMap_append, ← orderedItems, hold,
      ← filter_ne_eq_erase h.nodup, orderedItems_filter]
    simp

/-- Placing a present key last without changing the map. -/
theorem move_back (h : OrderedBy m order) {k : K} {v : V} (hk : m.lookup k = some v) :
    OrderedBy m (order.erase k ++ [k]) ∧
      orderedItems m (order.erase k ++ [k]) = removeKey k (orderedItems m order) ++ [(k, v)] := by
  obtain ⟨hordered, hitems⟩ := h.insert_back k v
  have hmem : k ∈ m := AList.lookup_isSome.mp (by simp [hk])
  refine ⟨⟨hordered.nodup, fun j => ?_⟩, ?_⟩
  · rw [hordered.mem_iff, AList.mem_insert]
    exact ⟨fun hj => hj.elim (fun heq => heq ▸ hmem) id, Or.inr⟩
  · rw [← hitems]
    refine orderedItems_congr fun j _ => ?_
    by_cases hj : j = k
    · subst hj
      rw [hk, AList.lookup_insert]
    · rw [AList.lookup_insert_ne hj]

end OrderedBy

end Ordered

/-! ## Removing front keys until there is room -/

/-- Remove front keys until fewer than `cap` are left. The fuel bounds the
number of rounds; running out of it, or finding no front key while the state
still reports too many, gives no result. -/
def evictLoop (size : σ → Nat) (front : σ → Option K) (remove : K → σ → σ) (cap : Nat) :
    Nat → σ → Option σ
  | 0, s => if cap ≤ size s then none else some s
  | fuel + 1, s =>
      if cap ≤ size s then
        match front s with
        | none => none
        | some k => evictLoop size front remove cap fuel (remove k s)
      else some s

/-- A state whose size, front and removal follow a list of items loses exactly
the front items that leave no room, and the loop always finishes. -/
theorem evictLoop_spec (size : σ → Nat) (front : σ → Option K) (remove : K → σ → σ)
    {cap : Nat} (Inv : σ → Prop) (items : σ → List (K × V))
    (hcap : 1 ≤ cap)
    (hsize : ∀ s, Inv s → size s = (items s).length)
    (hfront : ∀ s, Inv s → front s = (items s).head?.map Prod.fst)
    (hremove : ∀ s k v rest, Inv s → items s = (k, v) :: rest →
      Inv (remove k s) ∧ items (remove k s) = rest)
    (fuel : Nat) (s : σ) (hs : Inv s) (hfuel : (items s).length ≤ fuel) :
    ∃ s', evictLoop size front remove cap fuel s = some s' ∧ Inv s' ∧
      items s' = (items s).drop ((items s).length + 1 - cap) := by
  induction fuel generalizing s with
  | zero =>
      have hnil : items s = [] := List.length_eq_zero_iff.mp (Nat.le_zero.mp hfuel)
      have hroom : ¬ cap ≤ size s := by
        rw [hsize s hs, hnil, List.length_nil]
        omega
      exact ⟨s, by simp [evictLoop, hroom], hs, by simp [hnil]⟩
  | succ fuel ih =>
      by_cases hfull : cap ≤ size s
      · rw [hsize s hs] at hfull
        cases hitems : items s with
        | nil =>
            rw [hitems, List.length_nil] at hfull
            omega
        | cons item rest =>
            obtain ⟨k, v⟩ := item
            obtain ⟨hinv, hrest⟩ := hremove s k v rest hs hitems
            rw [hitems, List.length_cons] at hfull hfuel
            obtain ⟨s', hrun, hs', heq⟩ := ih (remove k s) hinv (by rw [hrest]; omega)
            refine ⟨s', ?_, hs', ?_⟩
            · have hguard : cap ≤ size s := by
                rw [hsize s hs, hitems, List.length_cons]
                exact hfull
              have hkey : front s = some k := by simp [hfront s hs, hitems]
              simp only [evictLoop, if_pos hguard, hkey, hrun]
            · rw [heq, hrest]
              have hdrop : ((k, v) :: rest).length + 1 - cap = rest.length + 1 - cap + 1 := by
                simp only [List.length_cons]
                omega
              rw [hdrop, List.drop_succ_cons]
      · have hlen : (items s).length + 1 - cap = 0 := by
          rw [← hsize s hs]
          omega
        exact ⟨s, by simp [evictLoop, hfull], hs, by simp [hlen]⟩

/-- The loop over a state that keeps an ordered map: it removes the first keys of
the order until there is room for one more. -/
theorem evictLoop_ordered [DecidableEq K] (entries : σ → AList fun _ : K => V)
    (order : σ → List K) (remove : K → σ → σ) {cap : Nat} (Inv : σ → Prop) (hcap : 1 ≤ cap)
    (hordered : ∀ s, Inv s → OrderedBy (entries s) (order s))
    (hremove : ∀ s k, Inv s → Inv (remove k s) ∧
      orderedItems (entries (remove k s)) (order (remove k s)) =
        removeKey k (orderedItems (entries s) (order s)))
    (s : σ) (hs : Inv s) :
    ∃ s', evictLoop (fun s => (entries s).keys.length) (fun s => (order s).head?) remove cap
        (entries s).keys.length s = some s' ∧ Inv s' ∧
      orderedItems (entries s') (order s') = (orderedItems (entries s) (order s)).drop
        ((orderedItems (entries s) (order s)).length + 1 - cap) := by
  apply evictLoop_spec _ _ _ Inv (fun s => orderedItems (entries s) (order s)) hcap
  · exact fun s hs => (hordered s hs).length_keys
  · exact fun s hs => (hordered s hs).head?_eq
  · intro s k v rest hs hcons
    obtain ⟨hinv, hitems⟩ := hremove s k hs
    refine ⟨hinv, ?_⟩
    have hnd := (hordered s hs).map_fst_orderedItems ▸ (hordered s hs).nodup
    rw [hcons, List.map_cons, List.nodup_cons] at hnd
    have hhead : removeKey k ((k, v) :: rest) = removeKey k rest := by simp [removeKey]
    rw [hitems, hcons, hhead]
    exact removeKey_of_not_mem hnd.1
  · exact hs
  · exact le_of_eq (hordered s hs).length_keys.symm

end Hy2Route.Foundation
