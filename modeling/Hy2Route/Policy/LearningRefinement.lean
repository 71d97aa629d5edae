import Mathlib.Data.Finset.Card
import Hy2Route.Policy.Learning

/-!
# The learning table as a bounded map in order of use

`Sound` links the four structures of a table: the order list and the address
sets hold the keys of the entries, and the heap holds an item with the current
expiry of every entry. Each operation preserves it. Observing an address is one
touch of the abstract map and expiry keeps the later items, so a whole run
follows the abstract map.
-/

namespace Hy2Route.Policy

open Foundation

namespace LearningTable

/-- The entries from the least to the most recently observed. -/
def items (table : LearningTable) : List (ObservationKey × Int) :=
  orderedItems table.entries table.lru

/-- The entries, the order list and the address sets hold the same keys. -/
structure Linked (table : LearningTable) : Prop where
  ordered : OrderedBy table.entries table.lru
  mem_keysOf : ∀ ip key, key ∈ table.keysOf ip ↔ key ∈ table.entries ∧ key.ip = ip
  byIP_nonempty : ∀ ip keys, table.byIP.lookup ip = some keys → keys ≠ ∅

/-- Every entry has a heap item with its key and its current expiry. -/
def Covered (heap : List ExpiryItem) (items : List (ObservationKey × Int)) : Prop :=
  ∀ key expires, (key, expires) ∈ items → ⟨key, expires⟩ ∈ heap

/-- The invariant of a table. -/
structure Sound (table : LearningTable) : Prop where
  linked : Linked table
  capacity_pos : 1 ≤ table.capacity
  bounded : table.items.length ≤ table.capacity
  sorted : table.expirations.Pairwise ExpiryItem.NotAfter
  covered : Covered table.expirations table.items

variable {table : LearningTable}

theorem Linked.mem_items (h : Linked table) {key : ObservationKey} {expires : Int} :
    (key, expires) ∈ table.items ↔ table.entries.lookup key = some expires :=
  h.ordered.mem_orderedItems

theorem Linked.map_fst_items (h : Linked table) : table.items.map Prod.fst = table.lru :=
  h.ordered.map_fst_orderedItems

theorem Linked.nodup_items (h : Linked table) : (table.items.map Prod.fst).Nodup :=
  h.map_fst_items ▸ h.ordered.nodup

theorem Linked.mem_map_fst_items (h : Linked table) {key : ObservationKey} :
    key ∈ table.items.map Prod.fst ↔ key ∈ table.entries := by
  rw [h.map_fst_items, h.ordered.mem_iff]

/-! ## Removal -/

@[simp] theorem removeLocked_capacity (table : LearningTable) (key : ObservationKey) :
    (table.removeLocked key).capacity = table.capacity := by
  unfold removeLocked
  split <;> rfl

@[simp] theorem removeLocked_expirations (table : LearningTable) (key : ObservationKey) :
    (table.removeLocked key).expirations = table.expirations := by
  unfold removeLocked
  split <;> rfl

/-- Reading an address set after storing or deleting one set. -/
theorem keysOf_put (byIP : AList fun _ : Addr => Finset ObservationKey) (ip other : Addr)
    (keys : Finset ObservationKey) :
    ((if keys = ∅ then byIP.erase ip else byIP.insert ip keys).lookup other).getD ∅ =
      if other = ip then keys else (byIP.lookup other).getD ∅ := by
  by_cases hip : other = ip
  · subst hip
    by_cases hk : keys = ∅ <;> simp [hk]
  · by_cases hk : keys = ∅ <;> simp [hk, hip, AList.lookup_erase_ne, AList.lookup_insert_ne]

theorem put_nonempty {byIP : AList fun _ : Addr => Finset ObservationKey} {ip : Addr}
    {keys : Finset ObservationKey}
    (h : ∀ other keys, byIP.lookup other = some keys → keys ≠ ∅) :
    ∀ other found, (if keys = ∅ then byIP.erase ip else byIP.insert ip keys).lookup other =
      some found → found ≠ ∅ := by
  intro other found hfound
  by_cases hip : other = ip
  · subst hip
    by_cases hk : keys = ∅
    · simp [hk] at hfound
    · have heq : keys = found := by simpa [hk] using hfound
      exact heq ▸ hk
  · apply h other found
    by_cases hk : keys = ∅
    · simpa [hk, hip, AList.lookup_erase_ne] using hfound
    · simpa [hk, hip, AList.lookup_insert_ne] using hfound

/-- Removing a key removes its item from every structure. -/
theorem removeLocked_spec (h : Linked table) (key : ObservationKey) :
    Linked (table.removeLocked key) ∧
      (table.removeLocked key).items = removeKey key table.items := by
  cases hl : table.entries.lookup key with
  | none =>
      have hsame : table.removeLocked key = table := by simp [removeLocked, hl]
      have hnot : key ∉ table.items.map Prod.fst := by
        rw [h.mem_map_fst_items]
        exact AList.lookup_eq_none.mp hl
      rw [hsame, removeKey_of_not_mem hnot]
      exact ⟨h, rfl⟩
  | some expires =>
      obtain ⟨hordered, hitems⟩ := h.ordered.erase key
      simp only [removeLocked, hl]
      refine ⟨⟨hordered, ?_, put_nonempty h.byIP_nonempty⟩, hitems⟩
      intro ip other
      rw [keysOf, keysOf_put]
      by_cases hip : ip = key.ip
      · subst hip
        rw [if_pos rfl, Finset.mem_erase, h.mem_keysOf, AList.mem_erase]
        tauto
      · rw [if_neg hip, ← keysOf, h.mem_keysOf, AList.mem_erase]
        constructor
        · rintro ⟨hmem, rfl⟩
          exact ⟨⟨fun heq => hip (heq ▸ rfl), hmem⟩, rfl⟩
        · rintro ⟨⟨-, hmem⟩, hip'⟩
          exact ⟨hmem, hip'⟩

/-- Making room always succeeds and drops the least recently observed entries. -/
theorem makeRoom_spec (h : Sound table) :
    ∃ room, table.makeRoom = some room ∧ Linked room ∧ room.capacity = table.capacity ∧
      room.expirations = table.expirations ∧
      room.items = table.items.drop (table.items.length + 1 - table.capacity) := by
  let Inv : LearningTable → Prop := fun t =>
    Linked t ∧ t.capacity = table.capacity ∧ t.expirations = table.expirations
  have hremove (t : LearningTable) (key : ObservationKey) (ht : Inv t) :
      Inv (t.removeLocked key) ∧ (t.removeLocked key).items = removeKey key t.items := by
    obtain ⟨hlinked, hitems⟩ := removeLocked_spec ht.1 key
    exact ⟨⟨hlinked, by simp [ht.2.1], by simp [ht.2.2]⟩, hitems⟩
  obtain ⟨room, hrun, ⟨hlinked, hcap, hheap⟩, hitems⟩ :=
    evictLoop_ordered entries lru (fun key t => t.removeLocked key) Inv h.capacity_pos
      (fun t ht => ht.1.ordered) hremove table ⟨h.linked, rfl, rfl⟩
  exact ⟨room, hrun, hlinked, hcap, hheap, hitems⟩

/-! ## Observation -/

theorem heapPush_sorted {heap : List ExpiryItem} (h : heap.Pairwise ExpiryItem.NotAfter)
    (item : ExpiryItem) : (heapPush item heap).Pairwise ExpiryItem.NotAfter :=
  h.orderedInsert item heap

theorem mem_heapPush {item other : ExpiryItem} {heap : List ExpiryItem} :
    other ∈ heapPush item heap ↔ other = item ∨ other ∈ heap :=
  List.mem_orderedInsert _

/-- A touched map is covered once the new item is on the heap. -/
theorem covered_touch {heap : List ExpiryItem} {items : List (ObservationKey × Int)}
    (h : Covered heap items) (cap : Nat) (key : ObservationKey) (expires : Int) :
    Covered (heapPush ⟨key, expires⟩ heap) (touchItems cap key expires items) := by
  intro other found hmem
  rcases mem_of_mem_touchItems hmem with ⟨rfl, rfl⟩ | ⟨hold, -⟩
  · exact mem_heapPush.mpr (Or.inl rfl)
  · exact mem_heapPush.mpr (Or.inr (h other found hold))

theorem refresh_linked (h : Linked table) {key : ObservationKey} (hkey : key ∈ table.entries)
    (expires : Int) :
    Linked (table.refresh key expires) ∧
      (table.refresh key expires).items = removeKey key table.items ++ [(key, expires)] := by
  obtain ⟨hordered, hitems⟩ := h.ordered.insert_back key expires
  refine ⟨⟨hordered, ?_, h.byIP_nonempty⟩, hitems⟩
  intro ip other
  change other ∈ table.keysOf ip ↔ other ∈ table.entries.insert key expires ∧ other.ip = ip
  rw [h.mem_keysOf, AList.mem_insert]
  constructor
  · rintro ⟨hmem, hip⟩
    exact ⟨Or.inr hmem, hip⟩
  · rintro ⟨rfl | hmem, hip⟩
    · exact ⟨hkey, hip⟩
    · exact ⟨hmem, hip⟩

theorem insertNew_linked (h : Linked table) {key : ObservationKey} (hkey : key ∉ table.entries)
    (expires : Int) :
    Linked (table.insertNew key expires) ∧
      (table.insertNew key expires).items = table.items ++ [(key, expires)] := by
  have hlru : key ∉ table.lru := fun hmem => hkey ((h.ordered.mem_iff key).mp hmem)
  have hfst : key ∉ table.items.map Prod.fst := by
    rwa [h.mem_map_fst_items]
  obtain ⟨hordered, hitems⟩ := h.ordered.insert_back key expires
  rw [List.erase_of_not_mem hlru] at hordered hitems
  refine ⟨⟨hordered, ?_, ?_⟩, ?_⟩
  · intro ip other
    change other ∈ ((table.byIP.insert key.ip _).lookup ip).getD ∅ ↔
      other ∈ table.entries.insert key expires ∧ other.ip = ip
    rw [AList.mem_insert]
    by_cases hip : ip = key.ip
    · subst hip
      rw [AList.lookup_insert, Option.getD_some, Finset.mem_insert, h.mem_keysOf]
      constructor
      · rintro (rfl | ⟨hmem, hip⟩)
        · exact ⟨Or.inl rfl, rfl⟩
        · exact ⟨Or.inr hmem, hip⟩
      · rintro ⟨rfl | hmem, hip⟩
        · exact Or.inl rfl
        · exact Or.inr ⟨hmem, hip⟩
    · rw [AList.lookup_insert_ne hip, ← keysOf, h.mem_keysOf]
      constructor
      · rintro ⟨hmem, hip'⟩
        exact ⟨Or.inr hmem, hip'⟩
      · rintro ⟨rfl | hmem, hip'⟩
        · exact absurd hip'.symm hip
        · exact ⟨hmem, hip'⟩
  · intro ip keys hfound
    by_cases hip : ip = key.ip
    · subst hip
      have heq : insert key (table.keysOf key.ip) = keys := by
        simpa [insertNew] using hfound
      exact heq ▸ Finset.insert_ne_empty key _
    · exact h.byIP_nonempty ip keys (by simpa [insertNew, AList.lookup_insert_ne hip] using hfound)
  · exact hitems.trans (congrArg (· ++ [(key, expires)]) (removeKey_of_not_mem hfst))

/-- Recording one address never fails and is one touch of the abstract map. -/
theorem observeKey_spec (h : Sound table) (key : ObservationKey) (expires : Int) :
    ∃ after, table.observeKey key expires = .ok after ∧ Sound after ∧
      after.capacity = table.capacity ∧
      after.items = touchItems table.capacity key expires table.items := by
  cases hl : table.entries.lookup key with
  | some old =>
      have hkey : key ∈ table.entries := AList.lookup_isSome.mp (by simp [hl])
      obtain ⟨hlinked, hitems⟩ := refresh_linked h.linked hkey expires
      have htouch := touchItems_of_mem (v := expires)
        (h.linked.mem_map_fst_items.mpr hkey) h.linked.nodup_items h.bounded
      rw [← htouch] at hitems
      refine ⟨table.refresh key expires, by simp [observeKey, hl],
        ⟨hlinked, h.capacity_pos, ?_, heapPush_sorted h.sorted _, ?_⟩, rfl, hitems⟩
      · rw [hitems]
        exact length_touchItems_le _ _ _ _
      · rw [hitems]
        exact covered_touch h.covered _ _ _
  | none =>
      have hkey : key ∉ table.entries := AList.lookup_eq_none.mp hl
      have hfst : key ∉ table.items.map Prod.fst := by
        rwa [h.linked.mem_map_fst_items]
      obtain ⟨room, hroom, hrlinked, hcap, hheap, hritems⟩ := makeRoom_spec h
      have hrkey : key ∉ room.entries := by
        rw [← hrlinked.mem_map_fst_items, hritems, List.map_drop]
        exact fun hmem => hfst (List.mem_of_mem_drop hmem)
      obtain ⟨hlinked, hitems⟩ := insertNew_linked hrlinked hrkey expires
      rw [hritems, ← touchItems_of_not_mem (v := expires) hfst h.capacity_pos] at hitems
      refine ⟨room.insertNew key expires, by simp [observeKey, hl, hroom],
        ⟨hlinked, ?_, ?_, ?_, ?_⟩, hcap, hitems⟩
      · exact hcap.symm ▸ h.capacity_pos
      · rw [hitems, insertNew, hcap]
        exact length_touchItems_le _ _ _ _
      · exact heapPush_sorted (hheap.symm ▸ h.sorted) _
      · change Covered (heapPush ⟨key, expires⟩ room.expirations) _
        rw [hheap, hitems]
        exact covered_touch h.covered _ _ _

end LearningTable

/-- The addresses an observation records: those before the first that is not
IPv4, each at its first place. -/
def recordedIPs : List Addr → List Addr → List Addr
  | [], _ => []
  | ip :: rest, seen =>
      if !ip.is4 || ip.is4In6 then []
      else if ip ∈ seen then recordedIPs rest seen
      else ip :: recordedIPs rest (ip :: seen)

/-- The keys an observation touches, in order; a rejected observation touches none. -/
def Observation.keys (observation : Observation) : List ObservationKey :=
  if observation.action ≠ .direct ∧ observation.action ≠ .proxy then []
  else if observation.expires = 0 then []
  else
    match normalizeDomain observation.domain with
    | .error _ => []
    | .ok domain =>
        (recordedIPs observation.ips []).map fun ip => ⟨domain, observation.action, ip⟩

/-- A known action, an expiry, a name that normalizes, and only IPv4 addresses. -/
def Observation.Acceptable (observation : Observation) : Prop :=
  (observation.action = .direct ∨ observation.action = .proxy) ∧ observation.expires ≠ 0 ∧
    (normalizeDomain observation.domain).isOk = true ∧
    ∀ ip ∈ observation.ips, (!ip.is4 || ip.is4In6) = false

instance Observation.Acceptable.decidable (observation : Observation) :
    Decidable observation.Acceptable :=
  inferInstanceAs (Decidable (_ ∧ _))

/-- Touch several keys in order. -/
def touchKeys (cap : Nat) (keys : List ObservationKey) (expires : Int)
    (items : List (ObservationKey × Int)) : List (ObservationKey × Int) :=
  keys.foldl (fun items key => touchItems cap key expires items) items

/-- A touched map holds the touched keys' new items and otherwise only old ones. -/
theorem mem_of_mem_touchKeys {cap : Nat} {expires : Int} {item : ObservationKey × Int} :
    ∀ {keys : List ObservationKey} {items : List (ObservationKey × Int)},
      item ∈ touchKeys cap keys expires items → item.1 ∈ keys ∧ item.2 = expires ∨ item ∈ items
  | [], _, h => Or.inr h
  | key :: rest, items, h => by
      change item ∈ touchKeys cap rest expires _ at h
      rcases mem_of_mem_touchKeys h with ⟨hmem, heq⟩ | hin
      · exact Or.inl ⟨List.mem_cons_of_mem _ hmem, heq⟩
      · rcases mem_of_mem_touchItems hin with ⟨hkey, heq⟩ | ⟨hold, -⟩
        · exact Or.inl ⟨hkey ▸ List.mem_cons_self, heq⟩
        · exact Or.inr hold

/-- With room for all keys nothing is evicted: the touched keys have their new
items, and the others keep theirs. -/
theorem mem_touchKeys_of_room {cap : Nat} {expires : Int} (keys : List ObservationKey)
    {items : List (ObservationKey × Int)} (hnd : (items.map Prod.fst).Nodup)
    (hlen : items.length ≤ cap)
    (hroom : ((items.map Prod.fst).toFinset ∪ keys.toFinset).card ≤ cap) :
    (∀ key ∈ keys, (key, expires) ∈ touchKeys cap keys expires items) ∧
      ∀ item ∈ items, item.1 ∉ keys → item ∈ touchKeys cap keys expires items := by
  induction keys generalizing items with
  | nil => exact ⟨fun key h => absurd h List.not_mem_nil, fun item hmem _ => hmem⟩
  | cons first rest ih =>
      have hcard : (items.map Prod.fst).toFinset.card = items.length := by
        rw [List.toFinset_card_of_nodup hnd, List.length_map]
      have hfirst : (insert first (items.map Prod.fst).toFinset).card ≤ cap := by
        have hsubset : insert first (items.map Prod.fst).toFinset ⊆
            (items.map Prod.fst).toFinset ∪ (first :: rest).toFinset := by
          intro key hkey
          simp only [Finset.mem_insert, Finset.mem_union, List.toFinset_cons] at hkey ⊢
          tauto
        exact (Finset.card_le_card hsubset).trans hroom
      have hroom' : items.length < cap ∨
          first ∈ items.map Prod.fst ∧ items.length ≤ cap := by
        by_cases hin : first ∈ items.map Prod.fst
        · exact Or.inr ⟨hin, hlen⟩
        · rw [Finset.card_insert_of_notMem (by simpa using hin), hcard] at hfirst
          exact Or.inl hfirst
      have hpos : 1 ≤ cap := (Finset.card_pos.mpr ⟨first, by simp⟩).trans_le hfirst
      have hsubset : ((touchItems cap first expires items).map Prod.fst).toFinset ∪ rest.toFinset ⊆
          (items.map Prod.fst).toFinset ∪ (first :: rest).toFinset := by
        intro key hkey
        rcases Finset.mem_union.mp hkey with htouched | hrest
        · obtain ⟨⟨key', value⟩, hmem, rfl⟩ := List.mem_map.mp (List.mem_toFinset.mp htouched)
          rcases mem_of_mem_touchItems hmem with ⟨rfl, -⟩ | ⟨hold, -⟩
          · simp
          · exact Finset.mem_union_left _ (List.mem_toFinset.mpr (List.mem_map_of_mem hold))
        · exact Finset.mem_union_right _ (by simpa using Or.inr (List.mem_toFinset.mp hrest))
      obtain ⟨htouched, hkept⟩ := ih (nodup_touchItems hnd)
        (length_touchItems_le cap first expires items) ((Finset.card_le_card hsubset).trans hroom)
      refine ⟨fun key hkey => ?_, fun item hmem hnot => ?_⟩
      · by_cases hrest : key ∈ rest
        · exact htouched key hrest
        · obtain rfl : key = first := (List.mem_cons.mp hkey).resolve_right hrest
          exact hkept _ (mem_touchItems_self hpos) hrest
      · obtain ⟨hne, hrest⟩ := not_or.mp (mt List.mem_cons.mpr hnot)
        exact hkept item (mem_touchItems_of_room hroom' hnd hmem hne) hrest

theorem mem_recordedIPs {ip : Addr} :
    ∀ {ips seen : List Addr}, (∀ ip ∈ ips, (!ip.is4 || ip.is4In6) = false) → ip ∈ ips →
      ip ∉ seen → ip ∈ recordedIPs ips seen
  | first :: rest, seen, hall, hmem, hseen => by
      obtain ⟨hfirst, hrest⟩ := List.forall_mem_cons.mp hall
      unfold recordedIPs
      rw [if_neg (by simp [hfirst])]
      by_cases heq : ip = first
      · subst heq
        rw [if_neg hseen]
        exact List.mem_cons_self
      · have hin : ip ∈ rest := (List.mem_cons.mp hmem).resolve_left heq
        split_ifs
        · exact mem_recordedIPs hrest hin hseen
        · refine List.mem_cons_of_mem _ (mem_recordedIPs hrest hin ?_)
          exact fun h => (List.mem_cons.mp h).elim heq hseen

theorem mem_of_mem_recordedIPs {ip : Addr} :
    ∀ {ips seen : List Addr}, ip ∈ recordedIPs ips seen → ip ∈ ips
  | first :: rest, seen, h => by
      unfold recordedIPs at h
      split_ifs at h
      · exact absurd h List.not_mem_nil
      · exact List.mem_cons_of_mem _ (mem_of_mem_recordedIPs h)
      · rcases List.mem_cons.mp h with rfl | hrest
        · exact List.mem_cons_self
        · exact List.mem_cons_of_mem _ (mem_of_mem_recordedIPs hrest)

/-- An observation touches its normalized name under its own, known action, at its
own addresses. -/
theorem Observation.of_mem_keys {observation : Observation} {key : ObservationKey}
    (h : key ∈ observation.keys) :
    (observation.action = .direct ∨ observation.action = .proxy) ∧
      normalizeDomain observation.domain = .ok key.domain ∧ key.action = observation.action ∧
      key.ip ∈ observation.ips := by
  unfold Observation.keys at h
  split_ifs at h with haction
  · exact absurd h List.not_mem_nil
  · exact absurd h List.not_mem_nil
  · cases hdomain : normalizeDomain observation.domain with
    | error err =>
        rw [hdomain] at h
        exact absurd h List.not_mem_nil
    | ok domain =>
        rw [hdomain] at h
        obtain ⟨ip, hip, rfl⟩ := List.mem_map.mp h
        refine ⟨?_, rfl, rfl, mem_of_mem_recordedIPs hip⟩
        exact or_iff_not_and_not.mpr haction

/-- An observation only touches its own addresses. -/
theorem Observation.ip_mem_of_mem_keys {observation : Observation} {key : ObservationKey}
    (h : key ∈ observation.keys) : key.ip ∈ observation.ips :=
  (of_mem_keys h).2.2.2

/-- An acceptable observation touches a key of each of its addresses. -/
theorem Observation.Acceptable.exists_key {observation : Observation}
    (h : observation.Acceptable) {ip : Addr} (hip : ip ∈ observation.ips) :
    ∃ key ∈ observation.keys, key.ip = ip := by
  obtain ⟨haction, hexpires, hdomain, hips⟩ := h
  unfold Observation.keys
  rw [if_neg (not_and_or.mpr (haction.imp not_not.mpr not_not.mpr)), if_neg hexpires]
  cases hname : normalizeDomain observation.domain with
  | error err =>
      rw [hname] at hdomain
      cases hdomain
  | ok domain =>
      exact ⟨_, List.mem_map_of_mem (mem_recordedIPs hips hip List.not_mem_nil), rfl⟩

namespace LearningTable

variable {table : LearningTable}

/-- The loop over addresses touches the recorded ones and never dereferences an empty list. -/
theorem observeIPs_spec (h : Sound table) (domain : Bytes) (action : Action) (expires : Int)
    (ips seen : List Addr) :
    let result := observeIPs domain action expires ips seen table
    Sound result.1 ∧ result.1.capacity = table.capacity ∧ result.2 ≠ some .nilFront ∧
      (result.2 = none ↔ ∀ ip ∈ ips, (!ip.is4 || ip.is4In6) = false) ∧
      result.1.items = touchKeys table.capacity
        ((recordedIPs ips seen).map fun ip => ⟨domain, action, ip⟩) expires table.items := by
  induction ips generalizing seen table with
  | nil => exact ⟨h, rfl, by simp [observeIPs], by simp [observeIPs], rfl⟩
  | cons ip rest ih =>
      by_cases hbad : (!ip.is4 || ip.is4In6) = true
      · simp only [observeIPs, recordedIPs, if_pos hbad]
        exact ⟨h, trivial, by simp, by simp only [List.forall_mem_cons, hbad]; simp, rfl⟩
      · have hgood : (!ip.is4 || ip.is4In6) = false := Bool.not_eq_true _ ▸ hbad
        have hall : (∀ other ∈ ip :: rest, (!other.is4 || other.is4In6) = false) ↔
            ∀ other ∈ rest, (!other.is4 || other.is4In6) = false := by
          rw [List.forall_mem_cons]
          exact and_iff_right hgood
        by_cases hseen : ip ∈ seen
        · simp only [observeIPs, recordedIPs, if_neg hbad, if_pos hseen]
          obtain ⟨h₁, h₂, h₃, h₄, h₅⟩ := ih h seen
          exact ⟨h₁, h₂, h₃, h₄.trans hall.symm, h₅⟩
        · obtain ⟨after, hrun, hsound, hcap, hitems⟩ :=
            observeKey_spec h ⟨domain, action, ip⟩ expires
          simp only [observeIPs, recordedIPs, if_neg hbad, if_neg hseen, hrun]
          obtain ⟨h₁, h₂, h₃, h₄, h₅⟩ := ih hsound (ip :: seen)
          refine ⟨h₁, h₂.trans hcap, h₃, h₄.trans hall.symm, ?_⟩
          rw [h₅, hcap, hitems]
          rfl

/-- An observation touches its keys in order, whether or not it ends in an error. -/
theorem observe_spec (h : Sound table) (observation : Observation) :
    Sound (table.observe observation).1 ∧
      (table.observe observation).1.capacity = table.capacity ∧
      (table.observe observation).2 ≠ some .nilFront ∧
      (table.observe observation).1.items =
        touchKeys table.capacity observation.keys observation.expires table.items := by
  unfold observe Observation.keys
  split_ifs
  · exact ⟨h, rfl, by simp, rfl⟩
  · exact ⟨h, rfl, by simp, rfl⟩
  · cases normalizeDomain observation.domain with
    | error err => exact ⟨h, rfl, by simp, rfl⟩
    | ok domain =>
        obtain ⟨h₁, h₂, h₃, -, h₅⟩ := observeIPs_spec h domain observation.action
          observation.expires observation.ips []
        exact ⟨h₁, h₂, h₃, h₅⟩

/-- An observation is recorded without an error exactly when it is acceptable. -/
theorem observe_eq_none_iff (h : Sound table) (observation : Observation) :
    (table.observe observation).2 = none ↔ observation.Acceptable := by
  unfold observe Observation.Acceptable
  split_ifs with haction hexpires
  · simp [haction]
  · simp [hexpires]
  · have hknown : observation.action = .direct ∨ observation.action = .proxy := by
      by_contra hnot
      exact haction (not_or.mp hnot)
    cases hdomain : normalizeDomain observation.domain with
    | error err => simp [Except.isOk, Except.toBool]
    | ok domain =>
        obtain ⟨-, -, -, hips, -⟩ := observeIPs_spec h domain observation.action
          observation.expires observation.ips []
        simpa [hknown, hexpires, Except.isOk, Except.toBool] using hips

/-- Recording one address pushes one item, also when an entry is refreshed or evicted. -/
theorem observeKey_expirations (h : Sound table) {key : ObservationKey} {expires : Int}
    {after : LearningTable} (hrun : table.observeKey key expires = .ok after) :
    after.expirations = heapPush ⟨key, expires⟩ table.expirations := by
  cases hl : table.entries.lookup key with
  | some old =>
      simp only [observeKey, hl, Except.ok.injEq] at hrun
      rw [← hrun]
      rfl
  | none =>
      obtain ⟨room, hroom, -, -, hheap, -⟩ := makeRoom_spec h
      simp only [observeKey, hl, hroom, Except.ok.injEq] at hrun
      rw [← hrun, ← hheap]
      rfl

theorem observeIPs_expirations (h : Sound table) (domain : Bytes) (action : Action)
    (expires : Int) (ips seen : List Addr) :
    (observeIPs domain action expires ips seen table).1.expirations.Perm
      ((recordedIPs ips seen).map (fun ip => ⟨⟨domain, action, ip⟩, expires⟩) ++
        table.expirations) := by
  induction ips generalizing seen table with
  | nil => exact List.Perm.refl _
  | cons ip rest ih =>
      by_cases hbad : (!ip.is4 || ip.is4In6) = true
      · simp only [observeIPs, recordedIPs, if_pos hbad]
        exact List.Perm.refl _
      · by_cases hseen : ip ∈ seen
        · simp only [observeIPs, recordedIPs, if_neg hbad, if_pos hseen]
          exact ih h seen
        · obtain ⟨after, hrun, hsound, -⟩ := observeKey_spec h ⟨domain, action, ip⟩ expires
          simp only [observeIPs, recordedIPs, if_neg hbad, if_neg hseen, hrun]
          refine (ih hsound (ip :: seen)).trans ?_
          rw [observeKey_expirations h hrun, List.map_cons, List.cons_append]
          refine List.Perm.trans ?_ List.perm_middle
          exact List.Perm.append_left _ (List.perm_orderedInsert _ _ _)

/-- An observation pushes one item for each key it touches. -/
theorem observe_expirations (h : Sound table) (observation : Observation) :
    (table.observe observation).1.expirations.Perm
      (observation.keys.map (fun key => ⟨key, observation.expires⟩) ++ table.expirations) := by
  unfold observe Observation.keys
  split_ifs
  · exact List.Perm.refl _
  · exact List.Perm.refl _
  · cases normalizeDomain observation.domain with
    | error err => exact List.Perm.refl _
    | ok domain =>
        rw [List.map_map]
        exact observeIPs_expirations h domain observation.action observation.expires
          observation.ips []

/-! ## Expiry -/

/-- What the abstract map keeps at a time. -/
def live (now : Int) (item : ObservationKey × Int) : Bool := now < item.2

/-- What expiry makes of a table: the live entries are kept, and the addresses of the
others join those that had changed. -/
structure Expired (now : Int) (table : LearningTable) (changed : List Addr)
    (result : LearningTable × List Addr) : Prop where
  linked : Linked result.1
  capacity : result.1.capacity = table.capacity
  items : result.1.items = table.items.filter (live now)
  sorted : result.1.expirations.Pairwise ExpiryItem.NotAfter
  covered : Covered result.1.expirations result.1.items
  reported : ∀ ip, ip ∈ result.2 ↔ ip ∈ changed ∨
    ∃ key expires, (key, expires) ∈ table.items ∧ expires ≤ now ∧ key.ip = ip

section Expired

variable {now : Int} {changed : List Addr} {heap : List ExpiryItem} {item : ExpiryItem}

theorem Expired.of_live (h : Linked table) (hlive : ∀ found ∈ table.items, live now found = true)
    (hsorted : heap.Pairwise ExpiryItem.NotAfter) (hcovered : Covered heap table.items) :
    Expired now table changed ({ table with expirations := heap }, changed) := by
  refine ⟨⟨h.ordered, h.mem_keysOf, h.byIP_nonempty⟩, rfl, ?_, hsorted, hcovered, ?_⟩
  · exact (List.filter_eq_self.mpr hlive).symm
  · intro ip
    refine ⟨Or.inl, ?_⟩
    rintro (hin | ⟨key, expires, hmem, hle, -⟩)
    · exact hin
    · have hlt := hlive _ hmem
      simp only [live, decide_eq_true_eq] at hlt
      omega

/-- The heap's first item is not due, so nothing on it is. -/
theorem Covered.live_of_first (hcovered : Covered (item :: heap) table.items)
    (hfirst : ∀ later ∈ heap, item.NotAfter later) (hdue : now < item.expires) :
    ∀ found ∈ table.items, live now found = true := by
  rintro ⟨key, expires⟩ hmem
  rcases List.mem_cons.mp (hcovered key expires hmem) with heq | hin
  · subst heq
    simpa [live] using hdue
  · have hle : item.expires ≤ expires := hfirst _ hin
    simp only [live, decide_eq_true_eq]
    omega

/-- The item belongs to an entry that is due: the entry goes. -/
theorem Expired.of_removeLocked (h : Linked table) (hdue : ¬ now < item.expires)
    (hown : table.entries.lookup item.key = some item.expires)
    {result : LearningTable × List Addr}
    (hrest : Expired now (table.removeLocked item.key) (changed.insert item.key.ip) result) :
    Expired now table changed result := by
  obtain ⟨-, hitems⟩ := removeLocked_spec h item.key
  have hmem : (item.key, item.expires) ∈ table.items := h.mem_items.mpr hown
  have hkept : ∀ key expires, (key, expires) ∈ table.items → now < expires → key ≠ item.key := by
    rintro key expires hin hlt rfl
    have heq : expires = item.expires := Option.some.inj ((h.mem_items.mp hin).symm.trans hown)
    omega
  refine ⟨hrest.linked, by rw [hrest.capacity, removeLocked_capacity], ?_, hrest.sorted,
    hrest.covered, ?_⟩
  · rw [hrest.items, hitems, removeKey, List.filter_filter]
    apply List.filter_congr
    rintro ⟨key, expires⟩ hin
    by_cases hlt : now < expires
    · simp [live, hlt, hkept key expires hin hlt]
    · simp [live, hlt]
  · intro ip
    rw [hrest.reported, List.mem_insert_iff, hitems]
    constructor
    · rintro ((rfl | hin) | ⟨key, expires, hin, hle, hip⟩)
      · exact Or.inr ⟨item.key, item.expires, hmem, by omega, rfl⟩
      · exact Or.inl hin
      · exact Or.inr ⟨key, expires, (mem_removeKey.mp hin).1, hle, hip⟩
    · rintro (hin | ⟨key, expires, hin, hle, hip⟩)
      · exact Or.inl (Or.inr hin)
      · by_cases hkey : key = item.key
        · exact Or.inl (Or.inl (hkey ▸ hip.symm))
        · exact Or.inr ⟨key, expires, mem_removeKey.mpr ⟨hin, hkey⟩, hle, hip⟩

theorem Covered.removeLocked (hcovered : Covered (item :: heap) table.items) (h : Linked table) :
    Covered heap (table.removeLocked item.key).items := by
  intro key expires hin
  rw [(removeLocked_spec h item.key).2, mem_removeKey] at hin
  rcases List.mem_cons.mp (hcovered key expires hin.1) with heq | hheap
  · exact absurd (congrArg ExpiryItem.key heq) hin.2
  · exact hheap

/-- A stale item, whose key is gone or was refreshed and has a later item. -/
theorem Covered.of_stale (hcovered : Covered (item :: heap) table.items) (h : Linked table)
    (hstale : table.entries.lookup item.key ≠ some item.expires) : Covered heap table.items := by
  intro key expires hin
  rcases List.mem_cons.mp (hcovered key expires hin) with heq | hheap
  · subst heq
    exact absurd (h.mem_items.mp hin) hstale
  · exact hheap

theorem expireLoop_stale (hdue : ¬ now < item.expires)
    (hstale : table.entries.lookup item.key ≠ some item.expires) :
    expireLoop now (item :: heap) table changed = expireLoop now heap table changed := by
  simp only [expireLoop, if_neg hdue]
  cases hl : table.entries.lookup item.key with
  | none => rfl
  | some expires =>
      have hne : expires ≠ item.expires := fun heq => hstale (heq ▸ hl)
      simp [hne]

end Expired

/-- Popping due items drops exactly the entries that are due: a stale item
changes nothing, and an entry's own item is still on the heap. -/
theorem expireLoop_spec (h : Linked table) (now : Int) (heap : List ExpiryItem)
    (hsorted : heap.Pairwise ExpiryItem.NotAfter) (hcovered : Covered heap table.items)
    (changed : List Addr) : Expired now table changed (expireLoop now heap table changed) := by
  induction heap generalizing table changed with
  | nil =>
      refine Expired.of_live h (fun found hmem => ?_) hsorted hcovered
      exact absurd (hcovered found.1 found.2 hmem) (by simp)
  | cons item heap ih =>
      obtain ⟨hfirst, hrest⟩ := List.pairwise_cons.mp hsorted
      by_cases hdue : now < item.expires
      · simp only [expireLoop, if_pos hdue]
        exact Expired.of_live h (hcovered.live_of_first hfirst hdue) hsorted hcovered
      · by_cases hown : table.entries.lookup item.key = some item.expires
        · simp only [expireLoop, if_neg hdue, hown, ne_eq, not_true_eq_false, if_false]
          refine Expired.of_removeLocked h hdue hown ?_
          exact ih (removeLocked_spec h item.key).1 hrest (hcovered.removeLocked h) _
        · rw [expireLoop_stale hdue hown]
          exact ih h hrest (hcovered.of_stale h hown) changed

/-- Expiry keeps exactly the entries that expire later, and reports the others' addresses. -/
theorem expireLocked_spec (h : Sound table) (now : Int) :
    Sound (table.expireLocked now).1 ∧
      (table.expireLocked now).1.capacity = table.capacity ∧
      (table.expireLocked now).1.items = table.items.filter (live now) ∧
      ∀ ip, ip ∈ (table.expireLocked now).2 ↔
        ∃ key expires, (key, expires) ∈ table.items ∧ expires ≤ now ∧ key.ip = ip := by
  obtain ⟨h₁, h₂, h₃, h₄, h₅, h₆⟩ :=
    expireLoop_spec h.linked now table.expirations h.sorted h.covered []
  refine ⟨⟨h₁, h₂ ▸ h.capacity_pos, ?_, h₄, h₅⟩, h₂, h₃, ?_⟩
  · change (expireLoop now table.expirations table []).1.items.length ≤
      (expireLoop now table.expirations table []).1.capacity
    rw [h₃, h₂]
    exact (List.length_filter_le _ _).trans h.bounded
  · intro ip
    exact (h₆ ip).trans (by simp)

theorem expireLoop_expirations {now : Int} {heap : List ExpiryItem}
    (hsorted : heap.Pairwise ExpiryItem.NotAfter) (table : LearningTable) (changed : List Addr) :
    (expireLoop now heap table changed).1.expirations =
      heap.filter (fun item => now < item.expires) := by
  induction heap generalizing table changed with
  | nil => rfl
  | cons item heap ih =>
      obtain ⟨hfirst, hrest⟩ := List.pairwise_cons.mp hsorted
      by_cases hdue : now < item.expires
      · have hall : ∀ other ∈ item :: heap, decide (now < other.expires) = true := by
          intro other hmem
          rcases List.mem_cons.mp hmem with rfl | hother
          · exact decide_eq_true hdue
          · exact decide_eq_true (hdue.trans_le (hfirst other hother))
        simp only [expireLoop, if_pos hdue]
        exact (List.filter_eq_self.mpr hall).symm
      · rw [List.filter_cons_of_neg (by simpa using hdue)]
        by_cases hown : table.entries.lookup item.key = some item.expires
        · simp only [expireLoop, if_neg hdue, hown, ne_eq, not_true_eq_false, if_false]
          exact ih hrest _ _
        · rw [expireLoop_stale hdue hown]
          exact ih hrest table changed

/-- Expiry pops exactly the items that are due. -/
theorem expireLocked_expirations (h : Sound table) (now : Int) :
    (table.expireLocked now).1.expirations =
      table.expirations.filter (fun item => now < item.expires) :=
  expireLoop_expirations h.sorted table []

end LearningTable

/-! ## Reading the table -/

/-- Some item ties the address to the action. -/
def observed (items : List (ObservationKey × Int)) (ip : Addr) (action : Action) : Bool :=
  items.any fun item => item.1.ip = ip && item.1.action = action

theorem observed_iff {items : List (ObservationKey × Int)} {ip : Addr} {action : Action} :
    observed items ip action = true ↔
      ∃ key expires, (key, expires) ∈ items ∧ key.ip = ip ∧ key.action = action := by
  simp [observed]

namespace LearningTable

variable {table : LearningTable}

theorem exists_keysOf_iff (h : Linked table) (ip : Addr) (action : Action) :
    (∃ key ∈ table.keysOf ip, key.action = action) ↔ observed table.items ip action = true := by
  rw [observed_iff]
  constructor
  · rintro ⟨key, hkey, haction⟩
    obtain ⟨hmem, hip⟩ := (h.mem_keysOf ip key).mp hkey
    obtain ⟨expires, hl⟩ := Option.isSome_iff_exists.mp (AList.lookup_isSome.mpr hmem)
    exact ⟨key, expires, h.mem_items.mpr hl, hip, haction⟩
  · rintro ⟨key, expires, hin, hip, haction⟩
    have hmem : key ∈ table.entries := by
      rw [← h.mem_map_fst_items]
      exact List.mem_map_of_mem hin
    exact ⟨key, (h.mem_keysOf ip key).mpr ⟨hmem, hip⟩, haction⟩

/-- The decision for an address is read off the items. -/
theorem lookupLocked_eq (h : Linked table) (ip : Addr) :
    (table.lookupLocked ip).direct = observed table.items ip .direct ∧
      (table.lookupLocked ip).proxy = observed table.items ip .proxy ∧
      (table.lookupLocked ip).inspect =
        (observed table.items ip .direct && observed table.items ip .proxy) := by
  have hflag : ∀ action, decide (∃ key ∈ table.keysOf ip, key.action = action) =
      observed table.items ip action := by
    intro action
    rw [Bool.eq_iff_iff, decide_eq_true_eq, exists_keysOf_iff h]
  refine ⟨hflag .direct, hflag .proxy, ?_⟩
  simp only [lookupLocked]
  rw [hflag, hflag]

/-- A lookup sees exactly what is live at its time. -/
theorem lookup_spec (h : Sound table) (ip : Addr) (now : Int) :
    (table.lookup ip now).2.direct = observed (table.items.filter (live now)) ip .direct ∧
      (table.lookup ip now).2.proxy = observed (table.items.filter (live now)) ip .proxy ∧
      (table.lookup ip now).2.inspect =
        (observed (table.items.filter (live now)) ip .direct &&
          observed (table.items.filter (live now)) ip .proxy) := by
  obtain ⟨hsound, -, hitems, -⟩ := expireLocked_spec h now
  rw [← hitems]
  exact lookupLocked_eq hsound.linked ip

end LearningTable

/-- The flag of a learned decision that stands for an action. -/
def LearnedDecision.reports (decision : LearnedDecision) : Action → Bool
  | .direct => decision.direct
  | .proxy => decision.proxy
  | .unknown => false

/-- A lookup reports the action of every live item of the address. -/
theorem LearningTable.lookup_reports {table : LearningTable} (h : table.Sound)
    {key : ObservationKey} {expires now : Int} (hmem : (key, expires) ∈ table.items)
    (hlive : now < expires) (hknown : key.action = .direct ∨ key.action = .proxy) :
    (table.lookup key.ip now).2.reports key.action = true := by
  obtain ⟨hdirect, hproxy, -⟩ := lookup_spec h key.ip now
  have hobserved : observed (table.items.filter (live now)) key.ip key.action = true :=
    observed_iff.mpr ⟨key, expires, List.mem_filter.mpr ⟨hmem, by simpa [live]⟩, rfl, rfl⟩
  rcases hknown with haction | haction
  · rw [haction] at hobserved ⊢
    exact hdirect.trans hobserved
  · rw [haction] at hobserved ⊢
    exact hproxy.trans hobserved

end Hy2Route.Policy
