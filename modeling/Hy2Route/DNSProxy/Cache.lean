import Hy2Route.DNSProxy.Message
import Hy2Route.Foundation.Recency

/-!
# The response cache

A bounded cache in order of use. Its keys are lower-cased names with their
query type, and an entry is served until it expires.
-/

namespace Hy2Route.DNSProxy

open Foundation

structure CacheKey where
  name : Bytes
  qtype : Nat
  deriving DecidableEq

structure CacheEntry where
  response : Msg
  expires : Int
  deriving DecidableEq

structure Cache where
  capacity : Nat
  entries : AList fun _ : CacheKey => CacheEntry
  lru : List CacheKey

def newCache (capacity : Int) : Cache where
  capacity := if capacity < 1 then 1 else capacity.toNat
  entries := ∅
  lru := []

def cacheKey (name : Bytes) (qtype : Nat) : CacheKey := ⟨toLower name, qtype⟩

namespace Cache

def removeLocked (cache : Cache) (key : CacheKey) : Cache :=
  match cache.entries.lookup key with
  | none => cache
  | some _ => { cache with lru := cache.lru.erase key, entries := cache.entries.erase key }

def get (cache : Cache) (name : Bytes) (qtype : Nat) (now : Int) : Cache × Option Msg :=
  let key := cacheKey name qtype
  match cache.entries.lookup key with
  | none => (cache, none)
  | some entry =>
      if now < entry.expires then
        ({ cache with lru := cache.lru.erase key ++ [key] }, some entry.response)
      else (cache.removeLocked key, none)

/-- Remove the least recently used entries until there is room for one more. -/
def makeRoom (cache : Cache) : Option Cache :=
  evictLoop (fun c : Cache => c.entries.keys.length) (fun c => c.lru.head?)
    (fun key c => c.removeLocked key) cache.capacity cache.entries.keys.length cache

/-- Store a response; there is no result when the front of an empty list would
be dereferenced. -/
def put (cache : Cache) (name : Bytes) (qtype : Nat) (response : Msg) (expires : Int) :
    Option Cache :=
  if ¬ 0 < expires then some cache
  else
    let key := cacheKey name qtype
    match cache.entries.lookup key with
    | some _ =>
        some { cache with
          entries := cache.entries.insert key ⟨response, expires⟩
          lru := cache.lru.erase key ++ [key] }
    | none =>
        match cache.makeRoom with
        | none => none
        | some cache =>
            some { cache with
              lru := cache.lru ++ [key]
              entries := cache.entries.insert key ⟨response, expires⟩ }

/-- The cache has an entry for the query that has not expired. -/
def Serves (cache : Cache) (name : Bytes) (qtype : Nat) (now : Int) : Prop :=
  ∃ entry, cache.entries.lookup (cacheKey name qtype) = some entry ∧ now < entry.expires

theorem get_eq_none_iff (cache : Cache) (name : Bytes) (qtype : Nat) (now : Int) :
    (cache.get name qtype now).2 = none ↔ ¬ cache.Serves name qtype now := by
  cases hl : cache.entries.lookup (cacheKey name qtype) with
  | none => simp [get, Serves, hl]
  | some entry => by_cases hlive : now < entry.expires <;> simp [get, Serves, hl, hlive]

/-! ## The cache as a bounded map in order of use -/

/-- The entries from the least to the most recently used. -/
def items (cache : Cache) : List (CacheKey × CacheEntry) := orderedItems cache.entries cache.lru

structure Sound (cache : Cache) : Prop where
  ordered : OrderedBy cache.entries cache.lru
  capacity_pos : 1 ≤ cache.capacity
  bounded : cache.items.length ≤ cache.capacity

variable {cache : Cache}

theorem mem_map_fst_items (h : OrderedBy cache.entries cache.lru) {key : CacheKey} :
    key ∈ cache.items.map Prod.fst ↔ key ∈ cache.entries := by
  rw [items, h.map_fst_orderedItems, h.mem_iff]

theorem nodup_items (h : OrderedBy cache.entries cache.lru) : (cache.items.map Prod.fst).Nodup :=
  h.map_fst_orderedItems ▸ h.nodup

@[simp] theorem newCache_items (capacity : Int) : (newCache capacity).items = [] := rfl

theorem newCache_sound (capacity : Int) : (newCache capacity).Sound where
  ordered := ⟨List.nodup_nil, by simp [newCache]⟩
  capacity_pos := by
    simp only [newCache]
    split_ifs <;> omega
  bounded := Nat.zero_le _

theorem removeLocked_spec (h : OrderedBy cache.entries cache.lru) (key : CacheKey) :
    OrderedBy (cache.removeLocked key).entries (cache.removeLocked key).lru ∧
      (cache.removeLocked key).capacity = cache.capacity ∧
      (cache.removeLocked key).items = removeKey key cache.items := by
  cases hl : cache.entries.lookup key with
  | none =>
      have hnot : key ∉ cache.items.map Prod.fst := by
        rw [mem_map_fst_items h]
        exact AList.lookup_eq_none.mp hl
      simp only [removeLocked, hl]
      exact ⟨h, trivial, (removeKey_of_not_mem hnot).symm⟩
  | some entry =>
      obtain ⟨hordered, hitems⟩ := h.erase key
      simp only [removeLocked, hl]
      exact ⟨hordered, trivial, hitems⟩

/-- A lookup serves a live entry and keeps it as the last used, or removes what
the key has. -/
theorem get_spec (h : cache.Sound) (name : Bytes) (qtype : Nat) (now : Int) :
    let key := cacheKey name qtype
    let result := cache.get name qtype now
    result.1.Sound ∧
      ((∃ entry, (key, entry) ∈ cache.items ∧ now < entry.expires ∧
          result.2 = some entry.response ∧
          result.1.items = removeKey key cache.items ++ [(key, entry)]) ∨
        result.2 = none ∧ result.1.items = removeKey key cache.items) := by
  intro key result
  have hshrink : ∀ items : List (CacheKey × CacheEntry), (removeKey key items).length ≤
      items.length := fun items => List.length_filter_le _ _
  cases hl : cache.entries.lookup key with
  | none =>
      have hresult : result = (cache, none) := by simp only [result, get, key, hl] at *
      have hnot : key ∉ cache.items.map Prod.fst := by
        rw [mem_map_fst_items h.ordered]
        exact AList.lookup_eq_none.mp hl
      rw [hresult]
      exact ⟨h, Or.inr ⟨rfl, (removeKey_of_not_mem hnot).symm⟩⟩
  | some entry =>
      have hmem : (key, entry) ∈ cache.items := h.ordered.mem_orderedItems.mpr hl
      by_cases hlive : now < entry.expires
      · obtain ⟨hordered, hitems⟩ := h.ordered.move_back hl
        have hresult : result =
            ({ cache with lru := cache.lru.erase key ++ [key] }, some entry.response) := by
          simp only [result, get, key] at hl ⊢
          simp only [hl, if_pos hlive]
        have hlen : (removeKey key cache.items).length + 1 = cache.items.length :=
          length_removeKey_of_mem (List.mem_map_of_mem hmem) (nodup_items h.ordered)
        rw [hresult]
        refine ⟨⟨hordered, h.capacity_pos, ?_⟩, Or.inl ⟨entry, hmem, hlive, rfl, hitems⟩⟩
        calc (orderedItems cache.entries (cache.lru.erase key ++ [key])).length
            = (removeKey key cache.items).length + 1 := by
              rw [hitems, List.length_append, List.length_singleton]
              rfl
          _ = cache.items.length := hlen
          _ ≤ cache.capacity := h.bounded
      · obtain ⟨hordered, hcap, hitems⟩ := removeLocked_spec h.ordered key
        have hresult : result = (cache.removeLocked key, none) := by
          simp only [result, get, key] at hl ⊢
          simp only [hl, if_neg hlive]
        rw [hresult]
        refine ⟨⟨hordered, hcap.symm ▸ h.capacity_pos, ?_⟩, Or.inr ⟨rfl, hitems⟩⟩
        rw [hitems, hcap]
        exact (hshrink _).trans h.bounded

theorem makeRoom_spec (h : cache.Sound) :
    ∃ room, cache.makeRoom = some room ∧ OrderedBy room.entries room.lru ∧
      room.capacity = cache.capacity ∧
      room.items = cache.items.drop (cache.items.length + 1 - cache.capacity) := by
  let Inv : Cache → Prop := fun c => OrderedBy c.entries c.lru ∧ c.capacity = cache.capacity
  have hremove (c : Cache) (key : CacheKey) (hc : Inv c) :
      Inv (c.removeLocked key) ∧ (c.removeLocked key).items = removeKey key c.items := by
    obtain ⟨hordered, hcap, hitems⟩ := removeLocked_spec hc.1 key
    exact ⟨⟨hordered, hcap.trans hc.2⟩, hitems⟩
  obtain ⟨room, hrun, ⟨hordered, hcap⟩, hitems⟩ :=
    evictLoop_ordered entries lru (fun key c => c.removeLocked key) Inv h.capacity_pos
      (fun c hc => hc.1) hremove cache ⟨h.ordered, rfl⟩
  exact ⟨room, hrun, hordered, hcap, hitems⟩

/-- Storing never fails, and is one touch of the abstract map unless the expiry
is the zero time. -/
theorem put_spec (h : cache.Sound) (name : Bytes) (qtype : Nat) (response : Msg) (expires : Int) :
    ∃ after, cache.put name qtype response expires = some after ∧ after.Sound ∧
      after.items =
        if 0 < expires then
          touchItems cache.capacity (cacheKey name qtype) ⟨response, expires⟩ cache.items
        else cache.items := by
  by_cases hpos : 0 < expires
  · have hput : ¬ ¬ 0 < expires := not_not.mpr hpos
    rw [if_pos hpos]
    cases hl : cache.entries.lookup (cacheKey name qtype) with
    | some old =>
        have hkey : cacheKey name qtype ∈ cache.entries := AList.lookup_isSome.mp (by simp [hl])
        obtain ⟨hordered, hitems⟩ := h.ordered.insert_back (cacheKey name qtype) ⟨response, expires⟩
        have htouch := touchItems_of_mem (v := (⟨response, expires⟩ : CacheEntry))
          ((mem_map_fst_items h.ordered).mpr hkey) (nodup_items h.ordered) h.bounded
        have hitems' := hitems.trans htouch.symm
        refine ⟨⟨cache.capacity, cache.entries.insert (cacheKey name qtype) ⟨response, expires⟩,
            cache.lru.erase (cacheKey name qtype) ++ [cacheKey name qtype]⟩,
          by simp only [put, if_neg hput, hl], ⟨hordered, h.capacity_pos, ?_⟩, hitems'⟩
        exact (congrArg List.length hitems').trans_le (length_touchItems_le _ _ _ _)
    | none =>
        have hkey : cacheKey name qtype ∉ cache.entries := AList.lookup_eq_none.mp hl
        have hfst : cacheKey name qtype ∉ cache.items.map Prod.fst := by
          rwa [mem_map_fst_items h.ordered]
        obtain ⟨room, hroom, hordered, hcap, hitems⟩ := makeRoom_spec h
        have hrfst : cacheKey name qtype ∉ room.items.map Prod.fst := by
          rw [hitems, List.map_drop]
          exact fun hmem => hfst (List.mem_of_mem_drop hmem)
        have hlru : cacheKey name qtype ∉ room.lru := by
          rwa [hordered.mem_iff, ← mem_map_fst_items hordered]
        obtain ⟨hback, hbitems⟩ := hordered.insert_back (cacheKey name qtype) ⟨response, expires⟩
        rw [List.erase_of_not_mem hlru] at hback hbitems
        have hitems' : orderedItems (room.entries.insert (cacheKey name qtype) ⟨response, expires⟩)
            (room.lru ++ [cacheKey name qtype]) =
            touchItems cache.capacity (cacheKey name qtype) ⟨response, expires⟩ cache.items := by
          rw [hbitems, ← items, removeKey_of_not_mem hrfst, hitems,
            touchItems_of_not_mem hfst h.capacity_pos]
        refine ⟨⟨room.capacity, room.entries.insert (cacheKey name qtype) ⟨response, expires⟩,
            room.lru ++ [cacheKey name qtype]⟩, by simp only [put, if_neg hput, hl, hroom],
          ⟨hback, hcap.symm ▸ h.capacity_pos, ?_⟩, hitems'⟩
        exact (congrArg List.length hitems').trans_le
          (hcap.symm ▸ length_touchItems_le _ _ _ _)
  · rw [if_neg hpos]
    exact ⟨cache, by simp only [put, if_pos hpos], h, rfl⟩

end Cache

end Hy2Route.DNSProxy
