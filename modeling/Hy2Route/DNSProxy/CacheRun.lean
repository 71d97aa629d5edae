import Hy2Route.DNSProxy.Cache
import Hy2Route.Foundation.Runs

/-!
# Runs of the response cache

Over any sequence of calls the cache is a bounded map in order of use. What it serves
is the response that was stored last under the key, unless that was evicted, or was
looked up at or after its expiry: an expired entry is removed when it is found, so it
stays away even from a lookup with an earlier time.
-/

namespace Hy2Route.DNSProxy

open Foundation

inductive CacheCall where
  | get (name : Bytes) (qtype : Nat) (now : Int)
  | put (name : Bytes) (qtype : Nat) (response : Option Msg) (expires : Int)

/-- The cache after a call. -/
def Cache.call (cache : Cache) : CacheCall → Cache
  | .get name qtype now => (cache.get name qtype now).1
  | .put _ _ none _ => cache
  | .put name qtype (some response) expires => (cache.put name qtype response expires).getD cache

/-- What a call stores; a call without a response, or with an expiry that is not after
the zero time, is ignored. -/
def CacheCall.stored : CacheCall → Option (CacheKey × CacheEntry)
  | .get _ _ _ => none
  | .put _ _ none _ => none
  | .put name qtype (some response) expires =>
      if 0 < expires then some (cacheKey name qtype, ⟨response, expires⟩) else none

/-- The key that a call uses. -/
def Cache.used (cache : Cache) : CacheCall → Option CacheKey
  | .get name qtype now => (cache.get name qtype now).2.map fun _ => cacheKey name qtype
  | c@(.put _ _ _ _) => c.stored.map Prod.fst

/-- A cache with the keys that were used, the latest in front. -/
structure LoggedCache where
  cache : Cache
  log : List CacheKey

def LoggedCache.call (s : LoggedCache) (c : CacheCall) : LoggedCache :=
  ⟨s.cache.call c, (s.cache.used c).toList ++ s.log⟩

/-- What a call does to the items. -/
inductive CacheStep (cache : Cache) : CacheCall → Cache → Prop where
  | hit {after : Cache} (name : Bytes) (qtype : Nat) (now : Int) (entry : CacheEntry)
      (mem : (cacheKey name qtype, entry) ∈ cache.items) (live : now < entry.expires)
      (used : cache.used (.get name qtype now) = some (cacheKey name qtype))
      (items : after.items =
        removeKey (cacheKey name qtype) cache.items ++ [(cacheKey name qtype, entry)]) :
      CacheStep cache (.get name qtype now) after
  | missed {after : Cache} (name : Bytes) (qtype : Nat) (now : Int)
      (dead : ∀ entry, (cacheKey name qtype, entry) ∈ cache.items → entry.expires ≤ now)
      (used : cache.used (.get name qtype now) = none)
      (items : after.items = removeKey (cacheKey name qtype) cache.items) :
      CacheStep cache (.get name qtype now) after
  | stored {after : Cache} (c : CacheCall) (key : CacheKey) (entry : CacheEntry)
      (stores : c.stored = some (key, entry)) (used : cache.used c = some key)
      (items : after.items = touchItems cache.capacity key entry cache.items) :
      CacheStep cache c after
  | ignored (c : CacheCall) (stores : c.stored = none) (used : cache.used c = none)
      (unread : ∀ name qtype now, c ≠ .get name qtype now) : CacheStep cache c cache

namespace Cache

variable {cache : Cache}

theorem removeLocked_capacity (cache : Cache) (key : CacheKey) :
    (cache.removeLocked key).capacity = cache.capacity := by
  unfold removeLocked
  split <;> rfl

theorem get_capacity (cache : Cache) (name : Bytes) (qtype : Nat) (now : Int) :
    (cache.get name qtype now).1.capacity = cache.capacity := by
  simp only [get]
  split
  · rfl
  · split_ifs
    · rfl
    · exact removeLocked_capacity _ _

theorem put_capacity (h : cache.Sound) {name : Bytes} {qtype : Nat} {response : Msg}
    {expires : Int} {after : Cache} (hput : cache.put name qtype response expires = some after) :
    after.capacity = cache.capacity := by
  obtain ⟨room, hroom, -, hcapacity, -⟩ := makeRoom_spec h
  simp only [put] at hput
  split_ifs at hput with hpos
  · split at hput
    · rw [← Option.some.inj hput]
    · simp only [hroom] at hput
      rw [← Option.some.inj hput]
      exact hcapacity
  · rw [← Option.some.inj hput]

theorem get_step (h : cache.Sound) (name : Bytes) (qtype : Nat) (now : Int) :
    (cache.get name qtype now).1.Sound ∧
      CacheStep cache (.get name qtype now) (cache.get name qtype now).1 := by
  obtain ⟨hsound, hget⟩ := get_spec h name qtype now
  refine ⟨hsound, ?_⟩
  rcases hget with ⟨entry, hmem, hlive, hresult, hitems⟩ | ⟨hresult, hitems⟩
  · exact .hit name qtype now entry hmem hlive (by rw [used, hresult]; rfl) hitems
  · refine .missed name qtype now (fun entry hmem => ?_) (by rw [used, hresult]; rfl) hitems
    have hserves := (get_eq_none_iff cache name qtype now).mp hresult
    exact Int.not_lt.mp fun hlive => hserves ⟨entry, h.ordered.mem_orderedItems.mp hmem, hlive⟩

/-- Every call keeps the cache sound and does one of the steps. -/
theorem call_spec (h : cache.Sound) (c : CacheCall) :
    (cache.call c).Sound ∧ (cache.call c).capacity = cache.capacity ∧
      CacheStep cache c (cache.call c) := by
  cases c with
  | get name qtype now =>
      obtain ⟨hsound, hstep⟩ := get_step h name qtype now
      exact ⟨hsound, get_capacity cache name qtype now, hstep⟩
  | put name qtype response expires =>
      cases response with
      | none => exact ⟨h, rfl, .ignored _ rfl rfl (by simp)⟩
      | some response =>
          obtain ⟨after, hput, hsound, hitems⟩ := put_spec h name qtype response expires
          have hcall : cache.call (.put name qtype (some response) expires) = after := by
            rw [call, hput, Option.getD_some]
          rw [hcall]
          refine ⟨hsound, put_capacity h hput, ?_⟩
          by_cases hpos : 0 < expires
          · have hstored : (CacheCall.put name qtype (some response) expires).stored =
                some (cacheKey name qtype, ⟨response, expires⟩) := if_pos hpos
            rw [if_pos hpos] at hitems
            exact .stored _ _ _ hstored (by rw [used, hstored]; rfl) hitems
          · have hstored : (CacheCall.put name qtype (some response) expires).stored = none :=
              if_neg hpos
            have hsame : after = cache := by
              rw [put, if_pos hpos] at hput
              exact (Option.some.inj hput).symm
            rw [hsame]
            exact .ignored _ hstored (by rw [used, hstored]; rfl) (by simp)

end Cache

/-! ## What is lost -/

/-- The call stores something else under the key. -/
def CacheCall.Replaces (c : CacheCall) (key : CacheKey) : Prop :=
  ∃ entry, c.stored = some (key, entry)

/-- The call looks the key up at or after the expiry of its entry. -/
def CacheCall.FindsExpired (c : CacheCall) (key : CacheKey) (entry : CacheEntry) : Prop :=
  ∃ name qtype now, c = .get name qtype now ∧ cacheKey name qtype = key ∧ entry.expires ≤ now

/-- The call stores something under another key, and the key is in the cache before but
not after it. -/
def Cache.Evicts (cache : Cache) (c : CacheCall) (key : CacheKey) : Prop :=
  (∃ other entry, c.stored = some (other, entry) ∧ other ≠ key) ∧
    key ∈ cache.entries ∧ key ∉ (cache.call c).entries

section Items

variable {cache : Cache} {c : CacheCall} {key : CacheKey} {entry : CacheEntry}

theorem Cache.Sound.eq_of_mem {entry' : CacheEntry} (h : cache.Sound)
    (hmem : (key, entry) ∈ cache.items) (hmem' : (key, entry') ∈ cache.items) :
    entry = entry' :=
  Option.some.inj ((h.ordered.mem_orderedItems.mp hmem).symm.trans
    (h.ordered.mem_orderedItems.mp hmem'))

theorem Cache.Sound.mem_entries (h : cache.Sound) :
    key ∈ cache.entries ↔ ∃ entry, (key, entry) ∈ cache.items := by
  rw [← Cache.mem_map_fst_items h.ordered]
  simp

theorem not_replaces (h : c.stored = none) : ¬ c.Replaces key := by
  rintro ⟨entry, hstored⟩
  rw [h] at hstored
  cases hstored

theorem not_evicts (h : c.stored = none) : ¬ cache.Evicts c key := by
  rintro ⟨⟨other, entry, hstored, -⟩, -⟩
  rw [h] at hstored
  cases hstored

theorem findsExpired_get {name : Bytes} {qtype : Nat} {now : Int} :
    (CacheCall.get name qtype now).FindsExpired key entry ↔
      cacheKey name qtype = key ∧ entry.expires ≤ now := by
  constructor
  · rintro ⟨name', qtype', now', hget, hkey, hnow⟩
    cases hget
    exact ⟨hkey, hnow⟩
  · rintro ⟨hkey, hnow⟩
    exact ⟨name, qtype, now, rfl, hkey, hnow⟩

/-- A lookup loses what it finds expired. -/
theorem mem_items_get (h : cache.Sound) (name : Bytes) (qtype : Nat) (now : Int) {after : Cache}
    (hstep : CacheStep cache (.get name qtype now) after) :
    (key, entry) ∈ after.items ↔ (key, entry) ∈ cache.items ∧
      ¬ (cacheKey name qtype = key ∧ entry.expires ≤ now) := by
  cases hstep with
  | hit _ _ _ found mem live used items =>
      rw [items, List.mem_append, mem_removeKey, List.mem_singleton]
      constructor
      · rintro (⟨hold, hne⟩ | heq)
        · exact ⟨hold, fun hdead => hne hdead.1.symm⟩
        · obtain ⟨rfl, rfl⟩ := Prod.mk.inj heq
          exact ⟨mem, fun hdead => absurd live (Int.not_lt.mpr hdead.2)⟩
      · rintro ⟨hold, -⟩
        by_cases hkey : key = cacheKey name qtype
        · subst hkey
          exact Or.inr (by rw [h.eq_of_mem hold mem])
        · exact Or.inl ⟨hold, hkey⟩
  | missed _ _ _ dead used items =>
      rw [items, mem_removeKey]
      refine and_congr_right fun hold => ⟨fun hne hdead => hne hdead.1.symm, fun hkept hkey => ?_⟩
      subst hkey
      exact hkept ⟨rfl, dead entry hold⟩
  | stored _ _ _ stores used items => cases stores
  | ignored _ stores used unread => exact absurd rfl (unread name qtype now)

/-- Storing loses what was under the key, and what left the cache. -/
theorem mem_items_touch (h : cache.Sound) {after : Cache} (hsound : after.Sound)
    {other : CacheKey} {stored : CacheEntry}
    (items : after.items = touchItems cache.capacity other stored cache.items) :
    (key, entry) ∈ after.items ↔ (other, stored) = (key, entry) ∨
      (key, entry) ∈ cache.items ∧ other ≠ key ∧ key ∈ after.entries := by
  constructor
  · intro hmem
    have hentries := hsound.mem_entries.mpr ⟨entry, hmem⟩
    rw [items] at hmem
    rcases mem_of_mem_touchItems hmem with ⟨rfl, rfl⟩ | ⟨hold, hne⟩
    · exact Or.inl rfl
    · exact Or.inr ⟨hold, hne.symm, hentries⟩
  · rintro (heq | ⟨hold, hne, hentries⟩)
    · obtain ⟨rfl, rfl⟩ := Prod.mk.inj heq
      rw [items]
      exact mem_touchItems_self h.capacity_pos
    · -- what is left under the key is the old entry
      obtain ⟨entry', hmem⟩ := hsound.mem_entries.mp hentries
      have htouched := items ▸ hmem
      rcases mem_of_mem_touchItems htouched with ⟨heq, -⟩ | ⟨hold', -⟩
      · exact absurd heq.symm hne
      · rwa [h.eq_of_mem hold hold']

/-- After a call the cache holds what the call stored, and what it held before and the
call did not replace, find expired or evict. -/
theorem mem_items_call (h : cache.Sound) (c : CacheCall) (item : CacheKey × CacheEntry) :
    item ∈ (cache.call c).items ↔
      c.stored = some item ∨
        item ∈ cache.items ∧ ¬ (c.Replaces item.1 ∨ c.FindsExpired item.1 item.2 ∨
          cache.Evicts c item.1) := by
  obtain ⟨key, entry⟩ := item
  obtain ⟨hsound, -, hstep⟩ := Cache.call_spec h c
  have hevicts : ∀ {other : CacheKey} {stored : CacheEntry}, c.stored = some (other, stored) →
      (cache.Evicts c key ↔ other ≠ key ∧ key ∈ cache.entries ∧ key ∉ (cache.call c).entries) := by
    intro other stored hstored
    unfold Cache.Evicts
    simp [hstored]
  generalize hcall : cache.call c = after at hsound hstep hevicts ⊢
  cases hstep with
  | hit name qtype now found mem live used items =>
      have hnone : (CacheCall.get name qtype now).stored = none := rfl
      rw [mem_items_get h name qtype now (.hit name qtype now found mem live used items),
        findsExpired_get, hnone]
      simp [not_replaces hnone, not_evicts hnone]
  | missed name qtype now dead used items =>
      have hnone : (CacheCall.get name qtype now).stored = none := rfl
      rw [mem_items_get h name qtype now (.missed name qtype now dead used items),
        findsExpired_get, hnone]
      simp [not_replaces hnone, not_evicts hnone]
  | stored _ other stored stores used items =>
      have hexpired : ¬ c.FindsExpired key entry := by
        rintro ⟨name, qtype, now, rfl, -⟩
        cases stores
      have hreplaces : c.Replaces key ↔ other = key := by
        simp [CacheCall.Replaces, stores]
      have hheld : (key, entry) ∈ cache.items → key ∈ cache.entries := fun hmem =>
        h.mem_entries.mpr ⟨entry, hmem⟩
      rw [mem_items_touch h hsound items, hevicts stores, hreplaces, stores]
      simp only [hexpired, false_or, Option.some.injEq]
      tauto
  | ignored _ stores used unread =>
      have hexpired : ¬ c.FindsExpired key entry := by
        rintro ⟨name, qtype, now, rfl, -⟩
        exact unread name qtype now rfl
      simp [not_replaces stores, not_evicts stores, hexpired, stores]

/-- What is evicted is the front of the list, and the cache was full. -/
theorem Cache.Evicts.front (h : cache.Sound) (hevicts : cache.Evicts c key) :
    cache.lru.head? = some key ∧ cache.entries.keys.length = cache.capacity := by
  obtain ⟨⟨other, stored, hstored, hne⟩, hmem, hgone⟩ := hevicts
  obtain ⟨hsound, -, hstep⟩ := Cache.call_spec h c
  generalize cache.call c = after at hsound hstep hgone
  obtain ⟨entry, hitem⟩ := h.mem_entries.mp hmem
  have hlost : ∀ entry', (key, entry') ∉ after.items := fun entry' hin =>
    hgone (hsound.mem_entries.mpr ⟨entry', hin⟩)
  have hnodup := Cache.nodup_items h.ordered
  cases hstep with
  | hit _ _ _ found mem live used items => cases hstored
  | missed _ _ _ dead used items => cases hstored
  | ignored _ stores used unread =>
      rw [stores] at hstored
      cases hstored
  | stored _ found stored' stores used items =>
      rw [hstored] at stores
      cases stores
      have hroom : ¬ (cache.items.length < cache.capacity ∨
          other ∈ cache.items.map Prod.fst ∧ cache.items.length ≤ cache.capacity) := fun hroom =>
        hlost entry (items ▸ mem_touchItems_of_room hroom hnodup hitem hne.symm)
      obtain ⟨hfull, habsent⟩ := not_or.mp hroom
      have hbounded := h.bounded
      have hlength : cache.items.length = cache.capacity := by omega
      have hnew : other ∉ cache.items.map Prod.fst := fun hin => habsent ⟨hin, hbounded⟩
      rw [touchItems_of_not_mem hnew h.capacity_pos, hlength, Nat.add_sub_cancel_left] at items
      refine ⟨?_, h.ordered.length_keys.trans hlength⟩
      rw [h.ordered.head?_eq]
      change cache.items.head?.map Prod.fst = some key
      cases hitems : cache.items with
      | nil =>
          rw [hitems] at hitem
          cases hitem
      | cons first rest =>
          rw [hitems] at hitem items
          rcases List.mem_cons.mp hitem with rfl | hrest
          · rfl
          · exact absurd (items ▸ List.mem_append_left _ hrest) (hlost entry)

theorem Cache.Sound.get_eq_some_iff (h : cache.Sound) {name : Bytes} {qtype : Nat} {now : Int}
    {response : Msg} :
    (cache.get name qtype now).2 = some response ↔
      ∃ entry, (cacheKey name qtype, entry) ∈ cache.items ∧ entry.response = response ∧
        now < entry.expires := by
  obtain ⟨-, hget⟩ := Cache.get_spec h name qtype now
  have hserves := Cache.get_eq_none_iff cache name qtype now
  constructor
  · intro hresponse
    rcases hget with ⟨entry, hmem, hlive, hresult, -⟩ | ⟨hresult, -⟩
    · exact ⟨entry, hmem, Option.some.inj (hresult.symm.trans hresponse), hlive⟩
    · rw [hresult] at hresponse
      cases hresponse
  · rintro ⟨entry, hmem, rfl, hlive⟩
    rcases hget with ⟨entry', hmem', -, hresult, -⟩ | ⟨hresult, -⟩
    · rw [hresult, h.eq_of_mem hmem hmem']
    · exact absurd ⟨entry, h.ordered.mem_orderedItems.mp hmem, hlive⟩ (hserves.mp hresult)

end Items

/-! ## Whole runs -/

/-- A sound cache of the capacity, in the order of the logged uses. -/
structure LoggedCache.Follows (capacity : Nat) (s : LoggedCache) : Prop where
  sound : s.cache.Sound
  capacity_eq : s.cache.capacity = capacity
  ordered : ByLastUse s.log s.cache.lru

theorem LoggedCache.Follows.call {capacity : Nat} {s : LoggedCache} (h : s.Follows capacity)
    (c : CacheCall) : (s.call c).Follows capacity := by
  obtain ⟨hsound, hcapacity, hstep⟩ := Cache.call_spec h.sound c
  refine ⟨hsound, hcapacity.trans h.capacity_eq, ?_⟩
  have hkeys : ∀ {cache : Cache}, cache.Sound → cache.lru = cache.items.map Prod.fst :=
    fun hs => hs.ordered.map_fst_orderedItems.symm
  have hordered := h.ordered
  change ByLastUse ((s.cache.used c).toList ++ s.log) (s.cache.call c).lru
  rw [hkeys hsound]
  rw [hkeys h.sound] at hordered
  generalize s.cache.call c = after at hstep
  cases hstep with
  | hit name qtype now entry mem live used items =>
      rw [used, items, List.map_append, map_fst_removeKey]
      exact hordered.use _
  | missed name qtype now dead used items =>
      rw [used, items, map_fst_removeKey]
      exact hordered.sublist List.filter_sublist
  | stored _ key entry stores used items =>
      rw [used, items]
      have htouch := hordered.use key
      refine htouch.sublist (((List.drop_sublist _ _).map Prod.fst).trans ?_)
      rw [List.map_append, map_fst_removeKey]
      rfl
  | ignored _ stores used unread =>
      rw [used]
      exact hordered

theorem LoggedCache.follows_run (capacity : Int) (calls : List CacheCall) :
    (calls.foldl LoggedCache.call ⟨newCache capacity, []⟩).Follows (max capacity 1).toNat := by
  have hstep (s : LoggedCache) (c : CacheCall) (h : s.Follows (max capacity 1).toNat) :
      (s.call c).Follows (max capacity 1).toNat := h.call c
  refine foldl_invariant hstep ?_ calls
  refine ⟨Cache.newCache_sound capacity, ?_, List.Pairwise.nil⟩
  simp only [newCache]
  split_ifs <;> omega

/-- After a run the cache has the items that were stored and that no later call replaced,
found expired or evicted. -/
theorem mem_items_run_iff (capacity : Int) (calls : List CacheCall)
    (item : CacheKey × CacheEntry) :
    let run := List.foldl LoggedCache.call ⟨newCache capacity, []⟩
    item ∈ (run calls).cache.items ↔
      ∃ earlier past later, calls = earlier ++ past :: later ∧ past.stored = some item ∧
        ∀ mid c rest, later = mid ++ c :: rest →
          ¬ c.Replaces item.1 ∧ ¬ c.FindsExpired item.1 item.2 ∧
          ¬ (run (earlier ++ past :: mid)).cache.Evicts c item.1 := by
  intro run
  have hstep (s : LoggedCache) (c : CacheCall) (h : s.Follows (max capacity 1).toNat) :
      (s.call c).Follows (max capacity 1).toNat := h.call c
  have hitems (s : LoggedCache) (c : CacheCall) (item : CacheKey × CacheEntry)
      (h : s.Follows (max capacity 1).toNat) :
      item ∈ (s.call c).cache.items ↔ c.stored = some item ∨
        item ∈ s.cache.items ∧ ¬ (c.Replaces item.1 ∨ c.FindsExpired item.1 item.2 ∨
          s.cache.Evicts c item.1) := mem_items_call h.sound c item
  have hheld := held_iff_stored (fun s item => item ∈ Cache.items s.cache) hstep hitems
    (LoggedCache.follows_run capacity []) (b := item) List.not_mem_nil calls
  simp only [not_or] at hheld
  exact hheld

/-- Over every run, entries and list have the same keys in order of use and within the
capacity. A lookup returns the response that was stored last under its key exactly when
that has not expired, and since then was not found expired and not evicted. What is
evicted is the key that was used longest ago. -/
theorem cache_refines_bounded_map (capacity : Int) (calls : List CacheCall) :
    let run := List.foldl LoggedCache.call ⟨newCache capacity, []⟩
    let cache := (run calls).cache
    (∀ key, key ∈ cache.lru ↔ key ∈ cache.entries) ∧ cache.lru.Nodup ∧
    cache.entries.keys.length ≤ (max capacity 1).toNat ∧ ByLastUse (run calls).log cache.lru ∧
    (∀ name qtype response expires, (cache.put name qtype response expires).isSome = true) ∧
    (∀ name qtype now response, (cache.get name qtype now).2 = some response ↔
      ∃ expires earlier past later, calls = earlier ++ past :: later ∧
        past.stored = some (cacheKey name qtype, ⟨response, expires⟩) ∧ now < expires ∧
        ∀ mid c rest, later = mid ++ c :: rest →
          ¬ c.Replaces (cacheKey name qtype) ∧
          ¬ c.FindsExpired (cacheKey name qtype) ⟨response, expires⟩ ∧
          ¬ (run (earlier ++ past :: mid)).cache.Evicts c (cacheKey name qtype)) ∧
    ∀ c key, cache.Evicts c key →
      cache.lru.head? = some key ∧ cache.entries.keys.length = (max capacity 1).toNat ∧
      ∀ other ∈ cache.entries, other ≠ key →
        (run calls).log.idxOf other < (run calls).log.idxOf key := by
  intro run cache
  obtain ⟨hsound, hcapacity, hordered⟩ := LoggedCache.follows_run capacity calls
  refine ⟨hsound.ordered.mem_iff, hsound.ordered.nodup, ?_, hordered, ?_, ?_, ?_⟩
  · rw [hsound.ordered.length_keys, ← hcapacity]
    exact hsound.bounded
  · intro name qtype response expires
    obtain ⟨after, hput, -⟩ := Cache.put_spec hsound name qtype response expires
    exact Option.isSome_iff_exists.mpr ⟨after, hput⟩
  · intro name qtype now response
    rw [hsound.get_eq_some_iff]
    constructor
    · rintro ⟨⟨response, expires⟩, hmem, rfl, hlive⟩
      obtain ⟨earlier, past, later, hcalls, hstored, hkept⟩ :=
        (mem_items_run_iff capacity calls _).mp hmem
      exact ⟨expires, earlier, past, later, hcalls, hstored, hlive, hkept⟩
    · rintro ⟨expires, earlier, past, later, hcalls, hstored, hlive, hkept⟩
      refine ⟨⟨response, expires⟩, (mem_items_run_iff capacity calls _).mpr ?_, rfl, hlive⟩
      exact ⟨earlier, past, later, hcalls, hstored, hkept⟩
  · intro c key hevicts
    obtain ⟨hfront, hfull⟩ := hevicts.front hsound
    refine ⟨hfront, hfull.trans hcapacity, fun other hother hne => ?_⟩
    obtain ⟨rest, hlru⟩ := List.head?_eq_some_iff.mp hfront
    have hmem : other ∈ rest := by
      have hin := (hsound.ordered.mem_iff other).mpr hother
      rw [hlru] at hin
      exact (List.mem_cons.mp hin).resolve_left hne
    rw [hlru] at hordered
    exact List.rel_of_pairwise_cons hordered hmem

/-- A full cache of one entry evicts it for another key. -/
theorem cache_evicts_only_key :
    let run := List.foldl LoggedCache.call ⟨newCache 0, []⟩
    let calls : List CacheCall := [.put (ascii "a.") 1 (some {}) 10]
    let key := cacheKey (ascii "a.") 1
    (run calls).cache.Evicts (.put (ascii "b.") 1 (some {}) 10) key ∧
      (run calls).cache.lru.head? = some key := by
  intro run calls key
  have hevicts : (run calls).cache.Evicts (.put (ascii "b.") 1 (some {}) 10) key :=
    ⟨⟨cacheKey (ascii "b.") 1, ⟨{}, 10⟩, rfl, by decide⟩, by decide, by decide⟩
  obtain ⟨-, -, -, -, -, -, hfront⟩ := cache_refines_bounded_map 0 calls
  exact ⟨hevicts, (hfront _ key hevicts).1⟩

/-- An entry that expires at time 10 was looked up at time 20, and is not found at time
5 although it was neither replaced nor evicted; and an entry is found although the last
call for its key, with the zero time as expiry, had another response. -/
theorem cache_misses_unexpired_entry :
    let run := List.foldl LoggedCache.call ⟨newCache 16, []⟩
    let first : CacheCall := .put (ascii "a.") 1 (some {}) 10
    let late : CacheCall := .get (ascii "a.") 1 20
    let void : CacheCall := .put (ascii "a.") 1 (some { rcode := 2 }) 0
    let key := cacheKey (ascii "a.") 1
    (first.stored = some (key, ⟨{}, 10⟩) ∧ (5 : Int) < 10 ∧ ¬ late.Replaces key ∧
      ¬ (run [first]).cache.Evicts late key ∧
      ((run [first, late]).cache.get (ascii "a.") 1 5).2 = none) ∧
    ((run [first, void]).cache.get (ascii "a.") 1 5).2 = some {} := by
  intro run first late void key
  have hnone : late.stored = none := rfl
  exact ⟨⟨rfl, by decide, not_replaces hnone, not_evicts hnone, rfl⟩, rfl⟩

end Hy2Route.DNSProxy
