import Hy2Route.Policy.LearningRefinement

/-!
# Runs of the learning table

Over any sequence of calls the table follows a bounded map kept in order of
observation.
-/

namespace Hy2Route.Policy

open Foundation

inductive TableCall where
  | observe (observation : Observation)
  | lookup (ip : Addr) (now : Int)
  | expire (now : Int)
  | snapshot (now : Int)

/-- The table after a call. -/
def LearningTable.call (table : LearningTable) : TableCall → LearningTable
  | .observe observation => (table.observe observation).1
  | .lookup ip now => (table.lookup ip now).1
  | .expire now => (table.expire now).1
  | .snapshot now => (table.snapshot now).1

/-- The abstract map after a call: observations touch, and every other call
forgets what is no longer live at its time. -/
def TableCall.reference {cap : Nat} (m : RecencyMap ObservationKey Int cap) :
    TableCall → RecencyMap ObservationKey Int cap
  | .observe observation =>
      observation.keys.foldl (fun m key => m.touch key observation.expires) m
  | .lookup _ now => m.retain (LearningTable.live now)
  | .expire now => m.retain (LearningTable.live now)
  | .snapshot now => m.retain (LearningTable.live now)

/-- The table keeps its invariant and lists the abstract map's items. -/
def Refines {cap : Nat} (table : LearningTable) (m : RecencyMap ObservationKey Int cap) : Prop :=
  table.Sound ∧ table.capacity = cap ∧ table.items = m.items

theorem items_foldl_touch {cap : Nat} (keys : List ObservationKey) (expires : Int)
    (m : RecencyMap ObservationKey Int cap) :
    (keys.foldl (fun m key => m.touch key expires) m).items =
      touchKeys cap keys expires m.items := by
  induction keys generalizing m with
  | nil => rfl
  | cons key rest ih => exact ih (m.touch key expires)

/-- One call keeps the table and the abstract map together. -/
theorem refines_call {cap : Nat} {table : LearningTable} {m : RecencyMap ObservationKey Int cap}
    (h : Refines table m) (c : TableCall) : Refines (table.call c) (c.reference m) := by
  obtain ⟨hsound, hcap, hitems⟩ := h
  have hexpire : ∀ now, Refines (table.expireLocked now).1 (m.retain (LearningTable.live now)) := by
    intro now
    obtain ⟨h₁, h₂, h₃, -⟩ := LearningTable.expireLocked_spec hsound now
    exact ⟨h₁, h₂.trans hcap, by rw [h₃, hitems]; rfl⟩
  cases c with
  | observe observation =>
      obtain ⟨h₁, h₂, -, h₄⟩ := LearningTable.observe_spec hsound observation
      refine ⟨h₁, h₂.trans hcap, ?_⟩
      change _ = (observation.keys.foldl (fun m key => m.touch key observation.expires) m).items
      rw [items_foldl_touch, ← hitems, ← hcap]
      exact h₄
  | lookup ip now => exact hexpire now
  | expire now => exact hexpire now
  | snapshot now => exact hexpire now

theorem newLearningTable_capacity (capacity : Int) :
    (newLearningTable capacity).capacity = (max capacity 1).toNat := by
  simp only [newLearningTable]
  split_ifs <;> omega

theorem newLearningTable_sound (capacity : Int) : (newLearningTable capacity).Sound where
  linked :=
    { ordered := ⟨List.nodup_nil, by simp [newLearningTable]⟩
      mem_keysOf := by simp [newLearningTable, LearningTable.keysOf]
      byIP_nonempty := by simp [newLearningTable] }
  capacity_pos := by
    rw [newLearningTable_capacity]
    omega
  bounded := Nat.zero_le _
  sorted := List.Pairwise.nil
  covered := by
    intro key expires hmem
    simp [LearningTable.items, orderedItems, newLearningTable] at hmem

theorem refines_run (capacity : Int) (calls : List TableCall) :
    Refines (calls.foldl LearningTable.call (newLearningTable capacity))
      (calls.foldl TableCall.reference
        (RecencyMap.empty : RecencyMap ObservationKey Int (max capacity 1).toNat)) := by
  induction calls using List.reverseRecOn with
  | nil => exact ⟨newLearningTable_sound capacity, newLearningTable_capacity capacity, rfl⟩
  | append_singleton calls c ih =>
      rw [List.foldl_append, List.foldl_append]
      exact refines_call ih c

/-- The entries, the order list and the address sets hold the same keys without
repetition, no address set is empty, and every entry has its heap item. -/
structure LearningTable.Coherent (table : LearningTable) : Prop where
  lru_keys : ∀ key, key ∈ table.lru ↔ key ∈ table.entries
  byIP_keys : ∀ key, (∃ ip keys, table.byIP.lookup ip = some keys ∧ key ∈ keys) ↔
    key ∈ table.entries
  entries_nodup : table.entries.keys.Nodup
  lru_nodup : table.lru.Nodup
  byIP_disjoint : ∀ ip₁ ip₂ keys₁ keys₂ key, table.byIP.lookup ip₁ = some keys₁ →
    table.byIP.lookup ip₂ = some keys₂ → key ∈ keys₁ → key ∈ keys₂ → ip₁ = ip₂
  byIP_nonempty : ∀ ip keys, table.byIP.lookup ip = some keys → keys ≠ ∅
  heap_item : ∀ key expires, table.entries.lookup key = some expires →
    ⟨key, expires⟩ ∈ table.expirations

theorem LearningTable.Sound.coherent {table : LearningTable} (h : table.Sound) :
    table.Coherent where
  lru_keys := h.linked.ordered.mem_iff
  byIP_keys := by
    intro key
    constructor
    · rintro ⟨ip, keys, hl, hkey⟩
      exact ((h.linked.mem_keysOf ip key).mp (by simpa [LearningTable.keysOf, hl] using hkey)).1
    · intro hmem
      have hkey := (h.linked.mem_keysOf key.ip key).mpr ⟨hmem, rfl⟩
      cases hl : table.byIP.lookup key.ip with
      | none => simp [LearningTable.keysOf, hl] at hkey
      | some keys => exact ⟨key.ip, keys, hl, by simpa [LearningTable.keysOf, hl] using hkey⟩
  entries_nodup := table.entries.keys_nodup
  lru_nodup := h.linked.ordered.nodup
  byIP_disjoint := by
    intro ip₁ ip₂ keys₁ keys₂ key h₁ h₂ hk₁ hk₂
    have hip₁ := ((h.linked.mem_keysOf ip₁ key).mp
      (by simpa [LearningTable.keysOf, h₁] using hk₁)).2
    have hip₂ := ((h.linked.mem_keysOf ip₂ key).mp
      (by simpa [LearningTable.keysOf, h₂] using hk₂)).2
    exact hip₁.symm.trans hip₂
  byIP_nonempty := h.linked.byIP_nonempty
  heap_item := fun key expires hl => h.covered key expires (h.linked.mem_items.mpr hl)

theorem LearningTable.Sound.lookup_expireLocked {table : LearningTable} (h : table.Sound)
    (now : Int) (key : ObservationKey) (expires : Int) :
    (table.expireLocked now).1.entries.lookup key = some expires ↔
      table.entries.lookup key = some expires ∧ now < expires := by
  obtain ⟨hsound, -, hitems, -⟩ := LearningTable.expireLocked_spec h now
  rw [← hsound.linked.mem_items, ← h.linked.mem_items, hitems, List.mem_filter]
  simp [LearningTable.live]

theorem observed_live_iff {items : List (ObservationKey × Int)} {ip : Addr} {now : Int}
    {action : Action} :
    observed (items.filter (LearningTable.live now)) ip action = true ↔
      ∃ key expires, (key, expires) ∈ items ∧ key.ip = ip ∧ key.action = action ∧
        now < expires := by
  rw [observed_iff]
  simp only [List.mem_filter, LearningTable.live, decide_eq_true_eq]
  exact exists_congr fun key => exists_congr fun expires => by tauto

/-- Every run of a table follows the bounded map in order of observation: its
structures stay coherent and within capacity, expiry drops exactly what is due,
and lookups report exactly the live observations of the abstract map. -/
theorem learningTable_refines_recencyMap (capacity : Int) (calls : List TableCall) :
    let table := calls.foldl LearningTable.call (newLearningTable capacity)
    let reference := calls.foldl TableCall.reference
      (RecencyMap.empty : RecencyMap ObservationKey Int (max capacity 1).toNat)
    table.Coherent ∧
      (table.entries.keys.length : Int) ≤ max capacity 1 ∧
      (∀ key expires, table.entries.lookup key = some expires ↔
        (key, expires) ∈ reference.items) ∧
      table.lru = reference.items.map Prod.fst ∧
      (∀ observation, (table.observe observation).2 ≠ some .nilFront) ∧
      (∀ ip now, ∀ c ∈ [TableCall.lookup ip now, .expire now, .snapshot now],
        ∀ key expires, (table.call c).entries.lookup key = some expires ↔
          table.entries.lookup key = some expires ∧ now < expires) ∧
      (∀ ip now,
        ((table.lookup ip now).2.direct = true ↔
          ∃ key expires, (key, expires) ∈ reference.items ∧ key.ip = ip ∧
            key.action = .direct ∧ now < expires) ∧
        ((table.lookup ip now).2.proxy = true ↔
          ∃ key expires, (key, expires) ∈ reference.items ∧ key.ip = ip ∧
            key.action = .proxy ∧ now < expires)) := by
  intro table reference
  obtain ⟨hsound, hcap, hitems⟩ := refines_run capacity calls
  refine ⟨hsound.coherent, ?_, ?_, ?_, ?_, ?_, ?_⟩
  · have hlen : table.items.length ≤ table.capacity := hsound.bounded
    have hcap' : table.capacity = (max capacity 1).toNat := hcap
    rw [hsound.linked.ordered.length_keys]
    change (table.items.length : Int) ≤ _
    omega
  · intro key expires
    rw [← hsound.linked.mem_items, hitems]
  · rw [← hsound.linked.map_fst_items, hitems]
  · intro observation
    exact (LearningTable.observe_spec hsound observation).2.2.1
  · intro ip now c hc key expires
    simp only [List.mem_cons, List.not_mem_nil, or_false] at hc
    rcases hc with rfl | rfl | rfl <;> exact hsound.lookup_expireLocked now key expires
  · intro ip now
    obtain ⟨hdirect, hproxy, -⟩ := LearningTable.lookup_spec hsound ip now
    rw [hdirect, hproxy, ← hitems]
    exact ⟨observed_live_iff, observed_live_iff⟩

/-! ## Failed observations -/

/-- No address stands between the checks and the first error: the action, the expiry or the
name is refused, every address is IPv4, or already the first one is not. -/
def Observation.Undivided (observation : Observation) : Prop :=
  (observation.action ≠ .direct ∧ observation.action ≠ .proxy) ∨ observation.expires = 0 ∨
    (normalizeDomain observation.domain).isOk = false ∨
    (∀ ip ∈ observation.ips, (!ip.is4 || ip.is4In6) = false) ∨
    ∃ ip ∈ observation.ips.head?, (!ip.is4 || ip.is4In6) = true

theorem recordedIPs_eq_nil_iff (ips : List Addr) :
    recordedIPs ips [] = [] ↔ ips = [] ∨ ∃ ip ∈ ips.head?, (!ip.is4 || ip.is4In6) = true := by
  cases ips with
  | nil => simp [recordedIPs]
  | cons ip rest =>
      simp only [recordedIPs, List.not_mem_nil, if_false, List.head?_cons, Option.mem_some_iff,
        exists_eq_left', reduceCtorEq, false_or]
      split_ifs with hbad <;> simp [hbad]

/-- The observations that are recorded as a whole or not at all. -/
theorem Observation.undivided_iff (observation : Observation) :
    observation.Undivided ↔ observation.Acceptable ∨ observation.keys = [] := by
  unfold Observation.Undivided Observation.Acceptable Observation.keys
  by_cases haction : observation.action ≠ .direct ∧ observation.action ≠ .proxy
  · simp [haction]
  have hknown : observation.action = .direct ∨ observation.action = .proxy := by
    by_contra hnot
    exact haction (not_or.mp hnot)
  by_cases hexpires : observation.expires = 0
  · simp [hexpires]
  cases hdomain : normalizeDomain observation.domain with
  | error err => simp [Except.isOk, Except.toBool]
  | ok domain =>
      simp only [haction, hknown, hexpires, if_false, Except.isOk, Except.toBool,
        Bool.true_eq_false, false_or, true_and, ne_eq, not_false_eq_true, List.map_eq_nil_iff,
        recordedIPs_eq_nil_iff]
      constructor
      · exact fun h => h.imp_right Or.inr
      · rintro (hall | hnil | hfirst)
        · exact Or.inl hall
        · exact Or.inl (by simp [hnil])
        · exact Or.inr hfirst

namespace LearningTable

/-- An observation leaves a sound table as it is exactly when it touches no key: each key
that it touches is pushed on the heap. -/
theorem observe_fst_eq_self_iff {table : LearningTable} (h : table.Sound)
    (observation : Observation) :
    (table.observe observation).1 = table ↔ observation.keys = [] := by
  constructor
  · intro hsame
    have hlen := (observe_expirations h observation).length_eq
    rw [hsame, List.length_append, List.length_map] at hlen
    exact List.length_eq_zero_iff.mp (by omega)
  · intro hkeys
    unfold observe
    unfold Observation.keys at hkeys
    split_ifs at hkeys ⊢
    · rfl
    · rfl
    · cases hdomain : normalizeDomain observation.domain with
      | error err => rfl
      | ok domain =>
          simp only [hdomain, List.map_eq_nil_iff] at hkeys
          rcases (recordedIPs_eq_nil_iff observation.ips).mp hkeys with hnil | ⟨ip, hip, hbad⟩
          · simp only [hnil, observeIPs]
          · obtain ⟨rest, hips⟩ := List.head?_eq_some_iff.mp hip
            simp only [hips, observeIPs, hbad, if_true]

/-- In every state of a table an observation that fails leaves the table as it was, exactly
when no recorded address stands before the address that is refused. -/
theorem observe_atomic_iff (capacity : Int) (calls : List TableCall)
    (observation : Observation) :
    let table := calls.foldl call (newLearningTable capacity)
    ((table.observe observation).2 ≠ none → (table.observe observation).1 = table) ↔
      observation.Undivided := by
  intro table
  have hsound : table.Sound := (refines_run capacity calls).1
  rw [Ne, observe_eq_none_iff hsound, observe_fst_eq_self_iff hsound, observation.undivided_iff,
    or_iff_not_imp_left]

/-- An address that is recorded before the observation fails: it is looked up as direct. -/
theorem observe_fails_halfway :
    let table := newLearningTable 4
    let observation : Observation :=
      { domain := ascii "example.com", action := .direct, expires := 60,
        ips := [.v4 0xCB007108#32, .v6 1#128 []] }
    (table.observe observation).2 = some .notIPv4 ∧ (table.observe observation).1 ≠ table ∧
      (table.lookup (.v4 0xCB007108#32) 0).2.action = .unknown ∧
      ((table.observe observation).1.lookup (.v4 0xCB007108#32) 0).2.action = .direct := by
  refine ⟨by decide, fun hsame => ?_, by decide, by decide⟩
  have hlen := congrArg (fun table => table.expirations.length) hsame
  exact absurd hlen (by decide)

end LearningTable

/-! ## Sizes -/

/-- No structure of the table holds more than the bound. -/
structure LearningTable.Within (table : LearningTable) (bound : Nat) : Prop where
  entries : table.entries.keys.length ≤ bound
  lru : table.lru.length ≤ bound
  byIP : table.byIP.keys.length ≤ bound
  keysOf : ∀ ip, (table.keysOf ip).card ≤ bound
  expirations : table.expirations.length ≤ bound

/-- The table after expiries at the given readings. -/
def LearningTable.expireAt (table : LearningTable) (readings : List Int) : LearningTable :=
  readings.foldl (fun table now => (table.expireLocked now).1) table

/-- No reading has reached the item's expiry. -/
def ExpiryItem.unreached (readings : List Int) (item : ExpiryItem) : Bool :=
  readings.all fun now => now < item.expires

section Sizes

variable {table : LearningTable}

theorem LearningTable.expireAt_spec (h : table.Sound) (readings : List Int) :
    (table.expireAt readings).Sound ∧
      (table.expireAt readings).capacity = table.capacity ∧
      (table.expireAt readings).items ⊆ table.items ∧
      (table.expireAt readings).expirations =
        table.expirations.filter (ExpiryItem.unreached readings) := by
  induction readings generalizing table with
  | nil => exact ⟨h, rfl, List.Subset.refl _, (List.filter_eq_self.mpr fun _ _ => rfl).symm⟩
  | cons now rest ih =>
      obtain ⟨hsound, hcapacity, hitems, -⟩ := LearningTable.expireLocked_spec h now
      obtain ⟨h₁, h₂, h₃, h₄⟩ := ih hsound
      refine ⟨h₁, h₂.trans hcapacity, fun item hitem => ?_, h₄.trans ?_⟩
      · have hkept := h₃ hitem
        rw [hitems] at hkept
        exact List.mem_of_mem_filter hkept
      · rw [LearningTable.expireLocked_expirations h, List.filter_filter]
        refine List.filter_congr fun item _ => ?_
        simp [ExpiryItem.unreached, Bool.and_comm]

/-- A sound table is within every bound that its capacity and its heap keep to. -/
theorem LearningTable.Sound.within_iff (h : table.Sound) {bound : Nat}
    (hcapacity : table.capacity ≤ bound) :
    table.Within bound ↔ table.expirations.length ≤ bound := by
  have hitems : table.items.length ≤ bound := h.bounded.trans hcapacity
  refine ⟨fun hwithin => hwithin.expirations, fun hheap => ⟨?_, ?_, ?_, fun ip => ?_, hheap⟩⟩
  · rw [h.linked.ordered.length_keys]
    exact hitems
  · rw [← h.linked.map_fst_items, List.length_map]
    exact hitems
  · have hsubset : table.byIP.keys ⊆ table.items.map (·.1.ip) := by
      intro ip hip
      obtain ⟨keys, hkeys⟩ := Option.isSome_iff_exists.mp (AList.lookup_isSome.mpr hip)
      obtain ⟨key, hkey⟩ := Finset.nonempty_iff_ne_empty.mpr (h.linked.byIP_nonempty ip keys hkeys)
      obtain ⟨hentry, rfl⟩ := (h.linked.mem_keysOf ip key).mp
        (by simpa [LearningTable.keysOf, hkeys] using hkey)
      obtain ⟨item, hitem, rfl⟩ := List.mem_map.mp (h.linked.mem_map_fst_items.mpr hentry)
      exact List.mem_map_of_mem hitem
    calc table.byIP.keys.length ≤ (table.items.map (·.1.ip)).length :=
          (List.subperm_of_subset table.byIP.keys_nodup hsubset).length_le
      _ = table.items.length := List.length_map _
      _ ≤ bound := hitems
  · have hsubset : table.keysOf ip ⊆ (table.items.map Prod.fst).toFinset := by
      intro key hkey
      rw [List.mem_toFinset, h.linked.mem_map_fst_items]
      exact ((h.linked.mem_keysOf ip key).mp hkey).1
    calc (table.keysOf ip).card ≤ (table.items.map Prod.fst).toFinset.card :=
          Finset.card_le_card hsubset
      _ ≤ (table.items.map Prod.fst).length := List.toFinset_card_le _
      _ = table.items.length := List.length_map _
      _ ≤ bound := hitems

end Sizes

end Hy2Route.Policy
