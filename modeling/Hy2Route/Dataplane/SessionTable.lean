import Hy2Route.Foundation.Duration
import Hy2Route.Foundation.NetIP
import Hy2Route.Foundation.Recency
import Hy2Route.Foundation.Runs

/-!
# The table of UDP sessions

The table holds a session for each pair of a source and a target, in order of use. A
session leaves it when it was idle for too long, when its key is added again, when the
table is full, and when it is removed because it failed; the table closes it then.

## Implementation notes

The map and the list share their entries in the source. Here both hold the entry as a
value, and a change of an entry changes it in both. The sessions that the table has
closed are listed in order, and the clock is read by number.
-/

namespace Hy2Route.Dataplane

open Foundation

structure AddrPort where
  addr : Addr
  port : Nat
  deriving DecidableEq

structure SessionKey where
  source : AddrPort
  target : AddrPort
  deriving DecidableEq

structure SessionEntry (S : Type) where
  key : SessionKey
  session : S
  last : Int
  deriving DecidableEq

structure SessionTable (S : Type) where
  capacity : Nat
  idle : Int
  entries : AList fun _ : SessionKey => SessionEntry S
  lru : List (SessionEntry S)
  reads : Nat
  closed : List S

/-- The time after which a session is idle. -/
def idlePeriod (idle : Int) : Int := if idle ≤ 0 then minute else idle

def newSessionTable {S : Type} (capacity idle : Int) : SessionTable S where
  capacity := if capacity < 1 then 1 else capacity.toNat
  idle := idlePeriod idle
  entries := ∅
  lru := []
  reads := 0
  closed := []

namespace SessionTable

variable {S : Type} [DecidableEq S] (clock : Nat → Int)

def removeLocked (table : SessionTable S) (entry : SessionEntry S) : SessionTable S :=
  { table with
    entries := table.entries.erase entry.key
    lru := table.lru.erase entry
    closed := table.closed ++ [entry.session] }

def expireLocked (table : SessionTable S) (now : Int) : SessionTable S :=
  table.lru.foldl (fun table entry =>
    if now < entry.last + table.idle then table else table.removeLocked entry) table

/-- Expire with a reading of the clock. -/
def expire (table : SessionTable S) : SessionTable S :=
  { table.expireLocked (clock table.reads) with reads := table.reads + 1 }

def get (table : SessionTable S) (key : SessionKey) : SessionTable S × Option S :=
  let table := table.expire clock
  match table.entries.lookup key with
  | none => (table, none)
  | some entry =>
      let used := { entry with last := clock table.reads }
      ({ table with
          entries := table.entries.insert key used
          lru := table.lru.erase entry ++ [used]
          reads := table.reads + 1 },
        some entry.session)

/-- Remove the least recently used entries until there is room for one more. -/
def makeRoom (table : SessionTable S) : Option (SessionTable S) :=
  evictLoop (fun table : SessionTable S => table.entries.keys.length)
    (fun table => table.lru.head?) (fun entry table => table.removeLocked entry) table.capacity
    table.entries.keys.length table

/-- Remove the entry that has the key. -/
def removeOld (table : SessionTable S) (key : SessionKey) : SessionTable S :=
  match table.entries.lookup key with
  | none => table
  | some old => table.removeLocked old

/-- There is no result when the front of an empty list would be dereferenced. -/
def add (table : SessionTable S) (key : SessionKey) (session : S) : Option (SessionTable S) :=
  let now := clock table.reads
  match ((table.expire clock).removeOld key).makeRoom with
  | none => none
  | some table =>
      let entry : SessionEntry S := ⟨key, session, now⟩
      some { table with
        entries := table.entries.insert key entry
        lru := table.lru ++ [entry] }

def remove (table : SessionTable S) (key : SessionKey) (expected : S) : SessionTable S :=
  match table.entries.lookup key with
  | none => table
  | some entry => if entry.session = expected then table.removeLocked entry else table

/-! ## The map follows the list -/

/-- The map has exactly the entries of the list, under their keys. -/
structure Linked (table : SessionTable S) : Prop where
  distinct : (table.lru.map SessionEntry.key).Nodup
  lookup_iff : ∀ key entry,
    table.entries.lookup key = some entry ↔ entry ∈ table.lru ∧ entry.key = key

section Linked

variable {table : SessionTable S} {entry : SessionEntry S}

omit [DecidableEq S] in
theorem Linked.nodup (h : table.Linked) : table.lru.Nodup := h.distinct.of_map _

omit [DecidableEq S] in
theorem Linked.eq_of_key {other : SessionEntry S} (h : table.Linked) (hentry : entry ∈ table.lru)
    (hother : other ∈ table.lru) (hkey : entry.key = other.key) : entry = other :=
  List.inj_on_of_nodup_map h.distinct hentry hother hkey

omit [DecidableEq S] in
theorem Linked.lookup_eq_none_iff (h : table.Linked) {key : SessionKey} :
    table.entries.lookup key = none ↔ ∀ entry ∈ table.lru, entry.key ≠ key := by
  rw [Option.eq_none_iff_forall_ne_some]
  constructor
  · intro hnone entry hmem hkey
    exact hnone entry ((h.lookup_iff key entry).mpr ⟨hmem, hkey⟩)
  · intro hnone entry hlookup
    obtain ⟨hmem, hkey⟩ := (h.lookup_iff key entry).mp hlookup
    exact hnone entry hmem hkey

omit [DecidableEq S] in
theorem Linked.length_keys (h : table.Linked) : table.entries.keys.length = table.lru.length := by
  have hperm : table.entries.keys.Perm (table.lru.map SessionEntry.key) := by
    refine (List.perm_ext_iff_of_nodup table.entries.keys_nodup h.distinct).mpr fun key => ?_
    rw [← AList.mem_keys, ← AList.lookup_isSome, Option.isSome_iff_exists, List.mem_map]
    exact exists_congr fun entry => h.lookup_iff key entry
  rw [hperm.length_eq, List.length_map]

theorem mem_erase_iff (h : table.Linked) {other : SessionEntry S} (hentry : entry ∈ table.lru) :
    other ∈ table.lru.erase entry ↔ other ∈ table.lru ∧ other.key ≠ entry.key := by
  rw [h.nodup.mem_erase_iff, and_comm]
  refine and_congr_right fun hother => not_congr ⟨fun heq => heq ▸ rfl, fun hkey => ?_⟩
  exact h.eq_of_key hother hentry hkey

theorem removeLocked_linked (h : table.Linked) (hentry : entry ∈ table.lru) :
    (table.removeLocked entry).Linked where
  distinct := h.distinct.sublist (List.erase_sublist.map _)
  lookup_iff key other := by
    change (table.entries.erase entry.key).lookup key = some other ↔
      other ∈ table.lru.erase entry ∧ other.key = key
    rw [mem_erase_iff h hentry]
    by_cases hkey : key = entry.key
    · subst hkey
      rw [AList.lookup_erase]
      simp
    · rw [AList.lookup_erase_ne hkey, h.lookup_iff, and_assoc]
      exact and_congr_right fun _ => ⟨fun heq => ⟨heq ▸ hkey, heq⟩, And.right⟩

omit [DecidableEq S] in
/-- Put an entry under its key, at the end of the list, when no other has the key. -/
theorem insert_linked (h : table.Linked) (entry : SessionEntry S) {lru : List (SessionEntry S)}
    (hmem : ∀ other, other ∈ lru ↔ other ∈ table.lru ∧ other.key ≠ entry.key)
    (hsub : lru.Sublist table.lru) :
    Linked { table with
      entries := table.entries.insert entry.key entry, lru := lru ++ [entry] } where
  distinct := by
    have hnot : entry.key ∉ lru.map SessionEntry.key := by
      rintro hin
      obtain ⟨other, hother, hkey⟩ := List.mem_map.mp hin
      exact ((hmem other).mp hother).2 hkey
    rw [List.map_append, List.map_singleton, ← List.concat_eq_append]
    exact (h.distinct.sublist (hsub.map _)).concat hnot
  lookup_iff key other := by
    change (table.entries.insert entry.key entry).lookup key = some other ↔
      other ∈ lru ++ [entry] ∧ other.key = key
    rw [List.mem_append, List.mem_singleton, hmem]
    by_cases hkey : key = entry.key
    · subst hkey
      rw [AList.lookup_insert, Option.some.injEq, eq_comm]
      constructor
      · rintro rfl
        exact ⟨Or.inr rfl, rfl⟩
      · rintro ⟨⟨-, hne⟩ | heq, hkey⟩
        · exact absurd hkey hne
        · exact heq
    · rw [AList.lookup_insert_ne hkey, h.lookup_iff]
      constructor
      · rintro ⟨hother, rfl⟩
        exact ⟨Or.inl ⟨hother, hkey⟩, rfl⟩
      · rintro ⟨⟨hother, -⟩ | rfl, hsame⟩
        · exact ⟨hother, hsame⟩
        · exact absurd hsame.symm hkey

end Linked

/-! ## What the operations do to the list -/

/-- The entry has not been idle for too long. -/
def live (table : SessionTable S) (now : Int) (entry : SessionEntry S) : Bool :=
  now < entry.last + table.idle

section Operations

variable {table : SessionTable S} {entry : SessionEntry S} {clock}

/-- The loop removes what is no longer live, in order. -/
theorem expireLoop_spec {now : Int} (p : SessionEntry S → Bool) (done todo : List (SessionEntry S))
    (h : table.Linked) (hlru : table.lru = done ++ todo)
    (hp : ∀ e ∈ todo, p e = decide (now < e.last + table.idle)) :
    let after := todo.foldl (fun table entry =>
      if now < entry.last + table.idle then table else table.removeLocked entry) table
    after.Linked ∧ after.lru = done ++ todo.filter p ∧
      after.closed = table.closed ++ (todo.filter fun e => !p e).map SessionEntry.session ∧
      after.capacity = table.capacity ∧ after.idle = table.idle ∧ after.reads = table.reads := by
  induction todo generalizing table done with
  | nil => exact ⟨h, by simpa using hlru, by simp, rfl, rfl, rfl⟩
  | cons e rest ih =>
      obtain ⟨he, hrest⟩ := List.forall_mem_cons.mp hp
      by_cases hlive : now < e.last + table.idle
      · have hkeep : p e = true := by rw [he, decide_eq_true hlive]
        rw [List.foldl_cons, if_pos hlive]
        obtain ⟨hlinked, hlist, hclosed, hsame⟩ := ih (done ++ [e]) h (by simp [hlru]) hrest
        refine ⟨hlinked, ?_, ?_, hsame⟩
        · rw [hlist, List.filter_cons_of_pos hkeep, List.append_assoc, List.singleton_append]
        · rw [hclosed, List.filter_cons_of_neg (by simp [hkeep])]
      · have hdrop : p e = false := by rw [he, decide_eq_false hlive]
        have hmem : e ∈ table.lru := by simp [hlru]
        have hnot : e ∉ done := by
          have hnodup := h.nodup
          rw [hlru] at hnodup
          exact fun hin => (List.nodup_append.mp hnodup).2.2 e hin e List.mem_cons_self rfl
        have herase : (table.removeLocked e).lru = done ++ rest := by
          change table.lru.erase e = _
          rw [hlru, List.erase_append_right _ hnot, List.erase_cons_head]
        rw [List.foldl_cons, if_neg hlive]
        obtain ⟨hlinked, hlist, hclosed, hsame⟩ :=
          ih done (removeLocked_linked h hmem) herase hrest
        refine ⟨hlinked, ?_, ?_, hsame⟩
        · rw [hlist, List.filter_cons_of_neg (by simp [hdrop])]
        · rw [hclosed, List.filter_cons_of_pos (by simp [hdrop])]
          simp [removeLocked]

theorem expire_spec (clock : Nat → Int) (h : table.Linked) :
    (table.expire clock).Linked ∧
      (table.expire clock).lru = table.lru.filter (table.live (clock table.reads)) ∧
      (table.expire clock).closed = table.closed ++
        (table.lru.filter fun e => !table.live (clock table.reads) e).map SessionEntry.session ∧
      (table.expire clock).capacity = table.capacity ∧ (table.expire clock).idle = table.idle ∧
      (table.expire clock).reads = table.reads + 1 := by
  obtain ⟨⟨hdistinct, hlookup⟩, hlist, hclosed, hcapacity, hidle, -⟩ :=
    expireLoop_spec (table.live (clock table.reads)) [] table.lru h rfl fun e _ => rfl
  exact ⟨⟨hdistinct, hlookup⟩, hlist, hclosed, hcapacity, hidle, rfl⟩

/-- A lookup finds nothing under the key, or moves what it finds to the end. -/
theorem get_spec (clock : Nat → Int) (h : table.Linked) (key : SessionKey) :
    (table.get clock key).1.Linked ∧
      (table.get clock key).1.closed = (table.expire clock).closed ∧
      (table.get clock key).1.capacity = table.capacity ∧
      (table.get clock key).1.idle = table.idle ∧
      ((∀ e ∈ (table.expire clock).lru, e.key ≠ key) ∧ (table.get clock key).2 = none ∧
          (table.get clock key).1.lru = (table.expire clock).lru ∧
          (table.get clock key).1.reads = table.reads + 1 ∨
        ∃ e ∈ (table.expire clock).lru, e.key = key ∧ (table.get clock key).2 = some e.session ∧
          (table.get clock key).1.lru =
            (table.expire clock).lru.erase e ++ [{ e with last := clock (table.reads + 1) }] ∧
          (table.get clock key).1.reads = table.reads + 2) := by
  obtain ⟨hlinked, -, -, hcapacity, hidle, hreads⟩ := expire_spec clock h
  cases hlookup : (table.expire clock).entries.lookup key with
  | none =>
      have hget : table.get clock key = (table.expire clock, none) := by
        simp only [get, hlookup]
      rw [hget]
      exact ⟨hlinked, rfl, hcapacity, hidle,
        Or.inl ⟨hlinked.lookup_eq_none_iff.mp hlookup, rfl, rfl, hreads⟩⟩
  | some e =>
      obtain ⟨hmem, hkey⟩ := (hlinked.lookup_iff key e).mp hlookup
      let used : SessionEntry S := { e with last := clock (table.expire clock).reads }
      have hget : table.get clock key =
          ({ table.expire clock with
              entries := (table.expire clock).entries.insert used.key used
              lru := (table.expire clock).lru.erase e ++ [used]
              reads := (table.expire clock).reads + 1 }, some e.session) := by
        simp only [get, hlookup, used, hkey]
      have herase : ∀ other, other ∈ (table.expire clock).lru.erase e ↔
          other ∈ (table.expire clock).lru ∧ other.key ≠ used.key := fun other =>
        mem_erase_iff hlinked hmem
      obtain ⟨hdistinct, hiff⟩ := insert_linked hlinked used herase List.erase_sublist
      rw [hget]
      refine ⟨⟨hdistinct, hiff⟩, rfl, hcapacity, hidle, Or.inr ⟨e, hmem, hkey, rfl, ?_, ?_⟩⟩
      · simp only [used, hreads]
      · simp only [hreads]

/-- Making room removes the front of the list. -/
theorem makeRoom_spec (h : table.Linked) (hcapacity : 1 ≤ table.capacity) :
    ∃ room, table.makeRoom = some room ∧ room.Linked ∧
      room.lru = table.lru.drop (table.lru.length + 1 - table.capacity) ∧
      room.closed = table.closed ++
        (table.lru.take (table.lru.length + 1 - table.capacity)).map SessionEntry.session ∧
      room.capacity = table.capacity ∧ room.idle = table.idle ∧ room.reads = table.reads := by
  let Inv : SessionTable S → Prop := fun t => t.Linked ∧
    (∃ gone, table.lru = gone ++ t.lru ∧
      t.closed = table.closed ++ gone.map SessionEntry.session) ∧
    t.capacity = table.capacity ∧ t.idle = table.idle ∧ t.reads = table.reads
  let items : SessionTable S → List (SessionEntry S × Unit) := fun t => t.lru.map (·, ())
  have hremove (t : SessionTable S) (e : SessionEntry S) (u : Unit)
      (rest : List (SessionEntry S × Unit)) (ht : Inv t) (hitems : items t = (e, u) :: rest) :
      Inv (t.removeLocked e) ∧ items (t.removeLocked e) = rest := by
    obtain ⟨hlinked, ⟨gone, hsplit, hclosed⟩, hsame⟩ := ht
    obtain ⟨first, tail, hlru, hfirst, hrest⟩ := List.map_eq_cons_iff.mp hitems
    obtain rfl : first = e := congrArg Prod.fst hfirst
    have herase : (t.removeLocked first).lru = tail := by
      change t.lru.erase first = tail
      rw [hlru, List.erase_cons_head]
    refine ⟨⟨removeLocked_linked hlinked (by simp [hlru]), ⟨gone ++ [first], ?_, ?_⟩, hsame⟩, ?_⟩
    · rw [herase, hsplit, hlru, List.append_assoc, List.singleton_append]
    · rw [List.map_append, ← List.append_assoc, ← hclosed]
      rfl
    · change (t.removeLocked first).lru.map (·, ()) = rest
      rw [herase, hrest]
  obtain ⟨room, hroom, ⟨hlinked, ⟨gone, hsplit, hclosed⟩, hsame⟩, hitems⟩ :=
    evictLoop_spec (fun t : SessionTable S => t.entries.keys.length) (fun t => t.lru.head?)
      (fun e t => t.removeLocked e) Inv items hcapacity
      (fun t ht => ht.1.length_keys.trans (List.length_map _).symm)
      (fun t _ => by cases ht : t.lru <;> simp [items, ht]) hremove table.entries.keys.length table
      ⟨h, ⟨[], by simp, by simp⟩, rfl, rfl, rfl⟩
      (by rw [h.length_keys]; exact le_of_eq (List.length_map _))
  have hlru : room.lru = table.lru.drop (table.lru.length + 1 - table.capacity) := by
    have hmap := congrArg (List.map Prod.fst) hitems
    simpa [items, Function.comp_def] using hmap
  have hgone : gone = table.lru.take (table.lru.length + 1 - table.capacity) := by
    rw [hlru] at hsplit
    refine List.append_cancel_right (hsplit.symm.trans ?_)
    exact (List.take_append_drop _ _).symm
  exact ⟨room, hroom, hlinked, hlru, hgone ▸ hclosed, hsame⟩

/-- The entries that stay when a session is added under a key. -/
def others (table : SessionTable S) (key : SessionKey) : List (SessionEntry S) :=
  table.lru.filter (·.key ≠ key)

theorem filter_key_eq (h : table.Linked) (hentry : entry ∈ table.lru) :
    table.lru.filter (·.key = entry.key) = [entry] := by
  have hcongr : table.lru.filter (·.key = entry.key) = table.lru.filter (· == entry) := by
    refine List.filter_congr fun e he => ?_
    rw [Bool.eq_iff_iff, decide_eq_true_iff, beq_iff_eq]
    exact ⟨fun hkey => h.eq_of_key he hentry hkey, fun heq => heq ▸ rfl⟩
  rw [hcongr, List.filter_beq, List.count_eq_one_of_mem h.nodup hentry]
  rfl

theorem erase_eq_others (h : table.Linked) (hentry : entry ∈ table.lru) :
    table.lru.erase entry = table.others entry.key := by
  rw [h.nodup.erase_eq_filter, others]
  refine List.filter_congr fun e he => ?_
  rw [Bool.eq_iff_iff, bne_iff_ne, decide_eq_true_iff]
  exact not_congr ⟨fun heq => heq ▸ rfl, fun hkey => h.eq_of_key he hentry hkey⟩

theorem removeOld_spec (h : table.Linked) (key : SessionKey) :
    (table.removeOld key).Linked ∧ (table.removeOld key).lru = table.others key ∧
      (table.removeOld key).closed =
        table.closed ++ (table.lru.filter (·.key = key)).map SessionEntry.session ∧
      (table.removeOld key).capacity = table.capacity ∧
      (table.removeOld key).idle = table.idle ∧ (table.removeOld key).reads = table.reads := by
  unfold removeOld
  cases hlookup : table.entries.lookup key with
  | none =>
      have hnone := h.lookup_eq_none_iff.mp hlookup
      refine ⟨h, ?_, ?_, rfl, rfl, rfl⟩
      · exact (List.filter_eq_self.mpr fun e he => by simpa using hnone e he).symm
      · rw [List.filter_eq_nil_iff.mpr fun e he => by simpa using hnone e he]
        simp
  | some old =>
      obtain ⟨hmem, rfl⟩ := (h.lookup_iff key old).mp hlookup
      refine ⟨removeLocked_linked h hmem, erase_eq_others h hmem, ?_, rfl, rfl, rfl⟩
      rw [filter_key_eq h hmem]
      rfl

/-- Adding never fails: what was under the key and the front of the list leave, and the
new entry comes last. -/
theorem add_spec (clock : Nat → Int) (h : table.Linked) (hcapacity : 1 ≤ table.capacity)
    (key : SessionKey) (session : S) :
    let kept := (table.expire clock).others key
    let excess := kept.length + 1 - table.capacity
    ∃ after, table.add clock key session = some after ∧ after.Linked ∧
      after.lru = kept.drop excess ++ [⟨key, session, clock table.reads⟩] ∧
      after.closed = (table.expire clock).closed ++
        ((table.expire clock).lru.filter (·.key = key)).map SessionEntry.session ++
        (kept.take excess).map SessionEntry.session ∧
      after.capacity = table.capacity ∧ after.idle = table.idle ∧
      after.reads = table.reads + 1 := by
  intro kept excess
  obtain ⟨hlinked, -, -, hcap, hidle, hreads⟩ := expire_spec clock h
  obtain ⟨hlinked', hlru, hclosed, hcap', hidle', hreads'⟩ := removeOld_spec hlinked key
  obtain ⟨room, hroom, hrlinked, hrlru, hrclosed, hrcap, hridle, hrreads⟩ :=
    makeRoom_spec hlinked' (by rw [hcap', hcap]; exact hcapacity)
  rw [hlru, hcap', hcap] at hrlru
  rw [hlru, hclosed, hcap', hcap] at hrclosed
  let entry : SessionEntry S := ⟨key, session, clock table.reads⟩
  have hnew : ∀ other, other ∈ room.lru ↔ other ∈ room.lru ∧ other.key ≠ entry.key := by
    refine fun other => ⟨fun hother => ⟨hother, ?_⟩, And.left⟩
    rw [hrlru] at hother
    simpa using (List.mem_filter.mp (List.mem_of_mem_drop hother)).2
  refine ⟨{ room with
    entries := room.entries.insert key entry, lru := room.lru ++ [entry] }, ?_,
    insert_linked hrlinked entry hnew (List.Sublist.refl _), ?_, hrclosed,
    hrcap.trans (hcap'.trans hcap), hridle.trans (hidle'.trans hidle), ?_⟩
  · simp only [add, hroom, entry]
  · exact congrArg (· ++ [entry]) hrlru
  · exact hrreads.trans (hreads'.trans hreads)

/-- Removing a session removes its entry, if it still is the one under the key. -/
theorem remove_spec (h : table.Linked) (key : SessionKey) (expected : S) :
    (∃ e ∈ table.lru, e.key = key ∧ e.session = expected ∧
        table.remove key expected = table.removeLocked e) ∨
      (∀ e ∈ table.lru, e.key = key → e.session ≠ expected) ∧
        table.remove key expected = table := by
  unfold remove
  cases hlookup : table.entries.lookup key with
  | none =>
      have hnone := h.lookup_eq_none_iff.mp hlookup
      exact Or.inr ⟨fun e he hkey => absurd hkey (hnone e he), rfl⟩
  | some e =>
      obtain ⟨hmem, hkey⟩ := (h.lookup_iff key e).mp hlookup
      by_cases hsession : e.session = expected
      · exact Or.inl ⟨e, hmem, hkey, hsession, if_pos hsession⟩
      · refine Or.inr ⟨fun e' he' hkey' => ?_, if_neg hsession⟩
        rwa [h.eq_of_key he' hmem (hkey'.trans hkey.symm)]

end Operations

end SessionTable

end Hy2Route.Dataplane
