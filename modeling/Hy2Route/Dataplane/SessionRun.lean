import Hy2Route.Dataplane.SessionTable
import Mathlib.Data.Int.ConditionallyCompleteOrder
import Mathlib.Order.ConditionallyCompleteLattice.Basic

/-!
# Runs of the session table

Over any sequence of calls the table is a bounded map in order of use that owns its
sessions: a session is in the table until it has been idle for too long, is replaced,
evicted or removed, and it is closed exactly once, when it leaves.
-/

namespace Hy2Route.Dataplane

open Foundation

inductive SessionCall (S : Type) where
  | get (key : SessionKey)
  | add (key : SessionKey) (session : S)
  | expire
  | remove (key : SessionKey) (session : S)

def SessionCall.added {S : Type} : SessionCall S → Option S
  | .add _ session => some session
  | _ => none

/-- The sessions that the calls add. -/
def sessionsAdded {S : Type} (calls : List (SessionCall S)) : List S :=
  calls.filterMap SessionCall.added

section Calls

variable {S : Type} [DecidableEq S] (clock : Nat → Int)

/-- The table after a call. -/
def SessionTable.call (table : SessionTable S) : SessionCall S → SessionTable S
  | .get key => (table.get clock key).1
  | .add key session => (table.add clock key session).getD table
  | .expire => table.expire clock
  | .remove key session => table.remove key session

/-- The key that a call uses, and when. -/
def SessionTable.used (table : SessionTable S) : SessionCall S → Option (SessionKey × Int)
  | .get key => (table.get clock key).2.map fun _ => (key, clock (table.reads + 1))
  | .add key _ => some (key, clock table.reads)
  | .expire => none
  | .remove _ _ => none

/-- A table with the uses of its keys, the latest in front. -/
structure LoggedTable (S : Type) where
  table : SessionTable S
  log : List (SessionKey × Int)

def LoggedTable.call (s : LoggedTable S) (c : SessionCall S) : LoggedTable S :=
  ⟨s.table.call clock c, (s.table.used clock c).toList ++ s.log⟩

/-- What a call does to the list of entries. -/
inductive SessionStep (table : SessionTable S) : SessionCall S → SessionTable S → Prop where
  | missed {after : SessionTable S} (key : SessionKey)
      (absent : ∀ e ∈ (table.expire clock).lru, e.key ≠ key)
      (used : table.used clock (.get key) = none)
      (lru : after.lru = (table.expire clock).lru)
      (closed : after.closed = (table.expire clock).closed)
      (reads : after.reads = table.reads + 1) : SessionStep table (.get key) after
  | hit {after : SessionTable S} (e : SessionEntry S) (mem : e ∈ (table.expire clock).lru)
      (used : table.used clock (.get e.key) = some (e.key, clock (table.reads + 1)))
      (lru : after.lru =
        (table.expire clock).others e.key ++ [{ e with last := clock (table.reads + 1) }])
      (closed : after.closed = (table.expire clock).closed)
      (reads : after.reads = table.reads + 2) : SessionStep table (.get e.key) after
  | added {after : SessionTable S} (key : SessionKey) (session : S) (excess : Nat)
      (full : excess = ((table.expire clock).others key).length + 1 - table.capacity)
      (lru : after.lru = ((table.expire clock).others key).drop excess ++
        [⟨key, session, clock table.reads⟩])
      (closed : after.closed = (table.expire clock).closed ++
        ((table.expire clock).lru.filter (·.key = key)).map SessionEntry.session ++
        (((table.expire clock).others key).take excess).map SessionEntry.session)
      (reads : after.reads = table.reads + 1) : SessionStep table (.add key session) after
  | expired {after : SessionTable S} (lru : after.lru = (table.expire clock).lru)
      (closed : after.closed = (table.expire clock).closed)
      (reads : after.reads = table.reads + 1) : SessionStep table .expire after
  | removed {after : SessionTable S} (e : SessionEntry S) (mem : e ∈ table.lru)
      (lru : after.lru = table.others e.key) (closed : after.closed = table.closed ++ [e.session])
      (reads : after.reads = table.reads) : SessionStep table (.remove e.key e.session) after
  | kept (key : SessionKey) (session : S)
      (other : ∀ e ∈ table.lru, e.key = key → e.session ≠ session) :
      SessionStep table (.remove key session) table

variable {clock} {table : SessionTable S}

/-- Every call keeps the map in step with the list and does one of the steps. -/
theorem SessionTable.call_spec (clock : Nat → Int) (h : table.Linked)
    (hcapacity : 1 ≤ table.capacity) (c : SessionCall S) :
    (table.call clock c).Linked ∧ (table.call clock c).capacity = table.capacity ∧
      (table.call clock c).idle = table.idle ∧ SessionStep clock table c (table.call clock c) := by
  cases c with
  | get key =>
      obtain ⟨hlinked, hclosed, hcap, hidle, hget⟩ := get_spec clock h key
      refine ⟨hlinked, hcap, hidle, ?_⟩
      rcases hget with ⟨habsent, hresult, hlru, hreads⟩ | ⟨e, hmem, rfl, hresult, hlru, hreads⟩
      · exact .missed key habsent (by rw [used, hresult]; rfl) hlru hclosed hreads
      · refine .hit e hmem (by rw [used, hresult]; rfl) ?_ hclosed hreads
        rw [← erase_eq_others (expire_spec clock h).1 hmem]
        exact hlru
  | add key session =>
      obtain ⟨after, hadd, hlinked, hlru, hclosed, hcap, hidle, hreads⟩ :=
        add_spec clock h hcapacity key session
      have hcall : table.call clock (.add key session) = after := by
        rw [call, hadd, Option.getD_some]
      rw [hcall]
      exact ⟨hlinked, hcap, hidle, .added key session _ rfl hlru hclosed hreads⟩
  | expire =>
      obtain ⟨hlinked, -, -, hcap, hidle, hreads⟩ := expire_spec clock h
      exact ⟨hlinked, hcap, hidle, .expired rfl rfl hreads⟩
  | remove key session =>
      rcases remove_spec h key session with ⟨e, hmem, rfl, rfl, hremove⟩ | ⟨hother, hremove⟩
      · have hcall : table.call clock (.remove e.key e.session) = table.removeLocked e := hremove
        rw [hcall]
        exact ⟨removeLocked_linked h hmem, rfl, rfl,
          .removed e hmem (erase_eq_others h hmem) rfl rfl⟩
      · have hcall : table.call clock (.remove key session) = table := hremove
        rw [hcall]
        exact ⟨h, rfl, rfl, .kept key session hother⟩

/-! ## Sessions are closed when they leave -/

omit [DecidableEq S] in
theorem perm_others (key : SessionKey) (lru : List (SessionEntry S)) :
    (lru.filter (·.key = key) ++ lru.filter (·.key ≠ key)).Perm lru := by
  have hother : lru.filter (·.key ≠ key) = lru.filter fun e => !decide (e.key = key) :=
    List.filter_congr fun e _ => by simp
  rw [hother]
  exact List.filter_append_perm _ lru

/-- What expires is closed. -/
theorem expire_conserves (clock : Nat → Int) (h : table.Linked) :
    ((table.expire clock).closed ++ (table.expire clock).lru.map SessionEntry.session).Perm
      (table.closed ++ table.lru.map SessionEntry.session) := by
  obtain ⟨-, hlru, hclosed, -⟩ := SessionTable.expire_spec clock h
  rw [hlru, hclosed, List.append_assoc, ← List.map_append]
  refine ((List.perm_append_comm.trans ?_).map SessionEntry.session).append_left _
  exact List.filter_append_perm (table.live (clock table.reads)) table.lru

theorem SessionStep.conserves (h : table.Linked) {c : SessionCall S} {after : SessionTable S}
    (hstep : SessionStep clock table c after) :
    (after.closed ++ after.lru.map SessionEntry.session).Perm
      (table.closed ++ table.lru.map SessionEntry.session ++ c.added.toList) := by
  have hexpire := expire_conserves clock h
  have hlinked := (SessionTable.expire_spec clock h).1
  have hout {t : SessionTable S} (ht : t.Linked) {e : SessionEntry S} (hmem : e ∈ t.lru) :
      (e.session :: (t.others e.key).map SessionEntry.session).Perm
        (t.lru.map SessionEntry.session) := by
    rw [← SessionTable.erase_eq_others ht hmem]
    exact (List.perm_cons_erase hmem).symm.map SessionEntry.session
  cases hstep with
  | missed key absent used lru closed reads =>
      rw [lru, closed]
      simpa [SessionCall.added] using hexpire
  | hit e mem used lru closed reads =>
      rw [lru, closed, List.map_append]
      refine List.Perm.trans ?_ (by simpa [SessionCall.added] using hexpire)
      exact (List.perm_append_comm.trans (hout hlinked mem)).append_left _
  | added key session excess full lru closed reads =>
      rw [lru, closed, List.map_append, ← List.append_assoc]
      refine List.Perm.append ?_ (List.Perm.refl _)
      refine List.Perm.trans ?_ hexpire
      rw [List.append_assoc, List.append_assoc, ← List.map_append, ← List.map_append,
        List.take_append_drop]
      exact ((perm_others key _).map SessionEntry.session).append_left _
  | expired lru closed reads =>
      rw [lru, closed]
      simpa [SessionCall.added] using hexpire
  | removed e mem lru closed reads =>
      rw [lru, closed, List.append_assoc]
      simpa [SessionCall.added] using (hout h mem).append_left table.closed
  | kept key session other => simp [SessionCall.added]

/-! ## Which sessions the table holds -/

/-- The session is in the table under the key. -/
def SessionTable.Holds (table : SessionTable S) (key : SessionKey) (session : S) : Prop :=
  ∃ e ∈ table.lru, e.key = key ∧ e.session = session

/-- The session was last used at least the idle period before the given time. -/
def SessionTable.IdleAt (table : SessionTable S) (now : Int) (key : SessionKey) (session : S) :
    Prop :=
  ∃ e ∈ table.lru, e.key = key ∧ e.session = session ∧ e.last + table.idle ≤ now

/-- The call looks for idle sessions, and the session is idle at its time. -/
def SessionTable.Expires (clock : Nat → Int) (table : SessionTable S) (c : SessionCall S)
    (key : SessionKey) (session : S) : Prop :=
  (∀ key session, c ≠ .remove key session) ∧ table.IdleAt (clock table.reads) key session

/-- The call adds a session under the key. -/
def SessionCall.Replaces (c : SessionCall S) (key : SessionKey) : Prop :=
  ∃ session, c = .add key session

/-- The call adds a session under another key, and the session is not idle but gone after
the call. -/
def SessionTable.Evicts (clock : Nat → Int) (table : SessionTable S) (c : SessionCall S)
    (key : SessionKey) (session : S) : Prop :=
  (∃ other new, c = .add other new ∧ other ≠ key) ∧
    table.Holds key session ∧ ¬ table.IdleAt (clock table.reads) key session ∧
    ¬ (table.call clock c).Holds key session

/-- The ways in which a call takes a session out of the table. -/
def SessionTable.Loses (clock : Nat → Int) (table : SessionTable S) (c : SessionCall S)
    (key : SessionKey) (session : S) : Prop :=
  c.Replaces key ∨ c = .remove key session ∨ table.Expires clock c key session ∨
    table.Evicts clock c key session

section Holds

variable {key : SessionKey} {session : S}

theorem holds_expire (h : table.Linked) :
    (table.expire clock).Holds key session ↔
      table.Holds key session ∧ ¬ table.IdleAt (clock table.reads) key session := by
  obtain ⟨-, hlru, -⟩ := SessionTable.expire_spec clock h
  unfold SessionTable.Holds SessionTable.IdleAt
  rw [hlru]
  constructor
  · rintro ⟨e, hmem, hkey, hsession⟩
    obtain ⟨hin, hlive⟩ := List.mem_filter.mp hmem
    refine ⟨⟨e, hin, hkey, hsession⟩, ?_⟩
    rintro ⟨e', hin', hkey', -, hidle⟩
    rw [h.eq_of_key hin' hin (hkey'.trans hkey.symm)] at hidle
    exact absurd (of_decide_eq_true hlive) (Int.not_lt.mpr hidle)
  · rintro ⟨⟨e, hin, hkey, hsession⟩, hbusy⟩
    refine ⟨e, List.mem_filter.mpr ⟨hin, decide_eq_true ?_⟩, hkey, hsession⟩
    exact Int.not_le.mp fun hidle => hbusy ⟨e, hin, hkey, hsession, hidle⟩

omit [DecidableEq S] in
/-- Moving an entry to the end with a new time does not change what is held. -/
theorem exists_mem_moved (h : table.Linked) {e : SessionEntry S} (hmem : e ∈ table.lru)
    (time : Int) :
    (∃ e' ∈ table.others e.key ++ [{ e with last := time }],
        e'.key = key ∧ e'.session = session) ↔ table.Holds key session := by
  unfold SessionTable.Holds
  constructor
  · rintro ⟨e', hin, hkey, hsession⟩
    rcases List.mem_append.mp hin with hother | hlast
    · exact ⟨e', (List.mem_filter.mp hother).1, hkey, hsession⟩
    · rw [List.mem_singleton] at hlast
      subst hlast
      exact ⟨e, hmem, hkey, hsession⟩
  · rintro ⟨e', hin, hkey, hsession⟩
    by_cases hsame : e'.key = e.key
    · obtain rfl := h.eq_of_key hin hmem hsame
      exact ⟨_, List.mem_append_right _ (List.mem_singleton.mpr rfl), hkey, hsession⟩
    · exact ⟨e', List.mem_append_left _ (List.mem_filter.mpr ⟨hin, by simpa using hsame⟩), hkey,
        hsession⟩

omit [DecidableEq S] in
theorem exists_mem_added_self {new : S} (excess : Nat) (time : Int) :
    (∃ e ∈ (table.others key).drop excess ++ [⟨key, new, time⟩],
        e.key = key ∧ e.session = session) ↔ new = session := by
  constructor
  · rintro ⟨e, hin, hkey, hsession⟩
    rcases List.mem_append.mp hin with hold | hlast
    · have hother := (List.mem_filter.mp (List.mem_of_mem_drop hold)).2
      simp [hkey] at hother
    · rw [List.mem_singleton] at hlast
      rw [← hsession, hlast]
  · rintro rfl
    exact ⟨_, List.mem_append_right _ (List.mem_singleton.mpr rfl), rfl, rfl⟩

omit [DecidableEq S] in
theorem holds_of_mem_added {other : SessionKey} {new : S} (hne : other ≠ key) {excess : Nat}
    {time : Int} (h : ∃ e ∈ (table.others other).drop excess ++ [⟨other, new, time⟩],
      e.key = key ∧ e.session = session) : table.Holds key session := by
  obtain ⟨e, hin, rfl, hsession⟩ := h
  rcases List.mem_append.mp hin with hold | hlast
  · exact ⟨e, (List.mem_filter.mp (List.mem_of_mem_drop hold)).1, rfl, hsession⟩
  · rw [List.mem_singleton] at hlast
    exact absurd (by rw [hlast]) hne

omit [DecidableEq S] in
theorem exists_mem_others (h : table.Linked) {e : SessionEntry S} (hmem : e ∈ table.lru) :
    (∃ e' ∈ table.others e.key, e'.key = key ∧ e'.session = session) ↔
      table.Holds key session ∧ ¬ (e.key = key ∧ e.session = session) := by
  constructor
  · rintro ⟨e', hin, hkey, hsession⟩
    obtain ⟨hin, hne⟩ := List.mem_filter.mp hin
    refine ⟨⟨e', hin, hkey, hsession⟩, fun hsame => ?_⟩
    simp [hkey, hsame.1] at hne
  · rintro ⟨⟨e', hin, hkey, hsession⟩, hother⟩
    refine ⟨e', List.mem_filter.mpr ⟨hin, decide_eq_true fun hsame => hother ?_⟩, hkey,
      hsession⟩
    rw [← h.eq_of_key hin hmem hsame]
    exact ⟨hkey, hsession⟩

/-- After a call the table holds what the call added, and what it held before and the
call did not lose. -/
theorem holds_call (h : table.Linked) (hcapacity : 1 ≤ table.capacity) (c : SessionCall S) :
    (table.call clock c).Holds key session ↔
      c = .add key session ∨ table.Holds key session ∧ ¬ table.Loses clock c key session := by
  obtain ⟨-, -, -, hstep⟩ := SessionTable.call_spec clock h hcapacity c
  have hexpire : (table.expire clock).Holds key session ↔
      table.Holds key session ∧ ¬ table.IdleAt (clock table.reads) key session := holds_expire h
  have hlinked := (SessionTable.expire_spec clock h).1
  unfold SessionTable.Loses SessionTable.Expires SessionTable.Evicts SessionCall.Replaces
  generalize table.call clock c = after at hstep ⊢
  cases hstep with
  | missed key' absent used lru closed reads =>
      unfold SessionTable.Holds at hexpire ⊢
      rw [lru, hexpire]
      simp
  | hit e mem used lru closed reads =>
      have hmoved : after.Holds key session ↔ (table.expire clock).Holds key session := by
        unfold SessionTable.Holds
        rw [lru]
        exact exists_mem_moved hlinked mem (clock (table.reads + 1))
      rw [hmoved, hexpire]
      simp
  | added key' session' excess full lru closed reads =>
      by_cases hkey : key' = key
      · subst hkey
        have hnew : after.Holds key' session ↔ session' = session := by
          unfold SessionTable.Holds
          rw [lru]
          exact exists_mem_added_self excess _
        rw [hnew]
        simp
      · have hold : after.Holds key session → (table.expire clock).Holds key session := by
          unfold SessionTable.Holds
          rw [lru]
          exact holds_of_mem_added hkey
        rw [hexpire] at hold
        have hother : ∃ other new, SessionCall.add key' session' = .add other new ∧ other ≠ key :=
          ⟨key', session', rfl, hkey⟩
        have hreplaces : ¬ ∃ new, SessionCall.add key' session' = .add key new := by
          rintro ⟨new, heq⟩
          cases heq
          exact hkey rfl
        have hadd : ¬ SessionCall.add key' session' = .add key session := fun heq =>
          hreplaces ⟨session, heq⟩
        simp only [hadd, hreplaces, hother, reduceCtorEq, ne_eq, not_false_eq_true, implies_true,
          true_and, false_or]
        tauto
  | expired lru closed reads =>
      unfold SessionTable.Holds at hexpire ⊢
      rw [lru, hexpire]
      simp
  | removed e mem lru closed reads =>
      have hleft : after.Holds key session ↔
          table.Holds key session ∧ ¬ (e.key = key ∧ e.session = session) := by
        rw [SessionTable.Holds, lru]
        exact exists_mem_others h mem
      rw [hleft]
      simp
  | kept key' session' other =>
      have hother : table.Holds key session → ¬ (key' = key ∧ session' = session) := by
        rintro ⟨e, hin, hkey, hsession⟩ ⟨rfl, rfl⟩
        exact other e hin hkey hsession
      constructor
      · intro hholds
        refine Or.inr ⟨hholds, ?_⟩
        simpa using hother hholds
      · rintro (hadd | ⟨hholds, -⟩)
        · cases hadd
        · exact hholds

theorem get_eq_some_iff (h : table.Linked) :
    (table.get clock key).2 = some session ↔
      table.Holds key session ∧ ¬ table.IdleAt (clock table.reads) key session := by
  rw [← holds_expire h]
  obtain ⟨-, -, -, -, hget⟩ := SessionTable.get_spec clock h key
  have hlinked := (SessionTable.expire_spec clock h).1
  rcases hget with ⟨habsent, hresult, -⟩ | ⟨e, hmem, rfl, hresult, -⟩
  · rw [hresult]
    refine iff_of_false (by simp) ?_
    rintro ⟨e, hmem, hkey, -⟩
    exact habsent e hmem hkey
  · rw [hresult, Option.some.injEq]
    constructor
    · rintro rfl
      exact ⟨e, hmem, rfl, rfl⟩
    · rintro ⟨e', hmem', hkey, rfl⟩
      rw [hlinked.eq_of_key hmem' hmem hkey]

/-- What is evicted is the front of a full table. -/
theorem SessionTable.Evicts.front (h : table.Linked) (hcapacity : 1 ≤ table.capacity)
    (hbounded : table.lru.length ≤ table.capacity) {c : SessionCall S}
    (hevicts : table.Evicts clock c key session) :
    ∃ e rest, (table.expire clock).lru = e :: rest ∧ e.key = key ∧ e.session = session ∧
      (e :: rest).length = table.capacity := by
  obtain ⟨⟨other, new, rfl, hne⟩, hholds, hbusy, hgone⟩ := hevicts
  obtain ⟨-, hlru, -⟩ := expire_spec clock h
  obtain ⟨-, -, -, hstep⟩ := call_spec clock h hcapacity (.add other new)
  obtain ⟨e, hmem, rfl, rfl⟩ := (holds_expire h).mpr ⟨hholds, hbusy⟩
  generalize table.call clock (.add other new) = after at hstep hgone
  cases hstep with
  | added _ _ excess full lru closed reads =>
      have hkept : e ∈ (table.expire clock).others other :=
        List.mem_filter.mpr ⟨hmem, by simpa using hne.symm⟩
      have hlost : e ∉ ((table.expire clock).others other).drop excess := fun hin =>
        hgone ⟨e, lru ▸ List.mem_append_left _ hin, rfl, rfl⟩
      have hlength : ((table.expire clock).others other).length ≤
          (table.expire clock).lru.length := List.length_filter_le _ _
      have hlive : (table.expire clock).lru.length ≤ table.capacity := by
        rw [hlru]
        exact (List.length_filter_le _ _).trans hbounded
      have hexcess : excess ≠ 0 := by
        rintro rfl
        exact hlost hkept
      -- one entry is too many, so no entry had the key that is added
      have hone : excess = 1 := by omega
      have hfull : ((table.expire clock).others other).length = table.capacity := by omega
      have hall : ((table.expire clock).others other).length =
          (table.expire clock).lru.length := by omega
      have hsame : (table.expire clock).others other = (table.expire clock).lru :=
        List.filter_sublist.eq_of_length hall
      rw [hsame] at hkept hlost hfull
      cases hlist : (table.expire clock).lru with
      | nil =>
          rw [hlist] at hkept
          cases hkept
      | cons first rest =>
          rw [hlist, hone] at hlost
          rw [hlist] at hkept hfull
          obtain rfl := (List.mem_cons.mp hkept).resolve_right hlost
          exact ⟨e, rest, rfl, rfl, rfl, hfull⟩

end Holds

/-! ## The order of use -/

/-- The entries are in the order of the logged uses, and have their times. -/
structure UsedInOrder (clock : Nat → Int) (reads : Nat) (log : List (SessionKey × Int))
    (lru : List (SessionEntry S)) : Prop where
  timed : ∀ e ∈ lru, ∃ i < reads, e.last = clock i
  sorted : lru.Pairwise fun e e' => e.last ≤ e'.last
  logged : ∀ e ∈ lru, log.find? (·.1 = e.key) = some (e.key, e.last)
  ordered : ByLastUse (log.map Prod.fst) (lru.map SessionEntry.key)

section UsedInOrder

variable {reads : Nat} {log : List (SessionKey × Int)} {lru kept : List (SessionEntry S)}

omit [DecidableEq S] in
theorem UsedInOrder.sublist (h : UsedInOrder clock reads log lru) (hsub : kept.Sublist lru) :
    UsedInOrder clock reads log kept where
  timed e he := h.timed e (hsub.mem he)
  sorted := h.sorted.sublist hsub
  logged e he := h.logged e (hsub.mem he)
  ordered := h.ordered.sublist (hsub.map _)

omit [DecidableEq S] in
theorem UsedInOrder.mono {reads' : Nat} (h : UsedInOrder clock reads log lru)
    (hle : reads ≤ reads') : UsedInOrder clock reads' log lru where
  timed e he := (h.timed e he).imp fun _ hi => ⟨Nat.lt_of_lt_of_le hi.1 hle, hi.2⟩
  sorted := h.sorted
  logged := h.logged
  ordered := h.ordered

omit [DecidableEq S] in
/-- Entries under other keys, followed by one that is used now, are in order. -/
theorem UsedInOrder.use (hmono : Monotone clock) (h : UsedInOrder clock reads log lru)
    (new : SessionEntry S) (htime : new.last = clock reads)
    (hsub : kept.Sublist (lru.filter (·.key ≠ new.key))) :
    UsedInOrder clock (reads + 1) ((new.key, new.last) :: log) (kept ++ [new]) := by
  have hold : ∀ e ∈ kept, e ∈ lru ∧ e.key ≠ new.key := fun e he => by
    obtain ⟨hin, hne⟩ := List.mem_filter.mp (hsub.mem he)
    exact ⟨hin, by simpa using hne⟩
  refine ⟨?_, ?_, ?_, ?_⟩
  · refine List.forall_mem_append.mpr ⟨fun e he => ?_, List.forall_mem_singleton.mpr ?_⟩
    · obtain ⟨i, hi, hlast⟩ := h.timed e (hold e he).1
      exact ⟨i, Nat.lt_succ_of_lt hi, hlast⟩
    · exact ⟨reads, Nat.lt_succ_self reads, htime⟩
  · refine List.pairwise_append.mpr ⟨?_, List.pairwise_singleton _ _, fun e he e' he' => ?_⟩
    · exact h.sorted.sublist (hsub.trans List.filter_sublist)
    · obtain ⟨i, hi, hlast⟩ := h.timed e (hold e he).1
      rw [List.mem_singleton.mp he', htime, hlast]
      exact hmono (Nat.le_of_lt hi)
  · refine List.forall_mem_append.mpr ⟨fun e he => ?_, List.forall_mem_singleton.mpr ?_⟩
    · rw [List.find?_cons_of_neg (by simpa using (hold e he).2.symm)]
      exact h.logged e (hold e he).1
    · rw [List.find?_cons_of_pos (by simp)]
  · rw [List.map_cons, List.map_append, List.map_singleton]
    refine (h.ordered.use new.key).sublist (List.Sublist.append_right ?_ _)
    rw [List.filter_map]
    exact hsub.map _

end UsedInOrder

/-! ## Whole runs -/

/-- A linked and bounded table in the order of the logged uses. -/
structure LoggedTable.Follows (clock : Nat → Int) (capacity : Nat) (idle : Int)
    (s : LoggedTable S) : Prop where
  linked : s.table.Linked
  capacity_eq : s.table.capacity = capacity
  idle_eq : s.table.idle = idle
  bounded : s.table.lru.length ≤ capacity
  inOrder : UsedInOrder clock s.table.reads s.log s.table.lru

section Follows

variable {capacity : Nat} {idle : Int} {s : LoggedTable S}

theorem LoggedTable.Follows.call (hmono : Monotone clock) (hcapacity : 1 ≤ capacity)
    (h : s.Follows clock capacity idle) (c : SessionCall S) :
    (s.call clock c).Follows clock capacity idle := by
  have hpos : 1 ≤ s.table.capacity := h.capacity_eq.symm ▸ hcapacity
  obtain ⟨hlinked, hcap, hidle, hstep⟩ := SessionTable.call_spec clock h.linked hpos c
  obtain ⟨-, hfilter, -⟩ := SessionTable.expire_spec clock h.linked
  have hsub : (s.table.expire clock).lru.Sublist s.table.lru := hfilter ▸ List.filter_sublist
  have hlive := h.inOrder.sublist hsub
  have hbounded := hsub.length_le.trans h.bounded
  suffices hlist : (s.table.call clock c).lru.length ≤ capacity ∧
      UsedInOrder clock (s.table.call clock c).reads ((s.table.used clock c).toList ++ s.log)
        (s.table.call clock c).lru from
    ⟨hlinked, hcap.trans h.capacity_eq, hidle.trans h.idle_eq, hlist.1, hlist.2⟩
  generalize s.table.call clock c = after at hstep
  cases hstep with
  | missed key absent used lru closed reads =>
      rw [lru, used, reads]
      exact ⟨hbounded, hlive.mono (Nat.le_succ _)⟩
  | hit e mem used lru closed reads =>
      have hlength : ((s.table.expire clock).others e.key).length + 1 =
          (s.table.expire clock).lru.length := by
        have hexpired := (SessionTable.expire_spec clock h.linked).1
        have herase := List.length_erase_of_mem mem
        rw [← SessionTable.erase_eq_others hexpired mem, herase]
        exact Nat.sub_add_cancel (List.length_pos_of_mem mem)
      rw [lru, used, reads]
      refine ⟨by rw [List.length_append, List.length_singleton, hlength]; exact hbounded, ?_⟩
      exact (hlive.mono (Nat.le_succ _)).use hmono { e with last := clock (s.table.reads + 1) } rfl
        (List.Sublist.refl _)
  | added key session excess full lru closed reads =>
      rw [lru, reads]
      refine ⟨?_, hlive.use hmono ⟨key, session, clock s.table.reads⟩ rfl (List.drop_sublist _ _)⟩
      rw [List.length_append, List.length_singleton, List.length_drop, full, h.capacity_eq]
      omega
  | expired lru closed reads =>
      rw [lru, reads]
      exact ⟨hbounded, hlive.mono (Nat.le_succ _)⟩
  | removed e mem lru closed reads =>
      rw [lru, reads]
      exact ⟨(List.length_filter_le _ _).trans h.bounded, h.inOrder.sublist List.filter_sublist⟩
  | kept key session other => exact ⟨h.bounded, h.inOrder⟩

end Follows

/-- A new table after the calls. -/
def runSessions (clock : Nat → Int) (capacity idle : Int) (calls : List (SessionCall S)) :
    LoggedTable S :=
  calls.foldl (LoggedTable.call clock) ⟨newSessionTable capacity idle, []⟩

omit [DecidableEq S] in
theorem follows_new (clock : Nat → Int) (capacity idle : Int) :
    (⟨newSessionTable capacity idle, []⟩ : LoggedTable S).Follows clock (max capacity 1).toNat
      (idlePeriod idle) where
  linked := ⟨List.nodup_nil, by simp [newSessionTable]⟩
  capacity_eq := by
    simp only [newSessionTable]
    split_ifs <;> omega
  idle_eq := rfl
  bounded := Nat.zero_le _
  inOrder := ⟨by simp [newSessionTable], List.Pairwise.nil, by simp [newSessionTable],
    List.Pairwise.nil⟩

theorem follows_run (hmono : Monotone clock) (capacity idle : Int) (calls : List (SessionCall S)) :
    (runSessions clock capacity idle calls).Follows clock (max capacity 1).toNat
      (idlePeriod idle) := by
  have hstep (s : LoggedTable S) (c : SessionCall S)
      (h : s.Follows clock (max capacity 1).toNat (idlePeriod idle)) :
      (s.call clock c).Follows clock (max capacity 1).toNat (idlePeriod idle) :=
    h.call hmono (by omega) c
  exact foldl_invariant hstep (follows_new clock capacity idle) calls

/-- The sessions that were added are those that were closed and those in the table. -/
theorem run_conserves (hmono : Monotone clock) (capacity idle : Int)
    (calls : List (SessionCall S)) :
    let table := (runSessions clock capacity idle calls).table
    (table.closed ++ table.lru.map SessionEntry.session).Perm (sessionsAdded calls) := by
  induction calls using List.reverseRecOn with
  | nil => exact List.Perm.refl _
  | append_singleton calls c ih =>
      have hfollows := follows_run hmono capacity idle calls
      have hpos : 1 ≤ (runSessions clock capacity idle calls).table.capacity := by
        rw [hfollows.capacity_eq]
        omega
      obtain ⟨-, -, -, hstep⟩ := SessionTable.call_spec clock hfollows.linked hpos c
      have hrun : (runSessions clock capacity idle (calls ++ [c])).table =
          (runSessions clock capacity idle calls).table.call clock c := by
        rw [runSessions, List.foldl_append]
        rfl
      have hadded : sessionsAdded (calls ++ [c]) = sessionsAdded calls ++ c.added.toList := by
        rw [sessionsAdded, List.filterMap_append]
        cases h : c.added <;> simp [h, sessionsAdded]
      rw [hrun, hadded]
      exact (hstep.conserves hfollows.linked).trans (ih.append_right _)

/-- A session that was added once is closed once when it has left, and not before. -/
theorem count_closed {added closed held : List S} (hfresh : added.Nodup)
    (hperm : (closed ++ held).Perm added) :
    (∀ s ∈ added, s ∉ held → closed.count s = 1) ∧ ∀ s ∈ held, closed.count s = 0 := by
  have hcount : ∀ s, closed.count s + held.count s = added.count s := fun s => by
    rw [← List.count_append, hperm.count_eq]
  refine ⟨fun s hs hgone => ?_, fun s hs => ?_⟩
  · have hone := hcount s
    rw [List.count_eq_zero_of_not_mem hgone, List.count_eq_one_of_mem hfresh hs] at hone
    exact hone
  · have hin : s ∈ added := hperm.mem_iff.mp (List.mem_append_right _ hs)
    have hpos := List.count_pos_iff.mpr hs
    have hone := hcount s
    rw [List.count_eq_one_of_mem hfresh hin] at hone
    omega

/-- After a run the table holds the session that was added last under a key, unless a later
call lost it. -/
theorem holds_run_iff (hmono : Monotone clock) (capacity idle : Int)
    (calls : List (SessionCall S)) (key : SessionKey) (session : S) :
    let run := runSessions clock capacity idle
    (run calls).table.Holds key session ↔
      ∃ earlier later, calls = earlier ++ .add key session :: later ∧
        ∀ mid c rest, later = mid ++ c :: rest →
          ¬ (run (earlier ++ .add key session :: mid)).table.Loses clock c key session := by
  intro run
  have hstep (s : LoggedTable S) (c : SessionCall S)
      (h : s.Follows clock (max capacity 1).toNat (idlePeriod idle)) :
      (s.call clock c).Follows clock (max capacity 1).toNat (idlePeriod idle) :=
    h.call hmono (by omega) c
  have hholds (s : LoggedTable S) (c : SessionCall S) (b : SessionKey × S)
      (h : s.Follows clock (max capacity 1).toNat (idlePeriod idle)) :
      (s.call clock c).table.Holds b.1 b.2 ↔
        c = .add b.1 b.2 ∨ s.table.Holds b.1 b.2 ∧ ¬ s.table.Loses clock c b.1 b.2 :=
    holds_call h.linked (by rw [h.capacity_eq]; omega) c
  have hheld := held_iff_stored (fun s b => SessionTable.Holds s.table b.1 b.2) hstep hholds
    (follows_new clock capacity idle) (b := (key, session))
    (by rintro ⟨e, he, -⟩; exact List.not_mem_nil he) calls
  refine hheld.trans ?_
  constructor
  · rintro ⟨earlier, past, later, hcalls, rfl, hkept⟩
    exact ⟨earlier, later, hcalls, hkept⟩
  · rintro ⟨earlier, later, hcalls, hkept⟩
    exact ⟨earlier, _, later, hcalls, rfl, hkept⟩

/-- What is evicted after a run was used longest ago. -/
theorem LoggedTable.Follows.evicts {s : LoggedTable S} {capacity : Nat} {idle : Int}
    (h : s.Follows clock capacity idle) (hcapacity : 1 ≤ capacity) {c : SessionCall S}
    {key : SessionKey} {session : S} (hevicts : s.table.Evicts clock c key session) :
    ∃ e rest, (s.table.expire clock).lru = e :: rest ∧ e.key = key ∧ e.session = session ∧
      (e :: rest).length = capacity ∧
      ∀ e' ∈ rest, e.last ≤ e'.last ∧
        (s.log.map Prod.fst).idxOf e'.key < (s.log.map Prod.fst).idxOf e.key := by
  obtain ⟨e, rest, hlru, hkey, hsession, hfull⟩ := hevicts.front h.linked
    (h.capacity_eq.symm ▸ hcapacity) (h.capacity_eq.symm ▸ h.bounded)
  have hsub : (e :: rest).Sublist s.table.lru := by
    rw [← hlru, (SessionTable.expire_spec clock h.linked).2.1]
    exact List.filter_sublist
  have horder := h.inOrder.sublist hsub
  refine ⟨e, rest, hlru, hkey, hsession, hfull.trans h.capacity_eq, fun e' he' => ?_⟩
  refine ⟨List.rel_of_pairwise_cons horder.sorted he', ?_⟩
  exact List.rel_of_pairwise_cons horder.ordered (List.mem_map_of_mem he')

/-- Over every run with a clock that does not go back and new sessions, the map and the
list have the same entries in order of use and within the capacity; a lookup returns the
session that was added last for its key unless it was idle, evicted or removed; what is
evicted was used longest ago; and sessions are closed exactly once, when they leave. -/
theorem sessionTable_owns_sessions (clock : Nat → Int) (hmono : Monotone clock)
    (capacity idle : Int) (calls : List (SessionCall S)) (hfresh : (sessionsAdded calls).Nodup) :
    let run := runSessions clock capacity idle
    let table := (run calls).table
    ((∀ key e, table.entries.lookup key = some e ↔ e ∈ table.lru ∧ e.key = key) ∧
      (table.lru.map SessionEntry.key).Nodup ∧
      table.entries.keys.length = table.lru.length ∧
      table.lru.length ≤ (max capacity 1).toNat ∧ table.idle = idlePeriod idle) ∧
    ((∀ e ∈ table.lru, (run calls).log.find? (·.1 = e.key) = some (e.key, e.last)) ∧
      (table.lru.Pairwise fun e e' => e.last ≤ e'.last) ∧
      ByLastUse ((run calls).log.map Prod.fst) (table.lru.map SessionEntry.key)) ∧
    (∀ key session, (table.get clock key).2 = some session ↔
      (∃ earlier later, calls = earlier ++ .add key session :: later ∧
        ∀ mid c rest, later = mid ++ c :: rest →
          ¬ c.Replaces key ∧ c ≠ .remove key session ∧
          ¬ (run (earlier ++ .add key session :: mid)).table.Expires clock c key session ∧
          ¬ (run (earlier ++ .add key session :: mid)).table.Evicts clock c key session) ∧
      ¬ table.IdleAt (clock table.reads) key session) ∧
    (∀ c key session, table.Evicts clock c key session →
      ∃ e rest, (table.expire clock).lru = e :: rest ∧ e.key = key ∧ e.session = session ∧
        (e :: rest).length = (max capacity 1).toNat ∧
        ∀ e' ∈ rest, e.last ≤ e'.last ∧
          ((run calls).log.map Prod.fst).idxOf e'.key <
            ((run calls).log.map Prod.fst).idxOf e.key) ∧
    ((∀ key session, (table.add clock key session).isSome = true) ∧
      (∀ s ∈ sessionsAdded calls, s ∉ table.lru.map SessionEntry.session →
        table.closed.count s = 1) ∧
      (∀ s ∈ table.lru.map SessionEntry.session, table.closed.count s = 0) ∧
      ∀ s ∈ table.closed, s ∈ sessionsAdded calls) ∧
    ∀ key session, (∀ e, table.entries.lookup key = some e → e.session ≠ session) →
      table.remove key session = table := by
  intro run table
  have hfollows := follows_run hmono capacity idle calls
  have hlinked : table.Linked := hfollows.linked
  have hpos : 1 ≤ table.capacity := by
    rw [hfollows.capacity_eq]
    omega
  have hperm := run_conserves hmono capacity idle calls
  obtain ⟨hleft, hheld⟩ := count_closed hfresh hperm
  refine ⟨⟨hlinked.lookup_iff, hlinked.distinct, hlinked.length_keys, hfollows.bounded,
      hfollows.idle_eq⟩, ⟨hfollows.inOrder.logged, hfollows.inOrder.sorted,
      hfollows.inOrder.ordered⟩, ?_, ?_, ⟨?_, hleft, hheld, ?_⟩, ?_⟩
  · intro key session
    rw [get_eq_some_iff hlinked]
    refine and_congr_left fun _ => (holds_run_iff hmono capacity idle calls key session).trans ?_
    simp only [SessionTable.Loses, not_or, ne_eq]
    rfl
  · intro c key session hevicts
    exact hfollows.evicts (by omega) hevicts
  · intro key session
    obtain ⟨after, hadd, -⟩ := SessionTable.add_spec clock hlinked hpos key session
    exact Option.isSome_iff_exists.mpr ⟨after, hadd⟩
  · exact fun s hs => hperm.mem_iff.mp (List.mem_append_left _ hs)
  · intro key session hother
    rcases SessionTable.remove_spec hlinked key session with ⟨e, hmem, hkey, hsame, -⟩ | ⟨-, heq⟩
    · exact absurd hsame (hother e ((hlinked.lookup_iff key e).mpr ⟨hmem, hkey⟩))
    · exact heq

end Calls

/-- A table of one session closes the first one when a second one is added. -/
theorem sessionTable_closes_evicted :
    let first : SessionKey := ⟨⟨.v4 1, 5000⟩, ⟨.v4 2, 53⟩⟩
    let second : SessionKey := ⟨⟨.v4 1, 5001⟩, ⟨.v4 2, 53⟩⟩
    let calls : List (SessionCall Nat) := [.add first 1, .add second 2]
    let table := (runSessions Nat.cast 1 0 calls).table
    table.closed.count 1 = 1 ∧ table.closed.count 2 = 0 := by
  intro first second calls table
  obtain ⟨-, -, -, -, ⟨-, hleft, hheld, -⟩, -⟩ :=
    sessionTable_owns_sessions Nat.cast (fun _ _ h => Int.ofNat_le.mpr h) 1 0 calls (by decide)
  exact ⟨hleft 1 (by decide) (by decide), hheld 2 (by decide)⟩

end Hy2Route.Dataplane
