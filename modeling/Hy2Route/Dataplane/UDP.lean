import Hy2Route.Dataplane.Select
import Hy2Route.Dataplane.SessionRun
import Hy2Route.Foundation.Threads

/-!
# The UDP server and its sessions

A datagram from a client is sent on the session of its source and target, which is
opened when there is none; for each session a second loop writes the replies back. Only
the first of the two tells the table that the session is in use.

## Implementation notes

Instants are numbered: a reading of the clock and a relayed datagram take one each, so
that the clock says when each of them was. The fields `used`, `relayed` and `expired`
record the past and are read by no step. The answer that a step gets from outside is
whether its operation succeeded.
-/

namespace Hy2Route.Dataplane

open Foundation

/-- A session, and the dialer that opened its packet session. -/
structure UDPSession where
  id : Nat
  dialer : Dialer
  deriving DecidableEq

structure UDPState where
  server : UDPServer
  /-- Both dialers are set. -/
  configured : Bool
  sessions : SessionTable UDPSession
  created : Nat
  /-- The instants at which a session was found or added for a datagram of its client. -/
  used : List (UDPSession × Nat)
  /-- The instants at which a datagram went out on a session, in either direction. -/
  relayed : List (UDPSession × Nat)
  /-- The instants at which a session was closed because it was idle. -/
  expired : List (UDPSession × Nat)

/-- The sessions that are closed as idle at the next instant. -/
def SessionTable.closedAsIdle {S : Type} [DecidableEq S] (clock : Nat → Int)
    (table : SessionTable S) : List S :=
  (table.expire clock).closed.drop table.closed.length

inductive UDPCall where
  | handlePacket (key : SessionKey)
  | forwardUDPReply (key : SessionKey) (session : UDPSession)

inductive UDPPoint where
  | get (key : SessionKey)
  | openPacket (key : SessionKey)
  | dialUDP (key : SessionKey) (dialer : Dialer)
  | add (key : SessionKey) (dialer : Dialer)
  | send (key : SessionKey) (session : UDPSession)
  | receive (key : SessionKey) (session : UDPSession)
  | write (key : SessionKey) (session : UDPSession)
  | checkContext (key : SessionKey) (session : UDPSession)
  | remove (key : SessionKey) (session : UDPSession)
  | returned
  deriving DecidableEq

def UDPCall.start : UDPCall → UDPPoint
  | .handlePacket key => .get key
  | .forwardUDPReply key session => .receive key session

section Steps

variable (clock : Nat → Int)

def UDPState.get (s : UDPState) (key : SessionKey) : UDPState × Option UDPSession :=
  let (sessions, existing) := s.sessions.get clock key
  ({ s with
      sessions := sessions
      used := s.used ++ (existing.map (·, s.sessions.reads + 1)).toList
      expired := s.expired ++ (s.sessions.closedAsIdle clock).map (·, s.sessions.reads) },
    existing)

/-- Decide about the target with a reading of the clock. -/
def UDPState.select (s : UDPState) (key : SessionKey) : UDPState × Dialer :=
  let (server, direct) := s.server.shouldDirect (clock s.sessions.reads) key.target.addr
  ({ s with
      server := server
      sessions := { s.sessions with reads := s.sessions.reads + 1 } },
    if direct then .direct else .proxy)

def UDPState.add (s : UDPState) (key : SessionKey) (dialer : Dialer) : UDPState × UDPSession :=
  let session : UDPSession := ⟨s.created, dialer⟩
  ({ s with
      sessions := s.sessions.call clock (.add key session)
      created := s.created + 1
      used := s.used ++ [(session, s.sessions.reads)]
      expired := s.expired ++ (s.sessions.closedAsIdle clock).map (·, s.sessions.reads) },
    session)

def UDPState.relay (s : UDPState) (session : UDPSession) : UDPState :=
  { s with
    sessions := { s.sessions with reads := s.sessions.reads + 1 }
    relayed := s.relayed ++ [(session, s.sessions.reads)] }

def UDPState.remove (s : UDPState) (key : SessionKey) (session : UDPSession) : UDPState :=
  { s with sessions := s.sessions.remove key session }

def udpExec (s : UDPState) (point : UDPPoint) (ok : Bool) :
    Option (UDPState × UDPPoint × List UDPCall) :=
  match point with
  | .get key =>
      match s.get clock key with
      | (s, some existing) => some (s, .send key existing, [])
      | (s, none) => some (s, .openPacket key, [])
  | .openPacket key =>
      if !s.configured then some (s, .returned, [])
      else
        let (s, dialer) := s.select clock key
        some (s, if ok then .dialUDP key dialer else .returned, [])
  | .dialUDP key dialer => some (s, if ok then .add key dialer else .returned, [])
  | .add key dialer =>
      let (s, session) := s.add clock key dialer
      some (s, .send key session, [.forwardUDPReply key session])
  | .send key session =>
      if ok then some (s.relay session, .returned, []) else some (s, .remove key session, [])
  | .receive key session =>
      some (s, if ok then .write key session else .remove key session, [])
  | .write key session =>
      if ok then some (s.relay session, .checkContext key session, [])
      else some (s, .remove key session, [])
  | .checkContext key session =>
      some (s, if ok then .receive key session else .remove key session, [])
  | .remove key session => some (s.remove key session, .returned, [])
  | .returned => none

def udpMachine : Machine UDPState UDPPoint UDPCall Bool where
  start := UDPCall.start
  exec s _ point ok := udpExec clock s point ok

end Steps

def newUDPServer (server : UDPServer) (configured : Bool) (capacity idle : Int) : UDPState where
  server := server
  configured := configured
  sessions := newSessionTable capacity idle
  created := 0
  used := []
  relayed := []
  expired := []

/-- The step looks for idle sessions. -/
def UDPPoint.LooksForIdle (point : UDPPoint) : Prop :=
  (∃ key, point = .get key) ∨ ∃ key dialer, point = .add key dialer

/-- Every session of the table on which a datagram was relayed less than the idle period
ago was also used by its client less than the idle period ago. -/
def UDPState.ClientActive (clock : Nat → Int) (s : UDPState) : Prop :=
  ∀ e ∈ s.sessions.lru, ∀ j, (e.session, j) ∈ s.relayed →
    clock s.sessions.reads < clock j + s.sessions.idle →
      ∃ k, (e.session, k) ∈ s.used ∧ clock s.sessions.reads < clock k + s.sessions.idle

/-- The steps that look for idle sessions find every active session active on the side
of its client. -/
def ExpiresClientActive (clock : Nat → Int) (s : UDPState) (_ : Nat) (point : UDPPoint)
    (_ : Bool) : Prop :=
  point.LooksForIdle → s.ClientActive clock

/-- What was closed as idle had relayed nothing during the idle period before. -/
def UDPState.ExpiresIdle (clock : Nat → Int) (idle : Int) (s : UDPState) : Prop :=
  ∀ session i j, (session, i) ∈ s.expired → (session, j) ∈ s.relayed → j < i →
    clock j + idle ≤ clock i

/-! ## The times in the table are those of the clients -/

structure UDPState.Tracks (clock : Nat → Int) (idle : Int) (s : UDPState) : Prop where
  linked : s.sessions.Linked
  capacity : 1 ≤ s.sessions.capacity
  idle_eq : s.sessions.idle = idle
  created : ∀ e ∈ s.sessions.lru, e.session.id < s.created
  owned : ∀ e ∈ s.sessions.lru, ∀ e' ∈ s.sessions.lru, e.session = e'.session → e.key = e'.key
  used_lt : ∀ session k, (session, k) ∈ s.used → session.id < s.created ∧ k < s.sessions.reads
  latest : ∀ e ∈ s.sessions.lru, ∀ k, (e.session, k) ∈ s.used → clock k ≤ e.last
  timed : ∀ e ∈ s.sessions.lru, ∃ k, (e.session, k) ∈ s.used ∧ e.last = clock k
  relayed_lt : ∀ session j, (session, j) ∈ s.relayed → j < s.sessions.reads
  expired_lt : ∀ session i, (session, i) ∈ s.expired → i < s.sessions.reads

section Tracks

variable {clock : Nat → Int} {idle : Int} {s : UDPState}

theorem mem_closedAsIdle {S : Type} [DecidableEq S] {table : SessionTable S} (h : table.Linked)
    {session : S} : session ∈ table.closedAsIdle clock ↔
      ∃ e ∈ table.lru, e.session = session ∧ e.last + table.idle ≤ clock table.reads := by
  obtain ⟨-, -, hclosed, -⟩ := SessionTable.expire_spec clock h
  rw [SessionTable.closedAsIdle, hclosed, List.drop_left, List.mem_map]
  constructor
  · rintro ⟨e, hmem, hsession⟩
    obtain ⟨hin, hidle⟩ := List.mem_filter.mp hmem
    refine ⟨e, hin, hsession, Int.not_lt.mp ?_⟩
    simpa [SessionTable.live] using hidle
  · rintro ⟨e, hin, hsession, hidle⟩
    refine ⟨e, List.mem_filter.mpr ⟨hin, ?_⟩, hsession⟩
    simpa [SessionTable.live] using hidle

namespace UDPState.Tracks

/-- The instants of what is closed as idle are past or the next one. -/
theorem expired_le (h : s.Tracks clock idle) {session : UDPSession} {i : Nat}
    (hmem : (session, i) ∈
      s.expired ++ (s.sessions.closedAsIdle clock).map (·, s.sessions.reads)) :
    i ≤ s.sessions.reads := by
  rcases List.mem_append.mp hmem with hold | hnew
  · exact (h.expired_lt session i hold).le
  · obtain ⟨session', -, heq⟩ := List.mem_map.mp hnew
    exact (congrArg Prod.snd heq).ge

/-- What is closed as idle at the next instant has relayed nothing for the idle period
exactly when the table is right about which sessions are active. -/
theorem expires_next (h : s.Tracks clock idle) :
    UDPState.ExpiresIdle clock idle { s with
      expired := s.expired ++ (s.sessions.closedAsIdle clock).map (·, s.sessions.reads) } ↔
      s.ExpiresIdle clock idle ∧ s.ClientActive clock := by
  constructor
  · intro hall
    refine ⟨fun session i j hi => hall session i j (List.mem_append_left _ hi), ?_⟩
    intro e hin j hrelayed hrecent
    -- the entry's time is that of a use; were it too old, the entry would be closed
    obtain ⟨k, hused, hlast⟩ := h.timed e hin
    refine ⟨k, hused, Int.not_le.mp fun hidle => ?_⟩
    have hclosed : e.session ∈ s.sessions.closedAsIdle clock :=
      (mem_closedAsIdle h.linked).mpr ⟨e, hin, rfl, hlast ▸ hidle⟩
    have hlong := hall e.session s.sessions.reads j
      (List.mem_append_right _ (List.mem_map.mpr ⟨_, hclosed, rfl⟩)) hrelayed
      (h.relayed_lt _ j hrelayed)
    rw [h.idle_eq] at hrecent
    omega
  · rintro ⟨hold, hactive⟩ session i j hmem hrelayed hlt
    rcases List.mem_append.mp hmem with hmem | hnew
    · exact hold session i j hmem hrelayed hlt
    · obtain ⟨session', hclosed, heq⟩ := List.mem_map.mp hnew
      obtain ⟨rfl, rfl⟩ := Prod.mk.injEq _ _ _ _ ▸ heq
      obtain ⟨e, hin, rfl, hidle⟩ := (mem_closedAsIdle h.linked).mp hclosed
      by_contra hlate
      obtain ⟨k, hused, hlive⟩ := hactive e hin j hrelayed (by rw [h.idle_eq]; omega)
      have hlast := h.latest e hin k hused
      omega

/-- Entries leave the table and time passes. -/
theorem shrink {s' : UDPState} (h : s.Tracks clock idle) (hlinked : s'.sessions.Linked)
    (hcapacity : s'.sessions.capacity = s.sessions.capacity)
    (hidle : s'.sessions.idle = s.sessions.idle)
    (hsub : ∀ e ∈ s'.sessions.lru, e ∈ s.sessions.lru) (hcreated : s'.created = s.created)
    (hused : s'.used = s.used) (hreads : s.sessions.reads ≤ s'.sessions.reads)
    (hrelayed : ∀ session j, (session, j) ∈ s'.relayed → j < s'.sessions.reads)
    (hexpired : ∀ session i, (session, i) ∈ s'.expired → i < s'.sessions.reads) :
    s'.Tracks clock idle where
  linked := hlinked
  capacity := hcapacity ▸ h.capacity
  idle_eq := hidle.trans h.idle_eq
  created e he := hcreated ▸ h.created e (hsub e he)
  owned e he e' he' := h.owned e (hsub e he) e' (hsub e' he')
  used_lt session k hk := by
    obtain ⟨hid, hlt⟩ := h.used_lt session k (hused ▸ hk)
    exact ⟨hcreated ▸ hid, hlt.trans_le hreads⟩
  latest e he k hk := h.latest e (hsub e he) k (hused ▸ hk)
  timed e he := hused ▸ h.timed e (hsub e he)
  relayed_lt := hrelayed
  expired_lt := hexpired

/-- An entry is used at an instant: it is in the table then, with the time of the instant,
and no other entry has its session. -/
theorem use {s' : UDPState} (h : s.Tracks clock idle) (entry : SessionEntry UDPSession) (k : Nat)
    (hlinked : s'.sessions.Linked) (hcapacity : s'.sessions.capacity = s.sessions.capacity)
    (hidle : s'.sessions.idle = s.sessions.idle)
    (hentries : ∀ e ∈ s'.sessions.lru,
      e ∈ s.sessions.lru ∧ e.session ≠ entry.session ∨ e = entry)
    (hcreated : s.created ≤ s'.created) (hid : entry.session.id < s'.created)
    (hused : s'.used = s.used ++ [(entry.session, k)]) (hlast : entry.last = clock k)
    (hlatest : ∀ j, (entry.session, j) ∈ s.used → clock j ≤ clock k)
    (hreads : s.sessions.reads ≤ s'.sessions.reads) (hk : k < s'.sessions.reads)
    (hrelayed : ∀ session j, (session, j) ∈ s'.relayed → j < s'.sessions.reads)
    (hexpired : ∀ session i, (session, i) ∈ s'.expired → i < s'.sessions.reads) :
    s'.Tracks clock idle := by
  have hlog : ∀ {session j}, (session, j) ∈ s'.used →
      (session, j) ∈ s.used ∨ session = entry.session ∧ j = k := fun hj => by
    simpa [hused] using hj
  refine ⟨hlinked, hcapacity ▸ h.capacity, hidle.trans h.idle_eq, ?_, ?_, ?_, ?_, ?_, hrelayed,
    hexpired⟩
  · intro e he
    rcases hentries e he with ⟨hold, -⟩ | rfl
    · exact (h.created e hold).trans_le hcreated
    · exact hid
  · intro e₁ he₁ e₂ he₂ hsame
    rcases hentries e₁ he₁ with ⟨hold₁, hne₁⟩ | rfl <;>
      rcases hentries e₂ he₂ with ⟨hold₂, hne₂⟩ | rfl
    · exact h.owned e₁ hold₁ e₂ hold₂ hsame
    · exact absurd hsame hne₁
    · exact absurd hsame.symm hne₂
    · rfl
  · intro session j hj
    rcases hlog hj with hold | ⟨rfl, rfl⟩
    · obtain ⟨hid, hlt⟩ := h.used_lt session j hold
      exact ⟨hid.trans_le hcreated, hlt.trans_le hreads⟩
    · exact ⟨hid, hk⟩
  · intro e he j hj
    rcases hentries e he with ⟨hold, hne⟩ | rfl
    · exact h.latest e hold j ((hlog hj).resolve_right fun hsame => hne hsame.1)
    · rw [hlast]
      rcases hlog hj with hold | ⟨-, rfl⟩
      · exact hlatest j hold
      · exact le_refl _
  · intro e he
    rcases hentries e he with ⟨hold, -⟩ | rfl
    · obtain ⟨j, hj, hlast⟩ := h.timed e hold
      exact ⟨j, hused ▸ List.mem_append_left _ hj, hlast⟩
    · exact ⟨k, by simp [hused], hlast⟩

theorem get (h : s.Tracks clock idle) (hmono : Monotone clock) (key : SessionKey) :
    (s.get clock key).1.Tracks clock idle := by
  obtain ⟨hlinked, -, hcapacity, hidle, hget⟩ := SessionTable.get_spec clock h.linked key
  obtain ⟨hlinked', hlru, -⟩ := SessionTable.expire_spec clock h.linked
  have hsub : ∀ e ∈ (s.sessions.expire clock).lru, e ∈ s.sessions.lru := fun e he =>
    (List.mem_filter.mp (hlru ▸ he)).1
  have hlater (hlt : s.sessions.reads < (s.sessions.get clock key).1.reads) :
      (∀ session j, (session, j) ∈ s.relayed → j < (s.sessions.get clock key).1.reads) ∧
        ∀ session i, (session, i) ∈
          s.expired ++ (s.sessions.closedAsIdle clock).map (·, s.sessions.reads) →
            i < (s.sessions.get clock key).1.reads :=
    ⟨fun session j hj => (h.relayed_lt session j hj).trans hlt,
      fun session i hi => (h.expired_le hi).trans_lt hlt⟩
  rcases hget with ⟨-, hnone, hlist, hreads⟩ | ⟨e, hmem, rfl, hsome, hlist, hreads⟩
  · obtain ⟨hrelayed, hexpired⟩ := hlater (by omega)
    refine h.shrink hlinked hcapacity hidle (fun e he => hsub e (hlist ▸ he)) rfl ?_ ?_ hrelayed
      hexpired
    · simp [UDPState.get, hnone]
    · exact hreads ▸ Nat.le_succ _
  · have hin : e ∈ s.sessions.lru := hsub e hmem
    obtain ⟨hrelayed, hexpired⟩ := hlater (by omega)
    have hnext : s.sessions.reads + 1 < (s.sessions.get clock e.key).1.reads := by omega
    refine h.use { e with last := clock (s.sessions.reads + 1) } (s.sessions.reads + 1) hlinked
      hcapacity hidle ?_ (Nat.le_refl _) (h.created e hin) ?_ rfl ?_
      (Nat.le_of_lt (Nat.lt_of_succ_lt hnext)) hnext hrelayed hexpired
    · -- an entry is an old one under another key, or the one just used
      intro e' he'
      have he' : e' ∈ (s.sessions.get clock e.key).1.lru := he'
      rw [hlist] at he'
      rcases List.mem_append.mp he' with hold | hnew
      · obtain ⟨hold, hkey⟩ := (SessionTable.mem_erase_iff hlinked' hmem).mp hold
        exact Or.inl ⟨hsub e' hold, fun hsame => hkey (h.owned e' (hsub e' hold) e hin hsame)⟩
      · exact Or.inr (List.mem_singleton.mp hnew)
    · simp [UDPState.get, hsome]
    · intro j hj
      exact hmono ((h.used_lt _ j hj).2.le.trans (Nat.le_succ _))

theorem add (h : s.Tracks clock idle) (key : SessionKey) (dialer : Dialer) :
    (s.add clock key dialer).1.Tracks clock idle := by
  obtain ⟨after, hadd, hlinked, hlist, -, hcapacity, hidle, hreads⟩ :=
    SessionTable.add_spec clock h.linked h.capacity key ⟨s.created, dialer⟩
  obtain ⟨-, hlru, -⟩ := SessionTable.expire_spec clock h.linked
  have hcall : (s.add clock key dialer).1.sessions = after := by
    change (s.sessions.add clock key ⟨s.created, dialer⟩).getD s.sessions = after
    rw [hadd, Option.getD_some]
  have hlt : s.sessions.reads < (s.add clock key dialer).1.sessions.reads := by
    rw [hcall, hreads]
    exact Nat.lt_succ_self _
  refine h.use ⟨key, ⟨s.created, dialer⟩, clock s.sessions.reads⟩ s.sessions.reads
    (hcall ▸ hlinked) (hcall ▸ hcapacity) (hcall ▸ hidle) ?_ (Nat.le_succ _)
    (Nat.lt_succ_self _) rfl rfl ?_ hlt.le hlt
    (fun session j hj => (h.relayed_lt session j hj).trans hlt)
    fun session i hi => (h.expired_le hi).trans_lt hlt
  · intro e he
    rw [hcall, hlist] at he
    rcases List.mem_append.mp he with hold | hnew
    · have hold := (List.mem_filter.mp (List.mem_of_mem_drop hold)).1
      rw [hlru] at hold
      have hin := (List.mem_filter.mp hold).1
      refine Or.inl ⟨hin, fun hsame => ?_⟩
      exact absurd (hsame ▸ h.created e hin) (Nat.lt_irrefl _)
    · exact Or.inr (List.mem_singleton.mp hnew)
  · exact fun j hj => absurd (h.used_lt _ j hj).1 (Nat.lt_irrefl _)

theorem relay (h : s.Tracks clock idle) (session : UDPSession) :
    (s.relay session).Tracks clock idle := by
  refine h.shrink ⟨h.linked.distinct, h.linked.lookup_iff⟩ rfl rfl (fun _ he => he) rfl rfl
    (Nat.le_succ _) (fun other j hj => ?_)
    fun other i hi => Nat.lt_succ_of_lt (h.expired_lt other i hi)
  rcases List.mem_append.mp hj with hold | hnew
  · exact Nat.lt_succ_of_lt (h.relayed_lt other j hold)
  · exact Nat.lt_succ_of_le (congrArg Prod.snd (List.mem_singleton.mp hnew)).le

/-- What is relayed now comes after all that was closed. -/
theorem expires_relay (h : s.Tracks clock idle) (session : UDPSession) :
    (s.relay session).ExpiresIdle clock idle ↔ s.ExpiresIdle clock idle := by
  constructor
  · exact fun hall other i j hi hj => hall other i j hi (List.mem_append_left _ hj)
  · intro hall other i j hi hj hlt
    rcases List.mem_append.mp hj with hold | hnew
    · exact hall other i j hi hold hlt
    · obtain ⟨-, rfl⟩ := Prod.mk.injEq _ _ _ _ ▸ List.mem_singleton.mp hnew
      exact absurd (h.expired_lt other i hi) (Nat.lt_asymm hlt)

theorem select (h : s.Tracks clock idle) (key : SessionKey) :
    (s.select clock key).1.Tracks clock idle :=
  h.shrink ⟨h.linked.distinct, h.linked.lookup_iff⟩ rfl rfl (fun _ he => he) rfl rfl
    (Nat.le_succ _) (fun other j hj => Nat.lt_succ_of_lt (h.relayed_lt other j hj))
    fun other i hi => Nat.lt_succ_of_lt (h.expired_lt other i hi)

theorem remove (h : s.Tracks clock idle) (key : SessionKey) (session : UDPSession) :
    (s.remove key session).Tracks clock idle := by
  rcases SessionTable.remove_spec h.linked key session with ⟨e, hmem, rfl, rfl, hremove⟩ |
    ⟨-, hremove⟩
  · unfold UDPState.remove
    rw [hremove]
    exact h.shrink (SessionTable.removeLocked_linked h.linked hmem) rfl rfl
      (fun other hother => List.mem_of_mem_erase hother) rfl rfl (Nat.le_refl _) h.relayed_lt
      h.expired_lt
  · unfold UDPState.remove
    rw [hremove]
    exact h

/-- A step keeps the times, and closes as idle only idle sessions exactly when it meets
the condition. -/
theorem exec (h : s.Tracks clock idle) (hmono : Monotone clock) {i : Nat} {point : UDPPoint}
    {ok : Bool} {s' : UDPState} {point' : UDPPoint} {calls : List UDPCall}
    (hexec : udpExec clock s point ok = some (s', point', calls)) :
    s'.Tracks clock idle ∧ (s'.ExpiresIdle clock idle ↔
      s.ExpiresIdle clock idle ∧ ExpiresClientActive clock s i point ok) := by
  have hother (hpoint : ¬ point.LooksForIdle) : s.ExpiresIdle clock idle ↔
      s.ExpiresIdle clock idle ∧ ExpiresClientActive clock s i point ok :=
    (and_iff_left fun hlooks => absurd hlooks hpoint).symm
  have hlooks (hpoint : point.LooksForIdle) : ExpiresClientActive clock s i point ok ↔
      s.ClientActive clock := forall_prop_of_true hpoint
  cases point with
  | get key =>
      have hget : s' = (s.get clock key).1 := by
        simp only [udpExec] at hexec
        split at hexec <;> rename_i heq <;> cases hexec <;> rw [heq]
      rw [hget, hlooks (Or.inl ⟨key, rfl⟩)]
      exact ⟨h.get hmono key, h.expires_next⟩
  | openPacket key =>
      rw [← hother (by simp [UDPPoint.LooksForIdle])]
      simp only [udpExec] at hexec
      split_ifs at hexec <;> cases hexec
      · exact ⟨h, Iff.rfl⟩
      · exact ⟨h.select key, Iff.rfl⟩
      · exact ⟨h.select key, Iff.rfl⟩
  | add key dialer =>
      cases hexec
      rw [hlooks (Or.inr ⟨key, dialer, rfl⟩)]
      exact ⟨h.add key dialer, h.expires_next⟩
  | send key session =>
      rw [← hother (by simp [UDPPoint.LooksForIdle])]
      simp only [udpExec] at hexec
      split_ifs at hexec <;> cases hexec
      · exact ⟨h.relay session, h.expires_relay session⟩
      · exact ⟨h, Iff.rfl⟩
  | write key session =>
      rw [← hother (by simp [UDPPoint.LooksForIdle])]
      simp only [udpExec] at hexec
      split_ifs at hexec <;> cases hexec
      · exact ⟨h.relay session, h.expires_relay session⟩
      · exact ⟨h, Iff.rfl⟩
  | dialUDP key dialer | receive key session | checkContext key session =>
      cases hexec
      exact ⟨h, hother (by simp [UDPPoint.LooksForIdle])⟩
  | remove key session =>
      cases hexec
      exact ⟨h.remove key session, hother (by simp [UDPPoint.LooksForIdle])⟩
  | returned => cases hexec

end UDPState.Tracks

theorem newUDPServer_tracks (clock : Nat → Int) (server : UDPServer) (configured : Bool)
    (capacity idle : Int) :
    (newUDPServer server configured capacity idle).Tracks clock (idlePeriod idle) := by
  have hnew := follows_new (S := UDPSession) clock capacity idle
  have hcapacity : (newSessionTable capacity idle : SessionTable UDPSession).capacity =
      (max capacity 1).toNat := hnew.capacity_eq
  constructor
  case linked => exact hnew.linked
  case capacity =>
    change 1 ≤ (newSessionTable capacity idle : SessionTable UDPSession).capacity
    omega
  case idle_eq => rfl
  all_goals simp [newUDPServer, newSessionTable]

/-- A session is closed as idle, in any interleaving of packets and replies, only when
nothing was relayed on it in either direction during the idle period before, exactly
when each look for idle sessions finds the active ones active on their client's side. -/
theorem udp_expires_idle_iff (clock : Nat → Int) (hmono : Monotone clock) (server : UDPServer)
    (configured : Bool) (capacity idle : Int) (moves : List (Move UDPCall Bool)) :
    let start : Threads UDPState UDPPoint := ⟨newUDPServer server configured capacity idle, []⟩
    (moves.foldl (udpMachine clock).step start).shared.ExpiresIdle clock (idlePeriod idle) ↔
      Allowed (udpMachine clock).step (Machine.Meets (ExpiresClientActive clock)) start moves := by
  intro start
  have hstart : start.shared.Tracks clock (idlePeriod idle) :=
    newUDPServer_tracks clock server configured capacity idle
  have hempty : start.shared.ExpiresIdle clock (idlePeriod idle) := by
    simp [start, newUDPServer, UDPState.ExpiresIdle]
  refine (Machine.shared_iff_allowed (fun htracks hexec => htracks.exec hmono hexec) ?_ hstart
    moves).trans (and_iff_right hempty)
  -- only a call that has returned cannot step
  intro s i point ok hnone
  cases point with
  | returned => simp [ExpiresClientActive, UDPPoint.LooksForIdle]
  | get key =>
      simp only [udpMachine, udpExec] at hnone
      split at hnone <;> cases hnone
  | _ =>
      simp only [udpMachine, udpExec] at hnone
      try split_ifs at hnone
      all_goals cases hnone

end Tracks

/-- A packet of one flow, a reply on it when asked for, and a packet of another flow. -/
def twoFlows (reply : Bool) : List (Move UDPCall Bool) :=
  let client : AddrPort := ⟨.v4 1, 40000⟩
  [.call (.handlePacket ⟨client, ⟨.v4 2, 443⟩⟩)] ++ List.replicate 5 (.run 0 true) ++
    (if reply then [.run 1 true, .run 1 true] else []) ++
    [.call (.handlePacket ⟨client, ⟨.v4 3, 443⟩⟩), .run 2 true]

/-- The first packet is at 0 s, what comes next at 50 s and everything later at 60 s. -/
def twoFlowsClock (i : Nat) : Int :=
  if i < 4 then 0 else if i = 4 then 50000000000 else 60000000000

theorem twoFlowsClock_monotone : Monotone twoFlowsClock := by
  intro i j hle
  unfold twoFlowsClock
  split_ifs <;> omega

theorem udp_expires_idle_without_reply :
    let start : Threads UDPState UDPPoint := ⟨newUDPServer ⟨none, none⟩ true 8 50000000000, []⟩
    ((twoFlows false).foldl (udpMachine twoFlowsClock).step start).shared.expired =
        [(⟨0, .proxy⟩, 4)] ∧
      Allowed (udpMachine twoFlowsClock).step (Machine.Meets (ExpiresClientActive twoFlowsClock))
        start (twoFlows false) := by
  intro start
  have hexpired : ((twoFlows false).foldl (udpMachine twoFlowsClock).step start).shared.expired =
      [(⟨0, .proxy⟩, 4)] := by decide +kernel
  have hrelayed : ((twoFlows false).foldl (udpMachine twoFlowsClock).step start).shared.relayed =
      [(⟨0, .proxy⟩, 3)] := by decide +kernel
  have hidle (s : UDPState) (hexpired : s.expired = [(⟨0, .proxy⟩, 4)])
      (hrelayed : s.relayed = [(⟨0, .proxy⟩, 3)]) :
      s.ExpiresIdle twoFlowsClock (idlePeriod 50000000000) := by
    intro session i j hi hj _
    rw [hexpired, List.mem_singleton] at hi
    rw [hrelayed, List.mem_singleton] at hj
    cases hi
    cases hj
    decide
  have hiff := udp_expires_idle_iff twoFlowsClock twoFlowsClock_monotone ⟨none, none⟩ true 8
    50000000000 (twoFlows false)
  change UDPState.ExpiresIdle _ _ (Threads.shared (List.foldl _ start _)) ↔ _ at hiff
  exact ⟨hexpired, hiff.mp (hidle _ hexpired hrelayed)⟩

/-- A session that just relayed a reply is closed as idle by the packet of another flow. -/
theorem udp_expires_session_in_use :
    let start : Threads UDPState UDPPoint := ⟨newUDPServer ⟨none, none⟩ true 8 60000000000, []⟩
    ¬ ((twoFlows true).foldl (udpMachine twoFlowsClock).step start).shared.ExpiresIdle
      twoFlowsClock (idlePeriod 60000000000) := by
  intro start h
  have hexpired : ((twoFlows true).foldl (udpMachine twoFlowsClock).step start).shared.expired =
      [(⟨0, .proxy⟩, 5)] := by decide +kernel
  have hrelayed : ((twoFlows true).foldl (udpMachine twoFlowsClock).step start).shared.relayed =
      [(⟨0, .proxy⟩, 3), (⟨0, .proxy⟩, 4)] := by decide +kernel
  have hlate := h ⟨0, .proxy⟩ 5 4 (by rw [hexpired]; exact List.mem_cons_self)
    (by rw [hrelayed]; exact List.mem_cons_of_mem _ List.mem_cons_self) (by decide)
  exact absurd hlate (by decide)

end Hy2Route.Dataplane
