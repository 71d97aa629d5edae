import Hy2Route.Foundation.Channel
import Hy2Route.Hysteria.Datagrams

/-!
# UDP sessions

All sessions of a client share one connection. Its manager hands each datagram that
arrives to the session it names, and closes all of them when the connection fails. Each
session is its own machine: what other sessions do is not seen by it.
-/

namespace Hy2Route.Hysteria

open Foundation Defragger

def udpMessageChanSize : Nat := 1024

structure UDPConn where
  id : UInt32
  d : Defragger
  receiveCh : Chan UDPMessage
  closed : Bool

/-- `udpSessionManager`. The connections that were made are numbered; the table has the
numbers of those that are open. -/
structure Manager where
  m : List (UInt32 × Nat)
  conns : List UDPConn
  nextID : UInt32
  closed : Bool

namespace Manager

def start : Manager := ⟨[], [], 1, false⟩

def feed (s : Manager) (msg : UDPMessage) : Option Manager :=
  match s.m.find? fun entry => entry.1 = msg.sessionID with
  -- a session that is not known
  | none => some s
  | some entry => do
      let conn ← s.conns[entry.2]?
      let ch ← conn.receiveCh.trySend udpMessageChanSize msg
      return { s with conns := s.conns.set entry.2 { conn with receiveCh := ch } }

/-- The number of the new connection, or none when the manager is closed. -/
def newUDP (s : Manager) : Manager × Option Nat :=
  if s.closed then (s, none)
  else
    ({ s with
        m := (s.nextID, s.conns.length) :: s.m.filter fun entry => entry.1 ≠ s.nextID
        conns := s.conns ++ [⟨s.nextID, .new, .make, false⟩]
        nextID := s.nextID + 1 }, some s.conns.length)

def close (s : Manager) (k : Nat) : Option Manager :=
  match s.conns[k]? with
  -- no connection has this number yet
  | none => some s
  | some conn =>
      if conn.closed then some s
      else do
        let ch ← conn.receiveCh.close
        return { s with
          conns := s.conns.set k { conn with receiveCh := ch, closed := true }
          m := s.m.filter fun entry => entry.1 ≠ conn.id }

def closeCleanup (s : Manager) : Option Manager := do
  let s ← (s.m.map Prod.snd).foldlM close s
  return { s with closed := true }

def count (s : Manager) : Nat := s.m.length

/-- One round of `Receive`, with the message that it returns. -/
def receive (s : Manager) (k : Nat) : Option (Manager × Option UDPMessage) :=
  match s.conns[k]? with
  | none => some (s, none)
  | some conn =>
      match conn.receiveCh.receive with
      | (.value msg, ch) => do
          let (d, out) ← conn.d.feed msg
          return ({ s with conns := s.conns.set k { conn with receiveCh := ch, d := d } }, out)
      | (_, _) => some (s, none)

end Manager

inductive SessionOp where
  | newUDP
  /-- A datagram comes in. -/
  | arrive (datagram : Bytes)
  /-- The connection below fails. -/
  | fail
  | close (conn : Nat)
  | receive (conn : Nat)

/-- A message that `Receive` returned, with the connection. -/
abbrev Returned := Nat × UDPMessage

namespace Manager

/-- The loop that feeds the manager ends with the clean-up. -/
def step [Quicvarint] (s : Manager) : SessionOp → Option (Manager × Option Returned)
  | .newUDP => some (s.newUDP.1, none)
  | .arrive datagram =>
      if s.closed then some (s, none)
      else
        match parseUDPMessage datagram with
        | .error _ => some (s, none)
        | .ok msg => (s.feed msg).map fun s => (s, none)
  | .fail => if s.closed then some (s, none) else s.closeCleanup.map fun s => (s, none)
  | .close k => (s.close k).map fun s => (s, none)
  | .receive k => (s.receive k).map fun (s, out) => (s, out.map fun msg => (k, msg))

def run [Quicvarint] : Manager → List SessionOp → Option (Manager × List Returned)
  | s, [] => some (s, [])
  | s, op :: rest => do
      let (s, out) ← s.step op
      let (s, more) ← run s rest
      return (s, out.toList ++ more)

end Manager

/-! ## A session of its own -/

inductive Act where
  | offer (msg : UDPMessage)
  | shut
  | take

namespace UDPConn

def fresh (id : UInt32) : UDPConn := ⟨id, .new, .make, false⟩

def shut (conn : UDPConn) : UDPConn :=
  { conn with closed := true, receiveCh := { conn.receiveCh with closed := true } }

/-- What is offered is dropped when the session is closed or its buffer is full. -/
def act (conn : UDPConn) : Act → UDPConn × Option UDPMessage
  | .offer msg =>
      if conn.closed ∨ udpMessageChanSize ≤ conn.receiveCh.buffer.length then (conn, none)
      else
        ({ conn with receiveCh.buffer := conn.receiveCh.buffer ++ [msg] }, none)
  | .shut => (conn.shut, none)
  | .take =>
      match conn.receiveCh.buffer with
      | [] => (conn, none)
      | msg :: rest =>
          match conn.d.feed msg with
          | none => (conn, none)
          | some (d, out) => ({ conn with d := d, receiveCh.buffer := rest }, out)

def acts : UDPConn → List Act → UDPConn × List UDPMessage
  | conn, [] => (conn, [])
  | conn, a :: rest =>
      let more := acts (conn.act a).1 rest
      (more.1, (conn.act a).2.toList ++ more.2)

end UDPConn

/-- What an operation is to the connection with the given number. -/
def view [Quicvarint] (k : Nat) (id : UInt32) : SessionOp → Option Act
  | .newUDP => none
  | .arrive datagram =>
      match parseUDPMessage datagram with
      | .error _ => none
      | .ok msg => if msg.sessionID = id then some (.offer msg) else none
  | .fail => some .shut
  | .close n => if n = k then some .shut else none
  | .receive n => if n = k then some .take else none

namespace UDPConn

structure Sound (conn : UDPConn) : Prop where
  synced : conn.receiveCh.closed = conn.closed
  bounded : conn.receiveCh.buffer.length ≤ udpMessageChanSize
  gathers : ∃ held, conn.d.Gathers held

variable {conn : UDPConn}

theorem sound_fresh (id : UInt32) : (fresh id).Sound := ⟨rfl, Nat.zero_le _, [], gathers_new⟩

theorem Sound.shut (h : conn.Sound) : conn.shut.Sound := ⟨rfl, h.bounded, h.gathers⟩

theorem Sound.shut_eq (h : conn.Sound) (hclosed : conn.closed = true) : conn.shut = conn := by
  obtain ⟨id, d, ⟨buffer, closed⟩, flag⟩ := conn
  have hsynced := h.synced
  simp only at hsynced hclosed
  rw [UDPConn.shut, hsynced, hclosed]

theorem Sound.feed (h : conn.Sound) (msg : UDPMessage) :
    ∃ d out held, conn.d.feed msg = some (d, out) ∧ d.Gathers held := by
  obtain ⟨held, hheld⟩ := h.gathers
  by_cases hone : msg.fragCount ≤ 1
  · exact ⟨conn.d, some msg, held, if_pos hone, hheld⟩
  by_cases hplace : msg.fragCount ≤ msg.fragID
  · exact ⟨conn.d, none, held, by rw [Defragger.feed, if_neg hone, if_pos hplace], hheld⟩
  · obtain ⟨d, hfeed, hd⟩ := hheld.feed ⟨UInt8.not_le.mp hone, UInt8.not_le.mp hplace⟩
    exact ⟨d, _, _, hfeed, hd⟩

theorem Sound.act (h : conn.Sound) (a : Act) : (conn.act a).1.Sound := by
  cases a with
  | offer msg =>
      rw [UDPConn.act]
      split_ifs with hdrop
      · exact h
      · rw [not_or, Nat.not_le] at hdrop
        refine ⟨h.synced, ?_, h.gathers⟩
        rw [List.length_append]
        exact hdrop.2
  | shut => exact h.shut
  | take =>
      rw [UDPConn.act]
      cases hbuffer : conn.receiveCh.buffer with
      | nil => exact h
      | cons msg rest =>
          obtain ⟨d, out, held, hfeed, hd⟩ := h.feed msg
          have hbounded := h.bounded
          rw [hbuffer, List.length_cons] at hbounded
          simp only [hfeed]
          exact ⟨h.synced, Nat.le_of_succ_le hbounded, held, hd⟩

theorem id_act (conn : UDPConn) (a : Act) : (conn.act a).1.id = conn.id := by
  cases a with
  | offer msg =>
      rw [act]
      split_ifs <;> rfl
  | shut => rfl
  | take =>
      rw [act]
      split
      · rfl
      · split <;> rfl

theorem closed_act {a : Act} (hclosed : conn.closed = true) : (conn.act a).1.closed = true := by
  cases a with
  | offer msg => rw [act, if_pos (Or.inl hclosed), hclosed]
  | shut => rfl
  | take =>
      rw [act]
      split
      · exact hclosed
      · split <;> exact hclosed

theorem act_offer_snd (msg : UDPMessage) : (conn.act (.offer msg)).2 = none := by
  rw [act]
  split_ifs <;> rfl

/-- The session after what an operation is to it. -/
def after (conn : UDPConn) (a : Option Act) : UDPConn × Option UDPMessage :=
  a.elim (conn, none) conn.act

end UDPConn

/-! ## The manager keeps its sessions apart -/

namespace Manager

structure Inv (s : Manager) : Prop where
  ids : ∀ (k : Nat) (conn : UDPConn), s.conns[k]? = some conn → conn.id = UInt32.ofNat (k + 1)
  few : s.conns.length < 4294967296
  next : s.nextID = UInt32.ofNat (s.conns.length + 1)
  keys : (s.m.map Prod.fst).Nodup
  table : ∀ id k, (id, k) ∈ s.m ↔ ∃ conn, s.conns[k]? = some conn ∧ conn.id = id ∧
    conn.closed = false
  sound : ∀ (k : Nat) (conn : UDPConn), s.conns[k]? = some conn → conn.Sound
  ended : s.closed = true → ∀ (k : Nat) (conn : UDPConn), s.conns[k]? = some conn →
    conn.closed = true

theorem inv_start : start.Inv :=
  ⟨by simp [start], by simp [start], rfl, by simp [start], by simp [start], by simp [start],
    by simp [start]⟩

/-- Every connection has changed by a function of its number. -/
structure Changed (s s' : Manager) (f : Nat → UDPConn → UDPConn) : Prop where
  inv : s'.Inv
  conns : s'.conns = s.conns.mapIdx f

theorem Changed.congr {s s' : Manager} {f g : Nat → UDPConn → UDPConn} (h : Changed s s' f)
    (hfg : ∀ (k : Nat) (conn : UDPConn), s.conns[k]? = some conn → f k conn = g k conn) :
    Changed s s' g := by
  refine ⟨h.inv, h.conns.trans (List.ext_getElem? fun k => ?_)⟩
  rw [List.getElem?_mapIdx, List.getElem?_mapIdx]
  exact Option.map_congr fun conn hk => hfg k conn hk

theorem Changed.getElem? {s s' : Manager} {f : Nat → UDPConn → UDPConn} (h : Changed s s' f)
    {k : Nat} {conn : UDPConn} (hk : s.conns[k]? = some conn) :
    s'.conns[k]? = some (f k conn) := by
  rw [h.conns, List.getElem?_mapIdx, hk, Option.map_some]

section Step

variable {s : Manager} (h : s.Inv)

include h

theorem Inv.index_inj {j k : Nat} {c c' : UDPConn} (hj : s.conns[j]? = some c)
    (hk : s.conns[k]? = some c') (hid : c.id = c'.id) : j = k := by
  have hfew := h.few
  obtain ⟨hjlt, -⟩ := List.getElem?_eq_some_iff.mp hj
  obtain ⟨hklt, -⟩ := List.getElem?_eq_some_iff.mp hk
  rw [h.ids j c hj, h.ids k c' hk] at hid
  have hnat := congrArg UInt32.toNat hid
  rw [UInt32.toNat_ofNat', UInt32.toNat_ofNat'] at hnat
  omega

theorem Inv.closed_of_not_mem {k : Nat} {conn : UDPConn} (hk : s.conns[k]? = some conn)
    (hout : (conn.id, k) ∉ s.m) : conn.closed = true := by
  by_contra hopen
  exact hout ((h.table conn.id k).mpr ⟨conn, hk, rfl, by simpa using hopen⟩)

theorem Inv.unchanged {f : Nat → UDPConn → UDPConn}
    (hf : ∀ (k : Nat) (conn : UDPConn), s.conns[k]? = some conn → f k conn = conn) :
    Changed s s f := by
  have hsame : Changed s s fun _ conn => conn := ⟨h, by simp [List.mapIdx_eq_zipIdx_map]⟩
  exact hsame.congr fun k conn hk => (hf k conn hk).symm

/-- One connection acts, and is in the table as long as it is open. -/
theorem Inv.acted {s' : Manager} {k : Nat} {conn : UDPConn} {a : Act}
    (hk : s.conns[k]? = some conn) (hconns : s'.conns = s.conns.set k (conn.act a).1)
    (hnext : s'.nextID = s.nextID) (hclosed : s'.closed = s.closed)
    (hkeys : (s'.m.map Prod.fst).Nodup)
    (htable : ∀ id j, (id, j) ∈ s'.m ↔
      (id, j) ∈ s.m ∧ (k = j → (conn.act a).1.closed = false)) :
    Changed s s' fun j c => if k = j then (c.act a).1 else c := by
  obtain ⟨hlt, -⟩ := List.getElem?_eq_some_iff.mp hk
  have hlen : s'.conns.length = s.conns.length := by rw [hconns, List.length_set]
  have hget (j : Nat) :
      s'.conns[j]? = if k = j then some (conn.act a).1 else s.conns[j]? := by
    rw [hconns, List.getElem?_set, if_pos hlt]
  -- what every connection was
  have hwas {j : Nat} {c : UDPConn} (hj : s'.conns[j]? = some c) :
      k = j ∧ c = (conn.act a).1 ∨ k ≠ j ∧ s.conns[j]? = some c := by
    rw [hget] at hj
    split_ifs at hj with heq
    · exact Or.inl ⟨heq, (Option.some.inj hj).symm⟩
    · exact Or.inr ⟨heq, hj⟩
  refine ⟨⟨?_, hlen ▸ h.few, by rw [hnext, hlen, h.next], hkeys, ?_, ?_, ?_⟩, ?_⟩
  · intro j c hj
    rcases hwas hj with ⟨rfl, rfl⟩ | ⟨-, hj⟩
    · rw [UDPConn.id_act]
      exact h.ids k conn hk
    · exact h.ids j c hj
  · intro id j
    rw [htable, h.table, hget]
    by_cases heq : k = j
    · subst heq
      have hstays : conn.closed = true → (conn.act a).1.closed = true := UDPConn.closed_act
      simp only [hk, if_true, Option.some_inj, exists_eq_left', UDPConn.id_act, true_imp_iff]
      constructor
      · rintro ⟨⟨hid, -⟩, hopen⟩
        exact ⟨hid, hopen⟩
      · rintro ⟨hid, hopen⟩
        refine ⟨⟨hid, ?_⟩, hopen⟩
        by_contra hshut
        rw [hstays (by simpa using hshut)] at hopen
        cases hopen
    · simp [heq]
  · intro j c hj
    rcases hwas hj with ⟨rfl, rfl⟩ | ⟨-, hj⟩
    · exact (h.sound k conn hk).act a
    · exact h.sound j c hj
  · intro hended j c hj
    rw [hclosed] at hended
    rcases hwas hj with ⟨rfl, rfl⟩ | ⟨-, hj⟩
    · exact UDPConn.closed_act (h.ended hended k conn hk)
    · exact h.ended hended j c hj
  · refine List.ext_getElem? fun j => ?_
    rw [hget, List.getElem?_mapIdx]
    split_ifs with heq
    · rw [← heq, hk, Option.map_some]
    · rw [Option.map_id']

theorem Inv.acted_open {k : Nat} {conn : UDPConn} {a : Act} (hk : s.conns[k]? = some conn)
    (ha : (conn.act a).1.closed = conn.closed) :
    Changed s { s with conns := s.conns.set k (conn.act a).1 }
      fun j c => if k = j then (c.act a).1 else c := by
  refine h.acted hk rfl rfl rfl h.keys fun id j => (and_iff_left_of_imp fun hmem => ?_).symm
  rintro rfl
  obtain ⟨c, hc, -, hopen⟩ := (h.table id k).mp hmem
  rw [ha, Option.some.inj (hk.symm.trans hc), hopen]

theorem Inv.newUDP (hopen : s.closed = false) (hfew : s.conns.length + 1 < 4294967296) :
    s.newUDP.1.Inv := by
  have hnew : s.newUDP.1 =
      { s with
        m := (s.nextID, s.conns.length) :: s.m.filter fun entry => entry.1 ≠ s.nextID
        conns := s.conns ++ [.fresh s.nextID]
        nextID := s.nextID + 1 } := by
    rw [Manager.newUDP, hopen]
    rfl
  rw [hnew]
  have hget {k : Nat} {conn : UDPConn} (hk : (s.conns ++ [.fresh s.nextID])[k]? = some conn) :
      s.conns[k]? = some conn ∨ k = s.conns.length ∧ conn = .fresh s.nextID := by
    rcases Nat.lt_or_ge k s.conns.length with hlt | hge
    · rw [List.getElem?_append_left hlt] at hk
      exact Or.inl hk
    · rw [List.getElem?_append_right hge] at hk
      obtain ⟨hzero, rfl⟩ := List.getElem?_eq_some_iff.mp hk
      rw [List.length_singleton] at hzero
      exact Or.inr ⟨by omega, by simp⟩
  -- the number is not in use
  have hunused : ∀ (k : Nat) (conn : UDPConn), s.conns[k]? = some conn → conn.id ≠ s.nextID := by
    intro k conn hk hid
    obtain ⟨hlt, -⟩ := List.getElem?_eq_some_iff.mp hk
    rw [h.ids k conn hk, h.next] at hid
    have hnat := congrArg UInt32.toNat hid
    rw [UInt32.toNat_ofNat', UInt32.toNat_ofNat'] at hnat
    omega
  have hfilter : (s.m.filter fun entry => entry.1 ≠ s.nextID) = s.m := by
    refine List.filter_eq_self.mpr fun entry hentry => ?_
    obtain ⟨conn, hk, hid, -⟩ := (h.table entry.1 entry.2).mp hentry
    simpa [← hid] using hunused entry.2 conn hk
  rw [hfilter]
  refine ⟨?_, by simpa using hfew, ?_, ?_, ?_, ?_, ?_⟩
  · intro k conn hk
    rcases hget hk with hk | ⟨rfl, rfl⟩
    · exact h.ids k conn hk
    · exact h.next
  · simp only [List.length_append, List.length_singleton, h.next, UInt32.ofNat_add]
    rfl
  · rw [List.map_cons, List.nodup_cons]
    refine ⟨fun hmem => ?_, h.keys⟩
    obtain ⟨entry, hentry, hid⟩ := List.mem_map.mp hmem
    obtain ⟨conn, hk, hconn, -⟩ := (h.table entry.1 entry.2).mp hentry
    exact hunused entry.2 conn hk (hconn.trans hid)
  · intro id k
    rw [List.mem_cons, h.table, Prod.mk.injEq]
    constructor
    · rintro (⟨rfl, rfl⟩ | ⟨conn, hk, hrest⟩)
      · exact ⟨.fresh s.nextID, by simp, rfl, rfl⟩
      · obtain ⟨hlt, -⟩ := List.getElem?_eq_some_iff.mp hk
        exact ⟨conn, by rw [List.getElem?_append_left hlt]; exact hk, hrest⟩
    · rintro ⟨conn, hk, hid, hclosed⟩
      rcases hget hk with hk | ⟨rfl, rfl⟩
      · exact Or.inr ⟨conn, hk, hid, hclosed⟩
      · exact Or.inl ⟨hid.symm, rfl⟩
  · intro k conn hk
    rcases hget hk with hk | ⟨-, rfl⟩
    · exact h.sound k conn hk
    · exact UDPConn.sound_fresh _
  · intro hended
    rw [hopen] at hended
    cases hended

theorem Inv.lookup_eq_some {id : UInt32} {entry : UInt32 × Nat} :
    s.m.find? (fun entry => entry.1 = id) = some entry ↔ entry ∈ s.m ∧ entry.1 = id :=
  find?_eq_some_iff_mem h.keys

/-- A message goes to the session that it names. -/
theorem Inv.feed (msg : UDPMessage) : ∃ s', s.feed msg = some s' ∧ s'.closed = s.closed ∧
    Changed s s' fun _ conn =>
      if msg.sessionID = conn.id then (conn.act (.offer msg)).1 else conn := by
  cases hfind : s.m.find? fun entry => entry.1 = msg.sessionID with
  | none =>
      refine ⟨s, by simp only [Manager.feed, hfind], rfl, h.unchanged fun k conn hk => ?_⟩
      split_ifs with hid
      · -- the session is closed, for it is not in the table
        have hclosed : conn.closed = true := h.closed_of_not_mem hk fun hmem => by
          simpa [hid] using List.find?_eq_none.mp hfind _ hmem
        rw [UDPConn.act, if_pos (Or.inl hclosed)]
      · rfl
  | some entry =>
      obtain ⟨hmem, hname⟩ := h.lookup_eq_some.mp hfind
      obtain ⟨conn, hk, hid, hopen⟩ := (h.table entry.1 entry.2).mp hmem
      have hch : conn.receiveCh.trySend udpMessageChanSize msg =
          some (conn.act (.offer msg)).1.receiveCh := by
        have hchan : ¬ conn.receiveCh.closed = true := by simp [(h.sound _ _ hk).synced, hopen]
        rw [Chan.trySend, if_neg hchan, UDPConn.act]
        by_cases hroom : conn.receiveCh.buffer.length < udpMessageChanSize
        · rw [if_pos hroom, if_neg (by simp [hopen, hroom])]
        · rw [if_neg hroom, if_pos (Or.inr (Nat.not_lt.mp hroom))]
      have hact : (conn.act (.offer msg)).1 =
          { conn with receiveCh := (conn.act (.offer msg)).1.receiveCh } := by
        rw [UDPConn.act]
        split_ifs <;> rfl
      refine ⟨{ s with conns := s.conns.set entry.2 (conn.act (.offer msg)).1 }, ?_, rfl,
        (h.acted_open hk (by rw [hact])).congr fun j c hj => ?_⟩
      · simp only [Manager.feed, hfind, hk, hch, Option.bind_eq_bind, Option.bind_some,
          Option.pure_def]
        rw [← hact]
      · have hiff : entry.2 = j ↔ msg.sessionID = c.id := by
          rw [← hname, ← hid]
          constructor
          · rintro rfl
            rw [Option.some.inj (hk.symm.trans hj)]
          · exact h.index_inj hk hj
        simp only [hiff]

/-- Closing a connection closes that one and takes it out of the table. -/
theorem Inv.close (k : Nat) : ∃ s', s.close k = some s' ∧ s'.closed = s.closed ∧
    Changed s s' fun j conn => if k = j then conn.shut else conn := by
  cases hk : s.conns[k]? with
  | none =>
      refine ⟨s, by simp only [Manager.close, hk], rfl, h.unchanged fun j conn hj => if_neg ?_⟩
      rintro rfl
      rw [hk] at hj
      cases hj
  | some conn =>
      have hsound := h.sound k conn hk
      cases hclosed : conn.closed with
      | true =>
          refine ⟨s, by simp only [Manager.close, hk, hclosed, if_true], rfl,
            h.unchanged fun j c hj => ?_⟩
          split_ifs with heq
          · subst heq
            obtain rfl : conn = c := Option.some.inj (hk.symm.trans hj)
            exact hsound.shut_eq hclosed
          · rfl
      | false =>
          have hch : conn.receiveCh.close = some conn.shut.receiveCh := by
            rw [Chan.close, hsound.synced, hclosed]
            rfl
          refine ⟨{ s with
              conns := s.conns.set k conn.shut
              m := s.m.filter fun entry => entry.1 ≠ conn.id }, ?_, rfl,
            h.acted (a := .shut) hk rfl rfl rfl (h.keys.sublist (List.filter_sublist.map _))
              fun id j => ?_⟩
          · simp only [Manager.close, hk, hclosed, Bool.false_eq_true, if_false, hch,
              Option.bind_eq_bind, Option.bind_some, Option.pure_def]
            rfl
          · rw [List.mem_filter, decide_eq_true_eq]
            refine and_congr_right fun hmem => ?_
            obtain ⟨c, hj, rfl, -⟩ := (h.table id j).mp hmem
            constructor
            · rintro hne rfl
              exact absurd (congrArg UDPConn.id (Option.some.inj (hj.symm.trans hk))) hne
            · intro hopen hid
              cases hopen (h.index_inj hk hj hid.symm)

theorem Inv.closeAll (ks : List Nat) : ∃ s', ks.foldlM Manager.close s = some s' ∧
    s'.closed = s.closed ∧ Changed s s' fun j conn => if j ∈ ks then conn.shut else conn := by
  induction ks generalizing s with
  | nil => exact ⟨s, rfl, rfl, h.unchanged fun j conn _ => if_neg List.not_mem_nil⟩
  | cons k rest ih =>
      obtain ⟨s₁, hclose, hclosed₁, h₁⟩ := h.close k
      obtain ⟨s₂, hrest, hclosed₂, h₂⟩ := ih h₁.inv
      have hboth : Changed s s₂ fun j conn =>
          if j ∈ rest then (if k = j then conn.shut else conn).shut
          else if k = j then conn.shut else conn :=
        ⟨h₂.inv, by rw [h₂.conns, h₁.conns, List.mapIdx_mapIdx]; rfl⟩
      refine ⟨s₂, ?_, hclosed₂.trans hclosed₁, hboth.congr fun j conn _ => ?_⟩
      · rw [List.foldlM_cons, hclose]
        exact hrest
      · by_cases hk : k = j
        · by_cases hmem : j ∈ rest <;> simp [hk, hmem, UDPConn.shut]
        · simp [hk, Ne.symm hk]

/-- The clean-up closes every connection. -/
theorem Inv.closeCleanup : ∃ s', s.closeCleanup = some s' ∧ s'.closed = true ∧
    Changed s s' fun _ conn => conn.shut := by
  obtain ⟨s', hall, -, h'⟩ := h.closeAll (s.m.map Prod.snd)
  have hshut : Changed s s' fun _ conn => conn.shut := h'.congr fun j conn hj => by
    split_ifs with hmem
    · rfl
    · -- a connection that is not in the table is closed already
      have hout : conn.closed = true := h.closed_of_not_mem hj fun hentry =>
        hmem (List.mem_map_of_mem hentry)
      exact ((h.sound j conn hj).shut_eq hout).symm
  refine ⟨{ s' with closed := true }, ?_, rfl, ?_, hshut.conns⟩
  · rw [Manager.closeCleanup, hall]
    rfl
  · have hinv := hshut.inv
    refine ⟨hinv.ids, hinv.few, hinv.next, hinv.keys, hinv.table, hinv.sound, fun _ j c hj => ?_⟩
    change s'.conns[j]? = some c at hj
    rw [hshut.conns, List.getElem?_mapIdx] at hj
    obtain ⟨conn, -, rfl⟩ := Option.map_eq_some_iff.mp hj
    rfl

theorem Inv.receive (k : Nat) : ∃ s' out, s.receive k = some (s', out) ∧ s'.closed = s.closed ∧
    (Changed s s' fun j conn => if k = j then (conn.act .take).1 else conn) ∧
    out = (s.conns[k]?).bind fun conn => (conn.act .take).2 := by
  cases hk : s.conns[k]? with
  | none =>
      refine ⟨s, none, by simp only [Manager.receive, hk], rfl,
        h.unchanged fun j conn hj => if_neg ?_, rfl⟩
      rintro rfl
      rw [hk] at hj
      cases hj
  | some conn =>
      have hsound := h.sound k conn hk
      cases hbuffer : conn.receiveCh.buffer with
      | nil =>
          have hact : conn.act .take = (conn, none) := by rw [UDPConn.act, hbuffer]
          refine ⟨s, none, ?_, rfl, h.unchanged fun j c hj => ?_, by simp [hact]⟩
          · simp only [Manager.receive, hk, Chan.receive, hbuffer]
            split_ifs <;> rfl
          · split_ifs with heq
            · subst heq
              obtain rfl : conn = c := Option.some.inj (hk.symm.trans hj)
              rw [hact]
            · rfl
      | cons msg rest =>
          obtain ⟨d, out, held, hfeed, -⟩ := hsound.feed msg
          have hact : conn.act .take =
              ({ conn with d := d, receiveCh.buffer := rest }, out) := by
            simp only [UDPConn.act, hbuffer, hfeed]
          refine ⟨{ s with conns := s.conns.set k (conn.act .take).1 }, out, ?_, rfl,
            h.acted_open hk (by rw [hact]), by simp [hact]⟩
          simp only [Manager.receive, hk, Chan.receive, hbuffer, hfeed, Option.bind_eq_bind,
            Option.bind_some, Option.pure_def, hact]

end Step

/-- The messages that were returned from a connection. -/
def returned (k : Nat) (out : List Returned) : List UDPMessage :=
  (out.filter fun r => r.1 = k).map Prod.snd

/-- One step: every connection takes the operation as what it is to it. -/
structure Spread [Quicvarint] (s s' : Manager) (op : SessionOp) (out : Option Returned) : Prop where
  inv : s'.Inv
  conns : ∀ (k : Nat) (conn : UDPConn), s.conns[k]? = some conn →
    s'.conns[k]? = some (conn.after (view k conn.id op)).1 ∧
      returned k out.toList = (conn.after (view k conn.id op)).2.toList
  /-- Nothing is returned from a connection that was not there. -/
  numbers : ∀ r ∈ out, r.1 < s.conns.length
  made : s'.conns.length = s.conns.length ∨ op = .newUDP ∧ s.closed = false ∧
    s'.conns = s.conns ++ [.fresh (UInt32.ofNat (s.conns.length + 1))]
  ended : s.closed = true ∨ op = .fail → s'.closed = true

theorem Changed.length {s s' : Manager} {f : Nat → UDPConn → UDPConn} (h : Changed s s' f) :
    s'.conns.length = s.conns.length := by
  rw [h.conns, List.length_mapIdx]

/-- An operation that returns nothing. -/
theorem Changed.spread [Quicvarint] {s s' : Manager} {op : SessionOp}
    {f : Nat → UDPConn → UDPConn} (h : Changed s s' f)
    (hended : s.closed = true ∨ op = .fail → s'.closed = true)
    (hview : ∀ (k : Nat) (conn : UDPConn), s.conns[k]? = some conn →
      conn.after (view k conn.id op) = (f k conn, none)) : Spread s s' op none := by
  refine ⟨h.inv, fun k conn hk => ?_, by simp, Or.inl h.length, hended⟩
  rw [hview k conn hk]
  exact ⟨h.getElem? hk, rfl⟩

theorem Inv.step [Quicvarint] {s : Manager} (h : s.Inv) {op : SessionOp}
    (hfew : op = .newUDP → s.conns.length + 1 < 4294967296) :
    ∃ s' out, s.step op = some (s', out) ∧ Spread s s' op out := by
  cases op with
  | newUDP =>
      refine ⟨s.newUDP.1, none, rfl, ?_⟩
      cases hclosed : s.closed with
      | true =>
          have hsame : s.newUDP.1 = s := by rw [Manager.newUDP, hclosed]; rfl
          rw [hsame]
          exact (h.unchanged fun k conn _ => rfl).spread (fun _ => hclosed) fun k conn _ => rfl
      | false =>
          have hconns :
              s.newUDP.1.conns = s.conns ++ [.fresh (UInt32.ofNat (s.conns.length + 1))] := by
            rw [Manager.newUDP, hclosed, ← h.next]
            rfl
          refine ⟨h.newUDP hclosed (hfew rfl), fun k conn hk => ⟨?_, rfl⟩, by simp,
            Or.inr ⟨rfl, hclosed, hconns⟩, by simp [hclosed]⟩
          obtain ⟨hlt, -⟩ := List.getElem?_eq_some_iff.mp hk
          rw [hconns, List.getElem?_append_left hlt]
          exact hk
  | arrive datagram =>
      cases hparse : parseUDPMessage datagram with
      | error err =>
          refine ⟨s, none, by simp [Manager.step, hparse], ?_⟩
          refine (h.unchanged fun k conn _ => rfl).spread (by simp) fun k conn _ => ?_
          rw [view, hparse]
          rfl
      | ok msg =>
          have hview (k : Nat) (conn : UDPConn) :
              conn.after (view k conn.id (.arrive datagram)) =
                (if msg.sessionID = conn.id then (conn.act (.offer msg)).1 else conn, none) := by
            rw [view, hparse]
            simp only
            split_ifs
            · exact Prod.ext rfl (UDPConn.act_offer_snd msg)
            · rfl
          cases hclosed : s.closed with
          | true =>
              refine ⟨s, none, by simp only [Manager.step, hclosed, if_true], ?_⟩
              refine (h.unchanged fun k conn hk => ?_).spread (fun _ => hclosed)
                fun k conn _ => hview k conn
              rw [UDPConn.act, if_pos (Or.inl (h.ended hclosed k conn hk)), ite_self]
          | false =>
              obtain ⟨s', hfeed, -, h'⟩ := h.feed msg
              refine ⟨s', none, by simp [Manager.step, hclosed, hparse, hfeed], ?_⟩
              exact h'.spread (by simp [hclosed]) fun k conn _ => hview k conn
  | fail =>
      cases hclosed : s.closed with
      | true =>
          refine ⟨s, none, by simp only [Manager.step, hclosed, if_true], ?_⟩
          have hshut : Changed s s fun _ conn => conn.shut := h.unchanged fun k conn hk =>
            (h.sound k conn hk).shut_eq (h.ended hclosed k conn hk)
          exact hshut.spread (fun _ => hclosed) fun k conn _ => rfl
      | false =>
          obtain ⟨s', hclean, hend, h'⟩ := h.closeCleanup
          refine ⟨s', none, by simp [Manager.step, hclosed, hclean], ?_⟩
          exact h'.spread (fun _ => hend) fun k conn _ => rfl
  | close n =>
      obtain ⟨s', hclose, hsame, h'⟩ := h.close n
      refine ⟨s', none, by simp [Manager.step, hclose], ?_⟩
      refine h'.spread (by simp [hsame]) fun k conn _ => ?_
      rw [view]
      split_ifs <;> rfl
  | receive n =>
      obtain ⟨s', out, hreceive, hsame, h', hout⟩ := h.receive n
      refine ⟨s', out.map fun msg => (n, msg), by simp [Manager.step, hreceive], h'.inv,
        fun k conn hk => ?_, ?_, Or.inl h'.length, by simp [hsame]⟩
      · rw [h'.getElem? hk, view]
        by_cases hn : n = k
        · subst hn
          rw [hk, Option.bind_some] at hout
          rw [if_pos rfl, if_pos rfl, hout]
          refine ⟨rfl, ?_⟩
          change _ = (conn.act .take).2.toList
          cases (conn.act .take).2 <;> simp [returned]
        · rw [if_neg hn, if_neg hn]
          refine ⟨rfl, ?_⟩
          cases out <;> simp [returned, hn, UDPConn.after]
      · intro r hr
        obtain ⟨msg, hmsg, rfl⟩ := Option.map_eq_some_iff.mp hr
        rw [hmsg] at hout
        obtain ⟨conn, hn, -⟩ := Option.bind_eq_some_iff.mp hout.symm
        exact (List.getElem?_eq_some_iff.mp hn).1

/-! ## Runs -/

theorem returned_append (k : Nat) (out more : List Returned) :
    returned k (out ++ more) = returned k out ++ returned k more := by
  simp [returned]

theorem acts_filterMap_cons (conn : UDPConn) (f : SessionOp → Option Act) (op : SessionOp)
    (rest : List SessionOp) :
    conn.acts ((op :: rest).filterMap f) =
      (((conn.after (f op)).1.acts (rest.filterMap f)).1,
        (conn.after (f op)).2.toList ++ ((conn.after (f op)).1.acts (rest.filterMap f)).2) := by
  rw [List.filterMap_cons]
  cases f op <;> rfl

theorem id_after (conn : UDPConn) (a : Option Act) : (conn.after a).1.id = conn.id := by
  cases a with
  | none => rfl
  | some a => exact UDPConn.id_act conn a

/-- A connection that was made in the run, by which operation, and how it has fared since. -/
structure Made [Quicvarint] (s : Manager) (ops : List SessionOp) (k : Nat) (conn : UDPConn)
    (msgs : List UDPMessage) : Prop where
  since : ∃ pre post s₁ out₁, ops = pre ++ .newUDP :: post ∧ s.run pre = some (s₁, out₁) ∧
    s₁.newUDP.2 = some k ∧
    (conn, msgs) = (UDPConn.fresh (UInt32.ofNat (k + 1))).acts
      (post.filterMap (view k (UInt32.ofNat (k + 1))))

def opens : List SessionOp → Nat
  | [] => 0
  | .newUDP :: rest => opens rest + 1
  | _ :: rest => opens rest

theorem opens_le_cons (op : SessionOp) (rest : List SessionOp) :
    opens rest ≤ opens (op :: rest) := by
  cases op <;> simp [opens]

theorem run_spread [Quicvarint] {s : Manager} (h : s.Inv) {ops : List SessionOp}
    (hfew : s.conns.length + opens ops < 4294967296) :
    ∃ s' out, s.run ops = some (s', out) ∧ s'.Inv ∧
      (∀ (k : Nat) (conn : UDPConn), s.conns[k]? = some conn →
        s'.conns[k]? = some (conn.acts (ops.filterMap (view k conn.id))).1 ∧
          returned k out = (conn.acts (ops.filterMap (view k conn.id))).2) ∧
      (s.closed = true ∨ .fail ∈ ops → s'.closed = true) ∧
      ∀ (k : Nat) (conn : UDPConn), s'.conns[k]? = some conn → s.conns.length ≤ k →
        Made s ops k conn (returned k out) := by
  induction ops generalizing s with
  | nil =>
      refine ⟨s, [], rfl, h, fun k conn hk => ⟨hk, rfl⟩, by simp, fun k conn hk hge => ?_⟩
      rw [List.getElem?_eq_none hge] at hk
      cases hk
  | cons op rest ih =>
      have hroom : op = .newUDP → s.conns.length + 1 < 4294967296 := by
        rintro rfl
        rw [opens] at hfew
        omega
      obtain ⟨s₁, out₁, hstep, hspread⟩ := h.step hroom
      have hleft : s₁.conns.length + opens rest < 4294967296 := by
        rcases hspread.made with hlen | ⟨rfl, -, hconns⟩
        · have hle := opens_le_cons op rest
          omega
        · rw [hconns, List.length_append, List.length_singleton]
          rw [opens] at hfew
          omega
      obtain ⟨s₂, out₂, hrest, h₂, hold, hended, hnew⟩ := ih hspread.inv hleft
      refine ⟨s₂, out₁.toList ++ out₂, ?_, h₂, fun k conn hk => ?_, ?_, fun k conn hk hge => ?_⟩
      · simp only [Manager.run, hstep, Option.bind_eq_bind, Option.bind_some, hrest,
          Option.pure_def]
      · obtain ⟨hnext, hout⟩ := hspread.conns k conn hk
        obtain ⟨hconn, hmore⟩ := hold k _ hnext
        rw [id_after] at hconn hmore
        rw [acts_filterMap_cons, returned_append, hout, hmore]
        exact ⟨hconn, rfl⟩
      · rintro (hclosed | hfail)
        · exact hended (Or.inl (hspread.ended (Or.inl hclosed)))
        · rcases List.mem_cons.mp hfail with rfl | hfail
          · exact hended (Or.inl (hspread.ended (Or.inr rfl)))
          · exact hended (Or.inr hfail)
      · have hnone : returned k out₁.toList = [] := by
          cases out₁ with
          | none => rfl
          | some r =>
              have hlt := hspread.numbers r rfl
              have hne : r.1 ≠ k := by omega
              simp [returned, hne]
        rw [returned_append, hnone, List.nil_append]
        by_cases hlater : s₁.conns.length ≤ k
        · obtain ⟨pre, post, s₃, out₃, hops, hpre, hmade, hacts⟩ := (hnew k conn hk hlater).since
          refine ⟨op :: pre, post, s₃, out₁.toList ++ out₃, by rw [hops]; rfl, ?_, hmade, hacts⟩
          simp only [Manager.run, hstep, Option.bind_eq_bind, Option.bind_some, hpre,
            Option.pure_def]
        · -- it is made by this operation
          rcases hspread.made with hlen | ⟨rfl, hopen, hconns⟩
          · omega
          · obtain rfl : k = s.conns.length := by
              rw [hconns, List.length_append, List.length_singleton] at hlater
              omega
            have hfresh : s₁.conns[s.conns.length]? =
                some (.fresh (UInt32.ofNat (s.conns.length + 1))) := by
              rw [hconns]
              simp
            obtain ⟨hconn, hmsgs⟩ := hold _ _ hfresh
            obtain rfl := Option.some.inj (hk.symm.trans hconn)
            refine ⟨[], rest, s, [], rfl, rfl, ?_, ?_⟩
            · rw [Manager.newUDP, hopen]
              rfl
            · rw [hmsgs]
              rfl

/-- Whatever is done with the sessions, nothing panics, the table has exactly those that
are open, each under its own number, and a session fares as if it were alone, from the
call that made it on. A failure of the connection closes all of them for good. -/
theorem sessions_apart [Quicvarint] {ops : List SessionOp} (hfew : opens ops < 4294967296) :
    ∃ s out, start.run ops = some (s, out) ∧ s.Inv ∧
      (.fail ∈ ops → s.closed = true ∧ ∀ conn ∈ s.conns, conn.closed = true) ∧
      ∀ (k : Nat) (conn : UDPConn), s.conns[k]? = some conn →
        Made start ops k conn (returned k out) := by
  obtain ⟨s, out, hrun, hinv, -, hended, hmade⟩ :=
    @run_spread _ start inv_start ops (by simpa [start] using hfew)
  refine ⟨s, out, hrun, hinv, fun hfail => ?_, fun k conn hk => hmade k conn hk (Nat.zero_le k)⟩
  have hclosed := hended (Or.inr hfail)
  refine ⟨hclosed, fun conn hconn => ?_⟩
  obtain ⟨k, hk⟩ := List.mem_iff_getElem?.mp hconn
  exact hinv.ended hclosed k conn hk

theorem sessions_apart_two :
    ∃ s out, start.run [.newUDP, .newUDP, .arrive [0, 0, 0, 2, 0, 0, 0, 1, 1, 97, 1], .receive 1,
        .fail] = some (s, out) ∧ s.Inv ∧
      (SessionOp.fail ∈ [.newUDP, .newUDP, .arrive [0, 0, 0, 2, 0, 0, 0, 1, 1, 97, 1], .receive 1,
        .fail] → s.closed = true ∧ ∀ conn ∈ s.conns, conn.closed = true) ∧
      ∀ (k : Nat) (conn : UDPConn), s.conns[k]? = some conn →
        Made start [.newUDP, .newUDP, .arrive [0, 0, 0, 2, 0, 0, 0, 1, 1, 97, 1], .receive 1, .fail]
          k conn (returned k out) :=
  sessions_apart (by decide)

end Manager

end Hy2Route.Hysteria
