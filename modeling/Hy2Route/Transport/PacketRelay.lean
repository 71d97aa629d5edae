import Hy2Route.Foundation.Threads
import Mathlib.Algebra.Order.Group.Int

/-!
# The UDP relay with a backup

A packet relay opens sessions on its primary, and on its backup during the
primary's cooldown. A session on the primary moves to a session on the backup
when a send fails. Its calls are threads; what stands between two uses of its
lock, or of an underlying session, is one step. The answers of the underlying
sessions and dialers, and the clock, are inputs of the steps.
-/

namespace Hy2Route.Transport

open Foundation

/-- What a step is told: the time, whether the operation that it performs succeeds,
and, for a failed dial, whether the caller's own context has ended. -/
structure Input where
  now : Int := 0
  ok : Bool := true
  cancelled : Bool := false

/-! ## A session -/

/-- The sessions that were ever held, the primary first, are recorded by whether
they were closed, and the current one by its place. The lock is recorded by the
thread that holds it for writing. Every datagram given to an underlying session is
recorded with the thread that gave it. -/
structure FallbackSession where
  session : Nat
  backup : Bool
  closed : Bool
  lock : Option Nat
  held : List Bool
  sent : List (Nat × Nat)
  deriving DecidableEq

/-- A session as it is opened on the primary. -/
def FallbackSession.opened : FallbackSession := ⟨0, false, false, none, [false], []⟩

inductive SendResult where
  | sent
  /-- use of closed network connection -/
  | closed
  | failed (packet : Nat)
  | openFailed
  deriving DecidableEq

inductive SendPoint where
  | start
  | sending (packet : Nat) (backup : Bool)
  | failing (packet : Nat)
  | locking (packet : Nat)
  | opening (packet : Nat)
  | closing (packet : Nat)
  | marking
  | resending
  | done (result : SendResult)
  deriving DecidableEq

inductive ReceiveResult where
  | received
  /-- use of closed network connection -/
  | closed
  | failed (packet : Nat)
  deriving DecidableEq

inductive ReceivePoint where
  | start
  | receiving (packet : Nat)
  | checking (packet : Nat)
  | failing (packet : Nat)
  | done (result : ReceiveResult)
  deriving DecidableEq

inductive ClosePoint where
  | start
  | closing
  | done
  deriving DecidableEq

/-- What a step of a session does to its owner. -/
inductive Effect where
  | none
  | failed (now : Int)
  | dialed
  | switched

namespace FallbackSession

/-- The step after the last one of a call is blocked. -/
def send (i : Nat) (s : FallbackSession) (input : Input) :
    SendPoint → Option (FallbackSession × Effect × SendPoint)
  | .start =>
      if s.lock ≠ none then none
      else if s.closed then some (s, .none, .done .closed)
      else some (s, .none, .sending s.session s.backup)
  | .sending packet backup =>
      let s := { s with sent := s.sent ++ [(i, packet)] }
      if input.ok then some (s, .none, .done .sent)
      else if backup then some (s, .none, .done (.failed packet))
      else some (s, .none, .failing packet)
  | .failing packet => some (s, .failed input.now, .locking packet)
  | .locking packet =>
      if s.lock ≠ none then none
      else if s.closed then some (s, .none, .done .closed)
      else if s.backup then some ({ s with lock := some i }, .none, .resending)
      else some ({ s with lock := some i }, .none, .opening packet)
  | .opening packet =>
      if input.ok then
        let s := { s with held := s.held ++ [false], session := s.held.length, backup := true }
        some (s, .dialed, .closing packet)
      else some ({ s with lock := none }, .dialed, .done .openFailed)
  | .closing packet => some ({ s with held := s.held.set packet true }, .none, .marking)
  | .marking => some (s, .switched, .resending)
  | .resending =>
      let result := if input.ok then .sent else .failed s.session
      some ({ s with sent := s.sent ++ [(i, s.session)], lock := none }, .none, .done result)
  | .done _ => none

def receive (s : FallbackSession) (input : Input) :
    ReceivePoint → Option (FallbackSession × Effect × ReceivePoint)
  | .start =>
      if s.lock ≠ none then none
      else if s.closed then some (s, .none, .done .closed)
      else some (s, .none, .receiving s.session)
  | .receiving packet =>
      if input.ok then some (s, .none, .done .received) else some (s, .none, .checking packet)
  | .checking packet =>
      if s.lock ≠ none then none
      else if s.session ≠ packet ∧ !s.closed then some (s, .none, .start)
      else if !s.closed ∧ !s.backup then some (s, .none, .failing packet)
      else some (s, .none, .done (.failed packet))
  | .failing packet => some (s, .failed input.now, .done (.failed packet))
  | .done _ => none

/-- The result of closing the underlying session is returned as it is. -/
def close (i : Nat) (s : FallbackSession) :
    ClosePoint → Option (FallbackSession × Effect × ClosePoint)
  | .start =>
      if s.lock ≠ none then none
      else if s.closed then some (s, .none, .done)
      else some ({ s with closed := true, lock := some i }, .none, .closing)
  | .closing => some ({ s with held := s.held.set s.session true, lock := none }, .none, .done)
  | .done => none

end FallbackSession

/-- A call on a session and how far it is. -/
inductive SessionThread where
  | send (point : SendPoint)
  | receive (point : ReceivePoint)
  | close (point : ClosePoint)
  deriving DecidableEq

inductive SessionCall where
  | send
  | receive
  | close

def SessionCall.start : SessionCall → SessionThread
  | .send => .send .start
  | .receive => .receive .start
  | .close => .close .start

def FallbackSession.exec (i : Nat) (s : FallbackSession) (input : Input) :
    SessionThread → Option (FallbackSession × Effect × SessionThread)
  | .send point => (s.send i input point).map fun (s, effect, point) => (s, effect, .send point)
  | .receive point =>
      (s.receive input point).map fun (s, effect, point) => (s, effect, .receive point)
  | .close point => (s.close i point).map fun (s, effect, point) => (s, effect, .close point)

section Steps

variable (i : Nat) (s : FallbackSession) (input : Input)

/-- The steps of the calls on a session. -/
inductive SessionStep : SessionThread → FallbackSession → Effect → SessionThread → Prop where
  | sendClosed (free : s.lock = none) (closed : s.closed = true) :
      SessionStep (.send .start) s .none (.send (.done .closed))
  | sendStart (free : s.lock = none) (unclosed : s.closed = false) :
      SessionStep (.send .start) s .none (.send (.sending s.session s.backup))
  | sent (packet : Nat) (backup : Bool) (ok : input.ok = true) :
      SessionStep (.send (.sending packet backup))
        { s with sent := s.sent ++ [(i, packet)] } .none (.send (.done .sent))
  | sendFailed (packet : Nat) (failed : input.ok = false) :
      SessionStep (.send (.sending packet true))
        { s with sent := s.sent ++ [(i, packet)] } .none (.send (.done (.failed packet)))
  | sendFailing (packet : Nat) (failed : input.ok = false) :
      SessionStep (.send (.sending packet false))
        { s with sent := s.sent ++ [(i, packet)] } .none (.send (.failing packet))
  | reported (packet : Nat) :
      SessionStep (.send (.failing packet)) s (.failed input.now) (.send (.locking packet))
  | lockClosed (packet : Nat) (free : s.lock = none) (closed : s.closed = true) :
      SessionStep (.send (.locking packet)) s .none (.send (.done .closed))
  | joined (packet : Nat) (free : s.lock = none) (unclosed : s.closed = false)
      (backup : s.backup = true) :
      SessionStep (.send (.locking packet)) { s with lock := some i } .none (.send .resending)
  | replacing (packet : Nat) (free : s.lock = none) (unclosed : s.closed = false)
      (primary : s.backup = false) :
      SessionStep (.send (.locking packet)) { s with lock := some i } .none
        (.send (.opening packet))
  | published (packet : Nat) (ok : input.ok = true) :
      SessionStep (.send (.opening packet))
        { s with held := s.held ++ [false], session := s.held.length, backup := true } .dialed
        (.send (.closing packet))
  | unopened (packet : Nat) (failed : input.ok = false) :
      SessionStep (.send (.opening packet)) { s with lock := none } .dialed
        (.send (.done .openFailed))
  | replaced (packet : Nat) :
      SessionStep (.send (.closing packet)) { s with held := s.held.set packet true } .none
        (.send .marking)
  | marked : SessionStep (.send .marking) s .switched (.send .resending)
  | resent (result : SendResult) :
      SessionStep (.send .resending) { s with sent := s.sent ++ [(i, s.session)], lock := none }
        .none (.send (.done result))
  | receiveClosed (free : s.lock = none) (closed : s.closed = true) :
      SessionStep (.receive .start) s .none (.receive (.done .closed))
  | receiveStart (free : s.lock = none) (unclosed : s.closed = false) :
      SessionStep (.receive .start) s .none (.receive (.receiving s.session))
  | received (packet : Nat) (ok : input.ok = true) :
      SessionStep (.receive (.receiving packet)) s .none (.receive (.done .received))
  | receiveFailed (packet : Nat) (failed : input.ok = false) :
      SessionStep (.receive (.receiving packet)) s .none (.receive (.checking packet))
  | changed (packet : Nat) (free : s.lock = none) (unclosed : s.closed = false)
      (moved : s.session ≠ packet) :
      SessionStep (.receive (.checking packet)) s .none (.receive .start)
  | receiveFailing (packet : Nat) (free : s.lock = none) (unclosed : s.closed = false)
      (same : s.session = packet) (primary : s.backup = false) :
      SessionStep (.receive (.checking packet)) s .none (.receive (.failing packet))
  | receiveError (packet : Nat) (free : s.lock = none)
      (final : s.closed = true ∨ s.session = packet ∧ s.backup = true) :
      SessionStep (.receive (.checking packet)) s .none (.receive (.done (.failed packet)))
  | receiveReported (packet : Nat) :
      SessionStep (.receive (.failing packet)) s (.failed input.now)
        (.receive (.done (.failed packet)))
  | closeAgain (free : s.lock = none) (closed : s.closed = true) :
      SessionStep (.close .start) s .none (.close .done)
  | closeStart (free : s.lock = none) (unclosed : s.closed = false) :
      SessionStep (.close .start) { s with closed := true, lock := some i } .none (.close .closing)
  | closed :
      SessionStep (.close .closing) { s with held := s.held.set s.session true, lock := none }
        .none (.close .done)

variable {i s input}

theorem SessionStep.of_send {point point' : SendPoint} {s' : FallbackSession} {effect : Effect}
    (h : s.send i input point = some (s', effect, point')) :
    SessionStep i s input (.send point) s' effect (.send point') := by
  cases point with
  | start =>
      simp only [FallbackSession.send] at h
      split_ifs at h with hlock hclosed
      · cases h
        exact .sendClosed (not_not.mp hlock) hclosed
      · cases h
        exact .sendStart (not_not.mp hlock) (Bool.not_eq_true _ ▸ hclosed)
  | sending packet backup =>
      simp only [FallbackSession.send] at h
      split_ifs at h with hok hbackup
      · cases h
        exact .sent packet backup hok
      · cases h
        subst hbackup
        exact .sendFailed packet (Bool.not_eq_true _ ▸ hok)
      · cases h
        obtain rfl : backup = false := Bool.not_eq_true _ ▸ hbackup
        exact .sendFailing packet (Bool.not_eq_true _ ▸ hok)
  | failing packet =>
      cases h
      exact .reported packet
  | locking packet =>
      simp only [FallbackSession.send] at h
      split_ifs at h with hlock hclosed hbackup
      · cases h
        exact .lockClosed packet (not_not.mp hlock) hclosed
      · cases h
        exact .joined packet (not_not.mp hlock) (Bool.not_eq_true _ ▸ hclosed) hbackup
      · cases h
        exact .replacing packet (not_not.mp hlock) (Bool.not_eq_true _ ▸ hclosed)
          (Bool.not_eq_true _ ▸ hbackup)
  | opening packet =>
      simp only [FallbackSession.send] at h
      split_ifs at h with hok
      · cases h
        exact .published packet hok
      · cases h
        exact .unopened packet (Bool.not_eq_true _ ▸ hok)
  | closing packet =>
      cases h
      exact .replaced packet
  | marking =>
      cases h
      exact .marked
  | resending =>
      cases h
      exact .resent _
  | done result => cases h

theorem SessionStep.of_receive {point point' : ReceivePoint} {s' : FallbackSession}
    {effect : Effect} (h : s.receive input point = some (s', effect, point')) :
    SessionStep i s input (.receive point) s' effect (.receive point') := by
  cases point with
  | start =>
      simp only [FallbackSession.receive] at h
      split_ifs at h with hlock hclosed
      · cases h
        exact .receiveClosed (not_not.mp hlock) hclosed
      · cases h
        exact .receiveStart (not_not.mp hlock) (Bool.not_eq_true _ ▸ hclosed)
  | receiving packet =>
      simp only [FallbackSession.receive] at h
      split_ifs at h with hok
      · cases h
        exact .received packet hok
      · cases h
        exact .receiveFailed packet (Bool.not_eq_true _ ▸ hok)
  | checking packet =>
      simp only [FallbackSession.receive, Bool.not_eq_true'] at h
      split_ifs at h with hlock hchanged hfailed
      · cases h
        exact .changed packet (not_not.mp hlock) hchanged.2 hchanged.1
      · cases h
        have hsame : s.session = packet := by
          by_contra hne
          exact hchanged ⟨hne, hfailed.1⟩
        exact .receiveFailing packet (not_not.mp hlock) hfailed.1 hsame hfailed.2
      · cases h
        refine .receiveError packet (not_not.mp hlock) ?_
        cases hclosed : s.closed with
        | true => exact Or.inl rfl
        | false =>
            refine Or.inr ⟨?_, ?_⟩
            · by_contra hne
              exact hchanged ⟨hne, hclosed⟩
            · exact Bool.not_eq_false _ ▸ fun hprimary => hfailed ⟨hclosed, hprimary⟩
  | failing packet =>
      cases h
      exact .receiveReported packet
  | done result => cases h

theorem SessionStep.of_close {point point' : ClosePoint} {s' : FallbackSession}
    {effect : Effect} (h : s.close i point = some (s', effect, point')) :
    SessionStep i s input (.close point) s' effect (.close point') := by
  cases point with
  | start =>
      simp only [FallbackSession.close] at h
      split_ifs at h with hlock hclosed
      · cases h
        exact .closeAgain (not_not.mp hlock) hclosed
      · cases h
        exact .closeStart (not_not.mp hlock) (Bool.not_eq_true _ ▸ hclosed)
  | closing =>
      cases h
      exact .closed
  | done => cases h

theorem FallbackSession.exec_spec {thread thread' : SessionThread} {s' : FallbackSession}
    {effect : Effect} (h : s.exec i input thread = some (s', effect, thread')) :
    SessionStep i s input thread s' effect thread' := by
  cases thread with
  | send point =>
      obtain ⟨⟨s₁, effect₁, point'⟩, hstep, heq⟩ := Option.map_eq_some_iff.mp h
      cases heq
      exact .of_send hstep
  | receive point =>
      obtain ⟨⟨s₁, effect₁, point'⟩, hstep, heq⟩ := Option.map_eq_some_iff.mp h
      cases heq
      exact .of_receive hstep
  | close point =>
      obtain ⟨⟨s₁, effect₁, point'⟩, hstep, heq⟩ := Option.map_eq_some_iff.mp h
      cases heq
      exact .of_close hstep

/-- A closed session stays closed. -/
theorem SessionStep.closed_mono {thread thread' : SessionThread} {s' : FallbackSession}
    {effect : Effect} (h : SessionStep i s input thread s' effect thread')
    (hclosed : s.closed = true) : s'.closed = true := by
  cases h with
  | closeStart => rfl
  | _ => exact hclosed

end Steps

/-! ## The relay -/

inductive RelayName where
  | hy2
  | reality
  deriving DecidableEq

/-- The zero time of `retryAt` is none. The dials of the backup are counted. -/
structure PacketRelay where
  cooldown : Int
  retryAt : Option Int
  active : RelayName
  sessions : List FallbackSession
  backupDials : Nat

def newPacketRelay (cooldown : Int) : PacketRelay := ⟨cooldown, none, .hy2, [], 0⟩

inductive OpenResult where
  | opened (session : Nat)
  | openedBackup
  | cancelled
  | failed
  deriving DecidableEq

inductive OpenPoint where
  | start
  | dialing
  | adopting
  | failing
  | dialingBackup
  | noting
  | done (result : OpenResult)
  deriving DecidableEq

/-- The moment has come, or was never set. -/
def reached (moment : Option Int) (now : Int) : Bool :=
  match moment with
  | none => true
  | some moment => !decide (now < moment)

namespace PacketRelay

def failed (relay : PacketRelay) (now : Int) : PacketRelay :=
  { relay with retryAt := some (now + relay.cooldown) }

def openPacket (relay : PacketRelay) (input : Input) : OpenPoint → Option (PacketRelay × OpenPoint)
  | .start => some (relay, if reached relay.retryAt input.now then .dialing else .dialingBackup)
  | .dialing =>
      if input.ok then some (relay, .adopting)
      else if input.cancelled then some (relay, .done .cancelled)
      else some (relay, .failing)
  | .adopting =>
      some ({ relay with
        active := .hy2, retryAt := none, sessions := relay.sessions ++ [.opened] },
        .done (.opened relay.sessions.length))
  | .failing => some (relay.failed input.now, .dialingBackup)
  | .dialingBackup =>
      let relay := { relay with backupDials := relay.backupDials + 1 }
      if input.ok then some (relay, .noting) else some (relay, .done .failed)
  | .noting => some ({ relay with active := .reality }, .done .openedBackup)
  | .done _ => none

def apply (relay : PacketRelay) : Effect → PacketRelay
  | .none => relay
  | .failed now => relay.failed now
  | .dialed => { relay with backupDials := relay.backupDials + 1 }
  | .switched => { relay with active := .reality }

end PacketRelay

inductive RelayThread where
  | openPacket (point : OpenPoint)
  | onSession (session : Nat) (thread : SessionThread)
  deriving DecidableEq

inductive RelayCall where
  | openPacket
  | onSession (session : Nat) (call : SessionCall)

def RelayCall.start : RelayCall → RelayThread
  | .openPacket => .openPacket .start
  | .onSession session call => .onSession session call.start

/-- One step of a thread; a call on a session that was never opened is blocked. -/
def PacketRelay.exec (relay : PacketRelay) (i : Nat) (thread : RelayThread) (input : Input) :
    Option (PacketRelay × RelayThread) :=
  match thread with
  | .openPacket point =>
      (relay.openPacket input point).map fun (relay, point) => (relay, .openPacket point)
  | .onSession k thread =>
      match relay.sessions[k]? with
      | none => none
      | some s =>
          match s.exec i input thread with
          | none => none
          | some (s, effect, thread) =>
              some ({ relay.apply effect with sessions := relay.sessions.set k s },
                .onSession k thread)

theorem PacketRelay.exec_openPacket {relay relay' : PacketRelay} {i : Nat} {point : OpenPoint}
    {thread' : RelayThread} {input : Input}
    (h : relay.exec i (.openPacket point) input = some (relay', thread')) :
    ∃ next, relay.openPacket input point = some (relay', next) ∧ thread' = .openPacket next := by
  obtain ⟨⟨relay₁, next⟩, hstep, heq⟩ := Option.map_eq_some_iff.mp h
  cases heq
  exact ⟨next, hstep, rfl⟩

/-- Opening keeps the sessions and may add one. -/
theorem PacketRelay.sessions_openPacket {relay relay' : PacketRelay} {input : Input}
    {point point' : OpenPoint} (h : relay.openPacket input point = some (relay', point')) :
    relay'.sessions = relay.sessions ∨ relay'.sessions = relay.sessions ++ [.opened] := by
  cases point with
  | adopting =>
      cases h
      exact Or.inr rfl
  | dialing =>
      simp only [openPacket] at h
      split_ifs at h <;> cases h <;> exact Or.inl rfl
  | dialingBackup =>
      simp only [openPacket] at h
      split_ifs at h <;> cases h <;> exact Or.inl rfl
  | done result => cases h
  | _ =>
      cases h
      exact Or.inl rfl

theorem PacketRelay.exec_onSession {relay relay' : PacketRelay} {i k : Nat}
    {thread : SessionThread} {thread' : RelayThread} {input : Input}
    (h : relay.exec i (.onSession k thread) input = some (relay', thread')) :
    ∃ s s' effect next, relay.sessions[k]? = some s ∧ SessionStep i s input thread s' effect next ∧
      relay' = { relay.apply effect with sessions := relay.sessions.set k s' } ∧
      thread' = .onSession k next := by
  simp only [PacketRelay.exec] at h
  cases hs : relay.sessions[k]? with
  | none => simp [hs] at h
  | some s =>
      simp only [hs] at h
      cases hstep : s.exec i input thread with
      | none => simp [hstep] at h
      | some result =>
          obtain ⟨s', effect, next⟩ := result
          simp only [hstep, Option.some.injEq, Prod.mk.injEq] at h
          exact ⟨s, s', effect, next, rfl, FallbackSession.exec_spec hstep, h.1.symm, h.2.symm⟩

def relayMachine : Machine PacketRelay RelayThread RelayCall Input where
  start := RelayCall.start
  exec relay i thread input :=
    (relay.exec i thread input).map fun (relay, thread) => (relay, thread, [])

end Hy2Route.Transport
