import Hy2Route.Transport.PacketRelay

/-!
# A packet session that fails open

A session on the proxy moves to a direct session when a send fails. Unlike the
session of a relay it keeps no closed flag, so that a send that fails because of
the session's own close opens a direct session all the same. Whatever was held is
closed if no send was told an error by the proxy shortly before a close or after it.
-/

namespace Hy2Route.Transport

open Foundation

/-- What a step reports to the failover controller. -/
inductive Report where
  | none
  | failure (now : Int)

/-- The sessions that were ever held, that of the proxy first, are recorded by whether
they were closed, and the current one by its place. The lock is recorded by the
thread that holds it for writing. -/
structure FailOpenSession where
  session : Nat
  directMode : Bool
  lock : Option Nat
  held : List Bool
  deriving DecidableEq

/-- A session as it is opened on the proxy. -/
def FailOpenSession.opened : FailOpenSession := ⟨0, false, none, [false]⟩

inductive FailOpenSendResult where
  | sent
  | failed
  | openFailed
  deriving DecidableEq

inductive FailOpenSendPoint where
  | start
  | sending (session : Nat) (directMode : Bool)
  | locking
  | recording
  | closing
  | opening
  | done (result : FailOpenSendResult)
  deriving DecidableEq

inductive FailOpenReceivePoint where
  | start
  | receiving (session : Nat)
  | done (ok : Bool)
  deriving DecidableEq

/-- A call on a session and how far it is. -/
inductive FailOpenThread where
  | send (point : FailOpenSendPoint)
  | receive (point : FailOpenReceivePoint)
  | close (point : ClosePoint)
  deriving DecidableEq

namespace FailOpenSession

/-- The error of the proxy is returned also when the direct session was opened. -/
def send (i : Nat) (s : FailOpenSession) (input : Input) :
    FailOpenSendPoint → Option (FailOpenSession × Report × FailOpenSendPoint)
  | .start => if s.lock ≠ none then none else some (s, .none, .sending s.session s.directMode)
  | .sending _ directMode =>
      if input.ok then some (s, .none, .done .sent)
      else if directMode then some (s, .none, .done .failed)
      else some (s, .none, .locking)
  | .locking =>
      if s.lock ≠ none then none
      else if s.directMode then some (s, .none, .done .failed)
      else some ({ s with lock := some i }, .none, .recording)
  | .recording => some (s, .failure input.now, .closing)
  | .closing => some ({ s with held := s.held.set s.session true }, .none, .opening)
  | .opening =>
      if input.ok then
        some ({ s with
          held := s.held ++ [false], session := s.held.length, directMode := true, lock := none },
          .none, .done .failed)
      else some ({ s with lock := none }, .none, .done .openFailed)
  | .done _ => none

def receive (s : FailOpenSession) (input : Input) :
    FailOpenReceivePoint → Option (FailOpenSession × Report × FailOpenReceivePoint)
  | .start => if s.lock ≠ none then none else some (s, .none, .receiving s.session)
  | .receiving _ => some (s, .none, .done input.ok)
  | .done _ => none

def close (i : Nat) (s : FailOpenSession) :
    ClosePoint → Option (FailOpenSession × Report × ClosePoint)
  | .start => if s.lock ≠ none then none else some ({ s with lock := some i }, .none, .closing)
  | .closing =>
      some ({ s with held := s.held.set s.session true, lock := none }, .none, .done)
  | .done => none

def exec (i : Nat) (s : FailOpenSession) (input : Input) :
    FailOpenThread → Option (FailOpenSession × Report × FailOpenThread)
  | .send point => (s.send i input point).map fun (s, report, point) => (s, report, .send point)
  | .receive point =>
      (s.receive input point).map fun (s, report, point) => (s, report, .receive point)
  | .close point => (s.close i point).map fun (s, report, point) => (s, report, .close point)

end FailOpenSession

def SessionCall.startFailOpen : SessionCall → FailOpenThread
  | .send => .send .start
  | .receive => .receive .start
  | .close => .close .start

section Steps

variable (i : Nat) (s : FailOpenSession) (input : Input)

/-- The steps of the calls on a session. -/
inductive FailOpenStep : FailOpenThread → FailOpenSession → Report → FailOpenThread → Prop where
  | sendStart (free : s.lock = none) :
      FailOpenStep (.send .start) s .none (.send (.sending s.session s.directMode))
  | sent (session : Nat) (directMode : Bool) (ok : input.ok = true) :
      FailOpenStep (.send (.sending session directMode)) s .none (.send (.done .sent))
  | sendFailed (session : Nat) (failed : input.ok = false) :
      FailOpenStep (.send (.sending session true)) s .none (.send (.done .failed))
  | sendFailing (session : Nat) (failed : input.ok = false) :
      FailOpenStep (.send (.sending session false)) s .none (.send .locking)
  | joined (free : s.lock = none) (direct : s.directMode = true) :
      FailOpenStep (.send .locking) s .none (.send (.done .failed))
  | replacing (free : s.lock = none) (proxy : s.directMode = false) :
      FailOpenStep (.send .locking) { s with lock := some i } .none (.send .recording)
  | recorded : FailOpenStep (.send .recording) s (.failure input.now) (.send .closing)
  | replaced :
      FailOpenStep (.send .closing) { s with held := s.held.set s.session true } .none
        (.send .opening)
  | published (ok : input.ok = true) :
      FailOpenStep (.send .opening)
        { s with
          held := s.held ++ [false], session := s.held.length, directMode := true, lock := none }
        .none (.send (.done .failed))
  | unopened (failed : input.ok = false) :
      FailOpenStep (.send .opening) { s with lock := none } .none (.send (.done .openFailed))
  | receiveStart (free : s.lock = none) :
      FailOpenStep (.receive .start) s .none (.receive (.receiving s.session))
  | received (session : Nat) :
      FailOpenStep (.receive (.receiving session)) s .none (.receive (.done input.ok))
  | closeStart (free : s.lock = none) :
      FailOpenStep (.close .start) { s with lock := some i } .none (.close .closing)
  | closed :
      FailOpenStep (.close .closing) { s with held := s.held.set s.session true, lock := none }
        .none (.close .done)

variable {i s input}

theorem FailOpenStep.of_send {point point' : FailOpenSendPoint} {s' : FailOpenSession}
    {report : Report} (h : s.send i input point = some (s', report, point')) :
    FailOpenStep i s input (.send point) s' report (.send point') := by
  cases point with
  | start =>
      simp only [FailOpenSession.send] at h
      split_ifs at h with hlock
      cases h
      exact .sendStart (not_not.mp hlock)
  | sending session directMode =>
      simp only [FailOpenSession.send] at h
      split_ifs at h with hok hdirect
      · cases h
        exact .sent session directMode hok
      · cases h
        subst hdirect
        exact .sendFailed session (Bool.not_eq_true _ ▸ hok)
      · cases h
        obtain rfl : directMode = false := Bool.not_eq_true _ ▸ hdirect
        exact .sendFailing session (Bool.not_eq_true _ ▸ hok)
  | locking =>
      simp only [FailOpenSession.send] at h
      split_ifs at h with hlock hdirect
      · cases h
        exact .joined (not_not.mp hlock) hdirect
      · cases h
        exact .replacing (not_not.mp hlock) (Bool.not_eq_true _ ▸ hdirect)
  | recording =>
      cases h
      exact .recorded
  | closing =>
      cases h
      exact .replaced
  | opening =>
      simp only [FailOpenSession.send] at h
      split_ifs at h with hok
      · cases h
        exact .published hok
      · cases h
        exact .unopened (Bool.not_eq_true _ ▸ hok)
  | done result => cases h

theorem FailOpenStep.of_receive {point point' : FailOpenReceivePoint} {s' : FailOpenSession}
    {report : Report} (h : s.receive input point = some (s', report, point')) :
    FailOpenStep i s input (.receive point) s' report (.receive point') := by
  cases point with
  | start =>
      simp only [FailOpenSession.receive] at h
      split_ifs at h with hlock
      cases h
      exact .receiveStart (not_not.mp hlock)
  | receiving session =>
      cases h
      exact .received session
  | done ok => cases h

theorem FailOpenStep.of_close {point point' : ClosePoint} {s' : FailOpenSession}
    {report : Report} (h : s.close i point = some (s', report, point')) :
    FailOpenStep i s input (.close point) s' report (.close point') := by
  cases point with
  | start =>
      simp only [FailOpenSession.close] at h
      split_ifs at h with hlock
      cases h
      exact .closeStart (not_not.mp hlock)
  | closing =>
      cases h
      exact .closed
  | done => cases h

theorem FailOpenSession.exec_spec {thread thread' : FailOpenThread} {s' : FailOpenSession}
    {report : Report} (h : s.exec i input thread = some (s', report, thread')) :
    FailOpenStep i s input thread s' report thread' := by
  cases thread with
  | send point =>
      obtain ⟨⟨s₁, report₁, point'⟩, hstep, heq⟩ := Option.map_eq_some_iff.mp h
      cases heq
      exact .of_send hstep
  | receive point =>
      obtain ⟨⟨s₁, report₁, point'⟩, hstep, heq⟩ := Option.map_eq_some_iff.mp h
      cases heq
      exact .of_receive hstep
  | close point =>
      obtain ⟨⟨s₁, report₁, point'⟩, hstep, heq⟩ := Option.map_eq_some_iff.mp h
      cases heq
      exact .of_close hstep

/-- Only a send that replaces the session reports, and it reports a failure. -/
theorem FailOpenStep.report_eq {thread thread' : FailOpenThread} {s' : FailOpenSession}
    {report : Report} (h : FailOpenStep i s input thread s' report thread') :
    report = .none ∨ report = .failure input.now ∧ thread = .send .recording := by
  cases h with
  | recorded => exact Or.inr ⟨rfl, rfl⟩
  | _ => exact Or.inl rfl

/-- A session that was closed stays closed. -/
theorem FailOpenStep.held_mono {thread thread' : FailOpenThread} {s' : FailOpenSession}
    {report : Report} (h : FailOpenStep i s input thread s' report thread') {k : Nat}
    (hk : s.held[k]? = some true) : s'.held[k]? = some true := by
  have hlen : k < s.held.length := (List.getElem?_eq_some_iff.mp hk).1
  have hset (j : Nat) : (s.held.set j true)[k]? = some true := by
    by_cases heq : j = k
    · exact heq ▸ List.getElem?_set_self (heq ▸ hlen)
    · rw [List.getElem?_set_ne heq, hk]
  cases h with
  | replaced => exact hset _
  | published => rw [List.getElem?_append_left hlen, hk]
  | closed => exact hset _
  | _ => exact hk

end Steps

def failOpenMachine : Machine FailOpenSession FailOpenThread SessionCall Input where
  start := SessionCall.startFailOpen
  exec s i thread input :=
    (s.exec i input thread).map fun (s, _, thread) => (s, thread, [])

/-- A session as it is opened, without calls. -/
def failOpenStart : Threads FailOpenSession FailOpenThread := ⟨.opened, []⟩

theorem failOpenMachine_exec {s s' : FailOpenSession} {i : Nat} {thread thread' : FailOpenThread}
    {input : Input} {calls : List SessionCall}
    (h : failOpenMachine.exec s i thread input = some (s', thread', calls)) :
    calls = [] ∧ ∃ report, FailOpenStep i s input thread s' report thread' := by
  obtain ⟨⟨s₁, report, thread₁⟩, hexec, heq⟩ := Option.map_eq_some_iff.mp h
  cases heq
  exact ⟨rfl, report, FailOpenSession.exec_spec hexec⟩

/-! ## The lock -/

/-- The points at which a call holds the lock. -/
def FailOpenThread.holds : FailOpenThread → Prop
  | .send .recording | .send .closing | .send .opening => True
  | .close .closing => True
  | _ => False

section Lock

variable {i : Nat} {s s' : FailOpenSession} {input : Input} {thread thread' : FailOpenThread}
  {report : Report}

theorem FailOpenStep.lock (h : FailOpenStep i s input thread s' report thread')
    (hholds : thread.holds ↔ s.lock = some i) :
    (thread'.holds ↔ s'.lock = some i) ∧ ∀ j, j ≠ i → (s'.lock = some j ↔ s.lock = some j) := by
  cases h with
  | replacing free | closeStart free =>
      exact ⟨by simp [FailOpenThread.holds], Machine.lock_taken free⟩
  | published | unopened | closed =>
      exact ⟨by simp [FailOpenThread.holds], Machine.lock_released (hholds.mp trivial)⟩
  | _ => exact ⟨hholds, fun _ _ => Iff.rfl⟩

/-- While another call holds the lock, a step changes nothing. -/
theorem FailOpenStep.of_locked (h : FailOpenStep i s input thread s' report thread')
    (hthread : ¬ thread.holds) (hlock : s.lock ≠ none) : s' = s := by
  cases h with
  | sendStart free | joined free | replacing free | receiveStart free | closeStart free =>
      exact absurd free hlock
  | recorded | replaced | published | unopened | closed => exact absurd trivial hthread
  | _ => rfl

end Lock

theorem failOpenMachine_guards :
    failOpenMachine.Guards FailOpenSession.lock FailOpenThread.holds where
  start := by
    intro call
    cases call <;> exact id
  exec := by
    intro s i thread input s' thread' calls h hholds
    obtain ⟨-, report, hstep⟩ := failOpenMachine_exec h
    exact hstep.lock hholds

/-! ## What is held -/

/-- The current session is that of the proxy before the switch and the direct one
after it, when that of the proxy is closed. -/
structure FailedOver (s : FailOpenSession) : Prop where
  current : s.session = s.directMode.toNat
  held : s.held.length = s.directMode.toNat + 1
  replaced : s.directMode = true → s.held[0]? = some true

/-- What a call knows while it replaces the session, and after a close. -/
def FailOpenKnows (s : FailOpenSession) : FailOpenThread → Prop
  | .send .recording | .send .closing => s.directMode = false
  | .send .opening => s.directMode = false ∧ s.held[0]? = some true
  | .close .done => s.held[0]? = some true
  | _ => True

section Held

variable {i : Nat} {s s' : FailOpenSession} {input : Input} {thread thread' : FailOpenThread}
  {report : Report}

theorem FailedOver.step (hs : FailedOver s) (hknows : FailOpenKnows s thread)
    (h : FailOpenStep i s input thread s' report thread') :
    FailedOver s' ∧ FailOpenKnows s' thread' := by
  obtain ⟨hcurrent, hheld, hreplaced⟩ := hs
  cases h with
  | replacing _ proxy => exact ⟨⟨hcurrent, hheld, hreplaced⟩, proxy⟩
  | recorded => exact ⟨⟨hcurrent, hheld, hreplaced⟩, hknows⟩
  | replaced =>
      have hproxy : s.directMode = false := hknows
      have hzero : s.session = 0 := by simpa [hproxy] using hcurrent
      refine ⟨⟨hcurrent, by simpa using hheld, fun hdirect => ?_⟩, hproxy, ?_⟩
      · exact absurd hdirect (by simp [hproxy])
      · simp [hzero, hheld]
  | published =>
      obtain ⟨hproxy, hclosed⟩ := hknows
      have hone : s.held.length = 1 := by simpa [hproxy] using hheld
      refine ⟨⟨hone, by simp [hone], fun _ => ?_⟩, trivial⟩
      rw [List.getElem?_append_left (by omega), hclosed]
  | closed =>
      have hset : (s.held.set s.session true)[0]? = some true := by
        cases hdirect : s.directMode with
        | false =>
            have hzero : s.session = 0 := by simpa [hdirect] using hcurrent
            rw [hzero, List.getElem?_set_self (by simp [hheld])]
        | true =>
            have hone : s.session = 1 := by simpa [hdirect] using hcurrent
            rw [List.getElem?_set_ne (by simp [hone]), hreplaced hdirect]
      exact ⟨⟨hcurrent, by simpa using hheld, fun _ => hset⟩, hset⟩
  | _ => exact ⟨⟨hcurrent, hheld, hreplaced⟩, trivial⟩

theorem FailOpenKnows.other {other : FailOpenThread} (hother : FailOpenKnows s other)
    (hlocked : other.holds → s.lock ≠ none ∧ ¬ thread.holds)
    (h : FailOpenStep i s input thread s' report thread') : FailOpenKnows s' other := by
  by_cases hholds : other.holds
  · rw [h.of_locked (hlocked hholds).2 (hlocked hholds).1]
    exact hother
  · cases other with
    | send point =>
        cases point with
        | recording | closing | opening => exact absurd trivial hholds
        | _ => trivial
    | receive point => trivial
    | close point =>
        cases point with
        | done => exact h.held_mono hother
        | _ => trivial

end Held

theorem failOpenMachine_keeps {ok : FailOpenSession → Nat → FailOpenThread → Input → Prop} :
    failOpenMachine.Keeps ok
      (fun s n => (∀ i, s.lock = some i → i < n) ∧ FailedOver s)
      (fun s i thread => (thread.holds ↔ s.lock = some i) ∧ FailOpenKnows s thread) := by
  refine failOpenMachine_guards.extend ?_ ?_ ?_
  · intro s n call hs
    cases call <;> exact ⟨hs, trivial⟩
  · intro s n i thread input s' thread' calls hs _ hknows _ h
    obtain ⟨-, report, hstep⟩ := failOpenMachine_exec h
    exact hs.step hknows hstep
  · intro s i thread input s' thread' calls j other hlocked h hother
    obtain ⟨-, report, hstep⟩ := failOpenMachine_exec h
    exact hother.other hlocked hstep

/-! ## Runs -/

abbrev FailOpenState := Threads FailOpenSession FailOpenThread

/-- The move opens a direct session. -/
def OpensDirect (state : FailOpenState) : Move SessionCall Input → Prop
  | .call _ => False
  | .run i input => state.threads[i]? = some (.send .opening) ∧ input.ok = true

/-- The move is the step of a close that closes the current session. -/
def ClosesCurrent (state : FailOpenState) : Move SessionCall Input → Prop
  | .call _ => False
  | .run i _ => state.threads[i]? = some (.close .closing)

/-- What holds in every state of a run. -/
abbrev FailOpenInvariant : FailOpenState → Prop :=
  Invariant (fun s n => (∀ i, s.lock = some i → i < n) ∧ FailedOver s)
    (fun s i thread => (thread.holds ↔ s.lock = some i) ∧ FailOpenKnows s thread)

theorem failOpenStart_invariant : FailOpenInvariant failOpenStart :=
  ⟨⟨nofun, rfl, rfl, nofun⟩, nofun⟩

section Run

variable {state : FailOpenState} {move : Move SessionCall Input}

theorem FailOpenInvariant.step (h : FailOpenInvariant state) (move : Move SessionCall Input) :
    FailOpenInvariant (failOpenMachine.step state move) :=
  failOpenMachine_keeps.run_all h [move]

theorem failOpen_step (state : FailOpenState) (move : Move SessionCall Input) :
    (failOpenMachine.step state move).shared = state.shared ∨
      ∃ i input thread s' report thread', move = .run i input ∧
        state.threads[i]? = some thread ∧ (failOpenMachine.step state move).shared = s' ∧
        FailOpenStep i state.shared input thread s' report thread' := by
  refine (failOpenMachine.shared_step state move).imp_right ?_
  rintro ⟨i, input, thread, thread', calls, hmove, hthread, hexec⟩
  obtain ⟨-, report, hstep⟩ := failOpenMachine_exec hexec
  exact ⟨i, input, thread, _, report, thread', hmove, hthread, rfl, hstep⟩

theorem held_mono_step (k : Nat) (state : FailOpenState) (move : Move SessionCall Input)
    (h : state.shared.held[k]? = some true) :
    (failOpenMachine.step state move).shared.held[k]? = some true := by
  rcases failOpen_step state move with
    hsame | ⟨i, input, thread, s', report, thread', -, -, hs', hstep⟩
  · rw [hsame, h]
  · rw [hs']
    exact hstep.held_mono h

theorem directMode_mono_step (state : FailOpenState) (move : Move SessionCall Input)
    (h : state.shared.directMode = true) :
    (failOpenMachine.step state move).shared.directMode = true := by
  rcases failOpen_step state move with
    hsame | ⟨i, input, thread, s', report, thread', -, -, hs', hstep⟩
  · rw [hsame, h]
  · rw [hs']
    cases hstep with
    | published => rfl
    | _ => exact h

/-- Only an opening leaves the proxy. -/
theorem directMode_step (h : (failOpenMachine.step state move).shared.directMode = true) :
    state.shared.directMode = true ∨ OpensDirect state move := by
  rcases failOpen_step state move with
    hsame | ⟨i, input, thread, s', report, thread', rfl, hthread, hs', hstep⟩
  · exact Or.inl (hsame ▸ h)
  · rw [hs'] at h
    cases hstep with
    | published ok => exact Or.inr ⟨hthread, ok⟩
    | _ => exact Or.inl h

/-- Only a close closes the direct session. -/
theorem direct_closed_step (hinv : FailOpenInvariant state)
    (h : (failOpenMachine.step state move).shared.held[1]? = some true) :
    state.shared.held[1]? = some true ∨ ClosesCurrent state move := by
  rcases failOpen_step state move with
    hsame | ⟨i, input, thread, s', report, thread', rfl, hthread, hs', hstep⟩
  · exact Or.inl (hsame ▸ h)
  · obtain ⟨-, hknows⟩ := hinv.threads i thread hthread
    have hs := hinv.shared.2
    rw [hs'] at h
    cases hstep with
    | replaced =>
        -- A send closes the session of the proxy only.
        have hzero : state.shared.session = 0 := by
          simpa [show state.shared.directMode = false from hknows] using hs.current
        rw [hzero, List.getElem?_set_ne (by decide)] at h
        exact Or.inl h
    | published =>
        have hone : state.shared.held.length = 1 := by simpa [hknows.1] using hs.held
        simp [hone] at h
    | closed => exact Or.inr hthread
    | _ => exact Or.inl h

theorem opensDirect_step (hinv : FailOpenInvariant state) (h : OpensDirect state move) :
    (failOpenMachine.step state move).shared.directMode = true ∧
      (failOpenMachine.step state move).shared.held[1]? = some false := by
  cases move with
  | call c => exact h.elim
  | run i input =>
      obtain ⟨hthread, hok⟩ := h
      obtain ⟨-, hproxy, -⟩ := hinv.threads i _ hthread
      have hone : state.shared.held.length = 1 := by simpa [hproxy] using hinv.shared.2.held
      have hexec : failOpenMachine.exec state.shared i (.send .opening) input = some
          ({ state.shared with
            held := state.shared.held ++ [false]
            session := state.shared.held.length
            directMode := true
            lock := none }, .send (.done .failed), []) := by
        simp [failOpenMachine, FailOpenSession.exec, FailOpenSession.send, hok]
      rw [Machine.step_run hthread hexec]
      exact ⟨rfl, by simp [hone]⟩

theorem closesCurrent_step (hinv : FailOpenInvariant state) (h : ClosesCurrent state move)
    (hdirect : state.shared.directMode = true) :
    (failOpenMachine.step state move).shared.held[1]? = some true := by
  cases move with
  | call c => exact h.elim
  | run i input =>
      have hthread : state.threads[i]? = some (.close .closing) := h
      have hone : state.shared.session = 1 := by simpa [hdirect] using hinv.shared.2.current
      have hlen : state.shared.held.length = 2 := by simpa [hdirect] using hinv.shared.2.held
      rw [Machine.step_run hthread rfl]
      simp [hone, hlen]

/-- A direct session that is open and later closed was closed by the step of a close. -/
theorem exists_close (hinv : FailOpenInvariant state)
    (hopen : state.shared.held[1]? = some false) (later : List (Move SessionCall Input))
    (hclosed : (later.foldl failOpenMachine.step state).shared.held[1]? = some true) :
    ∃ before close after, later = before ++ close :: after ∧
      ClosesCurrent (before.foldl failOpenMachine.step state) close := by
  have hstep (state : FailOpenState) (move : Move SessionCall Input) (_ : Unit)
      (h : FailOpenInvariant state) :
      (failOpenMachine.step state move).shared.held[1]? = some true →
        state.shared.held[1]? = some true ∨ ClosesCurrent state move :=
    direct_closed_step h
  exact exists_call_of_held (fun state _ => state.shared.held[1]? = some true)
    (fun _ move h => h.step move) hstep hinv (b := ()) (by simp [hopen]) later hclosed

/-- A session that is direct was made so by an opening. -/
theorem exists_opening (moves : List (Move SessionCall Input))
    (hdirect : (moves.foldl failOpenMachine.step failOpenStart).shared.directMode = true) :
    ∃ past opening later, moves = past ++ opening :: later ∧
      OpensDirect (past.foldl failOpenMachine.step failOpenStart) opening := by
  have hstep (state : FailOpenState) (move : Move SessionCall Input) (_ : Unit)
      (_ : FailOpenInvariant state) :
      (failOpenMachine.step state move).shared.directMode = true →
        state.shared.directMode = true ∨ OpensDirect state move :=
    directMode_step
  exact exists_call_of_held (fun state _ => state.shared.directMode = true)
    (fun _ move h => h.step move) hstep failOpenStart_invariant (b := ()) (by decide) moves hdirect

end Run

theorem FailedOver.all_closed_iff {s : FailOpenSession} (hs : FailedOver s)
    (hproxy : s.held[0]? = some true) :
    (∀ shut ∈ s.held, shut = true) ↔ (s.directMode = true → s.held[1]? = some true) := by
  have hlen := hs.held
  constructor
  · intro hall hdirect
    rw [hdirect, Bool.toNat_true] at hlen
    have hget := List.getElem?_eq_getElem (show 1 < s.held.length by omega)
    rw [hget, hall _ (List.mem_of_getElem? hget)]
  · intro hdirect shut hmem
    obtain ⟨k, hk⟩ := List.getElem?_of_mem hmem
    have hklen : k < s.held.length := (List.getElem?_eq_some_iff.mp hk).1
    rcases Nat.eq_zero_or_pos k with rfl | hpos
    · exact Option.some.inj (hk.symm.trans hproxy)
    · have hmode : s.directMode = true := by
        by_contra hfalse
        rw [Bool.eq_false_of_not_eq_true hfalse, Bool.toNat_false] at hlen
        omega
      rw [hmode, Bool.toNat_true] at hlen
      obtain rfl : k = 1 := by omega
      exact Option.some.inj (hk.symm.trans (hdirect hmode))

/-- Once a close has returned, in particular when all calls are over, whatever was
held is closed exactly if every opening of a direct session was followed by the
step of a close. -/
theorem failOpen_closed_iff (moves : List (Move SessionCall Input))
    (hclose : .close .done ∈ (moves.foldl failOpenMachine.step failOpenStart).threads) :
    (∀ shut ∈ (moves.foldl failOpenMachine.step failOpenStart).shared.held, shut = true) ↔
      ∀ past opening later, moves = past ++ opening :: later →
        OpensDirect (past.foldl failOpenMachine.step failOpenStart) opening →
        ∃ before close after, later = before ++ close :: after ∧
          ClosesCurrent ((past ++ opening :: before).foldl failOpenMachine.step failOpenStart)
            close := by
  have hreached (calls : List (Move SessionCall Input)) :
      FailOpenInvariant (calls.foldl failOpenMachine.step failOpenStart) :=
    failOpenMachine_keeps.run_all failOpenStart_invariant calls
  have hstays (state : FailOpenState) (h : state.shared.directMode = true)
      (calls : List (Move SessionCall Input)) :
      (calls.foldl failOpenMachine.step state).shared.directMode = true :=
    foldl_invariant directMode_mono_step h calls
  have hinv := hreached moves
  obtain ⟨k, hk⟩ := List.getElem?_of_mem hclose
  rw [hinv.shared.2.all_closed_iff (hinv.threads k _ hk).2]
  constructor
  · rintro hclosed past opening later rfl hopens
    rw [List.foldl_append, List.foldl_cons] at hclosed
    obtain ⟨hdirect, hopen⟩ := opensDirect_step (hreached past) hopens
    obtain ⟨before, close, after, rfl, hcloses⟩ :=
      exists_close ((hreached past).step opening) hopen later (hclosed (hstays _ hdirect later))
    exact ⟨before, close, after, rfl, by rwa [List.foldl_append, List.foldl_cons]⟩
  · intro hfollowed hdirect
    obtain ⟨past, opening, later, rfl, hopens⟩ := exists_opening moves hdirect
    obtain ⟨before, close, after, rfl, hcloses⟩ := hfollowed past opening later rfl hopens
    have hmode : ((past ++ opening :: before).foldl failOpenMachine.step
        failOpenStart).shared.directMode = true := by
      rw [List.foldl_append, List.foldl_cons]
      exact hstays _ (opensDirect_step (hreached past) hopens).1 before
    have hshut := closesCurrent_step (hreached (past ++ opening :: before)) hcloses hmode
    have hsplit : past ++ opening :: (before ++ close :: after) =
        (past ++ opening :: before) ++ close :: after := by simp
    rw [hsplit, List.foldl_append, List.foldl_cons]
    exact foldl_invariant (held_mono_step 1) hshut after

/-! ## A close that nothing disturbs -/

/-- The points of a send between an error of the proxy and the end of the switch. -/
def FailOpenThread.Switching : FailOpenThread → Prop
  | .send .locking | .send .recording | .send .closing | .send .opening => True
  | _ => False

/-- The step tells a send an error of the proxy. -/
def ToldError (thread : FailOpenThread) (input : Input) : Prop :=
  ∃ session, thread = .send (.sending session false) ∧ input.ok = false

/-- Before the switch to the direct session no send is told an error of the proxy. -/
def ProxyUnfailing (s : FailOpenSession) (_ : Nat) (thread : FailOpenThread) (input : Input) :
    Prop :=
  s.directMode = false → ¬ ToldError thread input

section ProxyUnfailing

variable {i c : Nat} {s s' : FailOpenSession} {input : Input} {thread thread' : FailOpenThread}
  {report : Report}

/-- What holds of a thread once the close with the number `c` has taken the lock: before
the switch no send is about to make it, and after the close the direct session is closed. -/
structure ClosedFor (c : Nat) (s : FailOpenSession) (j : Nat) (thread : FailOpenThread) :
    Prop where
  calm : s.directMode = false → ¬ thread.Switching
  closes : j = c → thread = .close .closing ∨
    thread = .close .done ∧ (s.directMode = true → s.held[1]? = some true)

/-- Only a send that makes the switch changes the mode. -/
theorem FailOpenStep.directMode_eq (h : FailOpenStep i s input thread s' report thread')
    (hcalm : s.directMode = false → ¬ thread.Switching) (hknows : FailOpenKnows s thread) :
    s'.directMode = s.directMode := by
  cases h with
  | published => exact absurd trivial (hcalm hknows.1)
  | _ => rfl

theorem ClosedFor.step (h : ClosedFor c s i thread) (hs : FailedOver s)
    (hknows : FailOpenKnows s thread) (hcalm : ProxyUnfailing s i thread input)
    (hstep : FailOpenStep i s input thread s' report thread') : ClosedFor c s' i thread' := by
  refine ⟨fun hproxy => ?_, fun hi => ?_⟩
  · rw [hstep.directMode_eq h.calm hknows] at hproxy
    have hsend := h.calm hproxy
    cases hstep with
    | sendFailing session failed => exact absurd ⟨session, rfl, failed⟩ (hcalm hproxy)
    | replacing | recorded | replaced => exact absurd trivial hsend
    | _ => exact id
  · rcases h.closes hi with rfl | ⟨rfl, -⟩
    · cases hstep with
      | closed =>
          refine Or.inr ⟨rfl, fun hdirect => ?_⟩
          have hdirect : s.directMode = true := hdirect
          have hone : s.session = 1 := by simpa [hdirect] using hs.current
          have hlen : s.held.length = 2 := by simpa [hdirect] using hs.held
          simp [hone, hlen]
    · cases hstep

theorem ClosedFor.other {j : Nat} {other : FailOpenThread} (h : ClosedFor c s j other)
    (hthread : ClosedFor c s i thread) (hknows : FailOpenKnows s thread)
    (hstep : FailOpenStep i s input thread s' report thread') : ClosedFor c s' j other := by
  have hmode := hstep.directMode_eq hthread.calm hknows
  refine ⟨fun hproxy => h.calm (hmode ▸ hproxy), fun hj => (h.closes hj).imp_right ?_⟩
  rintro ⟨rfl, hclosed⟩
  exact ⟨rfl, fun hdirect => hstep.held_mono (hclosed (hmode ▸ hdirect))⟩

end ProxyUnfailing

theorem failOpenMachine_keeps_closed (c : Nat) :
    failOpenMachine.Keeps ProxyUnfailing
      (fun s n => ((∀ i, s.lock = some i → i < n) ∧ FailedOver s) ∧ c < n)
      (fun s i thread => ((thread.holds ↔ s.lock = some i) ∧ FailOpenKnows s thread) ∧
        ClosedFor c s i thread) := by
  refine failOpenMachine_keeps.extend ?_ ?_ ?_
  · intro s n call _ hn
    refine ⟨Nat.lt_succ_of_lt hn, fun _ => ?_, fun heq => absurd hn (by omega)⟩
    cases call <;> exact id
  · intro s n i thread input s' thread' calls hs _ hthread hok h
    obtain ⟨-, report, hstep⟩ := failOpenMachine_exec h
    exact ⟨hs.2, hthread.2.step hs.1.2 hthread.1.2 hok hstep⟩
  · intro s n i thread input s' thread' calls j other _ _ hthread _ h _ hother
    obtain ⟨-, report, hstep⟩ := failOpenMachine_exec h
    exact hother.2.other hthread.2 hthread.1.2 hstep

/-- Once a close has the lock and no send is about to switch. -/
theorem closedFor_of_locked {state : FailOpenState} (hinv : FailOpenInvariant state) {c : Nat}
    (hstart : state.threads[c]? = some (.close .start)) (hfree : state.shared.lock = none)
    (hcalm : state.shared.directMode = false → .send .locking ∉ state.threads) (input : Input) :
    let locked := failOpenMachine.step state (.run c input)
    c < locked.threads.length ∧
      ∀ i thread, locked.threads[i]? = some thread → ClosedFor c locked.shared i thread := by
  have hexec : failOpenMachine.exec state.shared c (.close .start) input =
      some ({ state.shared with lock := some c }, .close .closing, []) := by
    simp [failOpenMachine, FailOpenSession.exec, FailOpenSession.close, hfree]
  have hlen : c < state.threads.length := (List.getElem?_eq_some_iff.mp hstart).1
  rw [Machine.step_run hstart hexec]
  refine ⟨by simpa using hlen, fun i thread hthread => ?_⟩
  by_cases hi : i = c
  · subst hi
    rw [List.getElem?_set_self hlen] at hthread
    cases hthread
    exact ⟨fun _ => id, fun _ => Or.inl rfl⟩
  · rw [List.getElem?_set_ne (Ne.symm hi)] at hthread
    refine ⟨fun hproxy hswitching => ?_, fun heq => absurd heq hi⟩
    by_cases hholds : thread.holds
    · have hlock := (hinv.threads i thread hthread).1.mp hholds
      rw [hfree] at hlock
      cases hlock
    · have hlocking : thread = .send .locking := by
        cases thread with
        | send point => cases point <;> first | rfl | exact absurd trivial hholds | cases hswitching
        | receive point => cases hswitching
        | close point => cases hswitching
      exact hcalm hproxy (hlocking ▸ List.mem_of_getElem? hthread)

/-- A close that has returned has closed whatever was ever held, if no send that the proxy
had told an error was waiting when it took the lock, and none was told one from then on,
as long as the session was not direct. In any case everything is closed exactly if every
opening of a direct session was followed by the step of a close. -/
theorem failOpen_closed (past later : List (Move SessionCall Input)) (c : Nat) (input : Input)
    (hstart : (past.foldl failOpenMachine.step failOpenStart).threads[c]? = some (.close .start))
    (hfree : (past.foldl failOpenMachine.step failOpenStart).shared.lock = none)
    (hdone : ((past ++ .run c input :: later).foldl failOpenMachine.step
      failOpenStart).threads[c]? = some (.close .done)) :
    let run := fun moves => List.foldl failOpenMachine.step failOpenStart moves
    let moves := past ++ .run c input :: later
    (((run past).shared.directMode = false → .send .locking ∉ (run past).threads) →
      Allowed failOpenMachine.step (Machine.Meets ProxyUnfailing) (run (past ++ [.run c input]))
        later →
      ∀ shut ∈ (run moves).shared.held, shut = true) ∧
    ((∀ shut ∈ (run moves).shared.held, shut = true) ↔
      ∀ past opening later, moves = past ++ opening :: later → OpensDirect (run past) opening →
        ∃ before close after, later = before ++ close :: after ∧
          ClosesCurrent (run (past ++ opening :: before)) close) := by
  intro run moves
  refine ⟨fun hcalm hquiet => ?_, failOpen_closed_iff moves (List.mem_of_getElem? hdone)⟩
  have hreached : FailOpenInvariant (run past) :=
    failOpenMachine_keeps.run_all failOpenStart_invariant past
  have hlocked := hreached.step (.run c input)
  obtain ⟨hn, hthreads⟩ := closedFor_of_locked hreached hstart hfree hcalm input
  have hsplit : run moves =
      later.foldl failOpenMachine.step (failOpenMachine.step (run past) (.run c input)) := by
    simp only [run, moves, List.foldl_append, List.foldl_cons]
  simp only [run, List.foldl_append, List.foldl_cons, List.foldl_nil] at hquiet
  have hend := (failOpenMachine_keeps_closed c).run hquiet
    ⟨⟨hlocked.shared, hn⟩, fun i thread hthread => ⟨hlocked.threads i thread hthread,
      hthreads i thread hthread⟩⟩
  change (run moves).threads[c]? = _ at hdone
  rw [hsplit] at hdone ⊢
  obtain ⟨⟨-, hknows⟩, hclosed⟩ := hend.threads c _ hdone
  refine (hend.shared.1.2.all_closed_iff hknows).mpr ?_
  rcases hclosed.closes rfl with hclosing | ⟨-, hdirect⟩
  · cases hclosing
  · exact hdirect

/-- A send is under way when a close takes the lock, and is not told an error after it. -/
theorem failOpen_closed_send :
    let past : List (Move SessionCall Input) := [.call .send, .run 0 {}, .call .close]
    let later : List (Move SessionCall Input) := [.run 1 {}, .run 0 {}]
    ∀ shut ∈ ((past ++ .run 1 {} :: later).foldl failOpenMachine.step failOpenStart).shared.held,
      shut = true := by
  intro past later
  refine (failOpen_closed past later 1 {} (by decide) (by decide) (by decide)).1 (by decide) ?_
  refine ⟨?_, ?_, trivial⟩ <;> rintro thread - - ⟨session, -, hfailed⟩ <;>
    exact absurd hfailed (by decide)

/-- A send has read the session when a close runs to its end. It is told an error,
and opens a direct session that is still open when both calls are over. -/
theorem close_leaks_direct_session :
    let moves : List (Move SessionCall Input) :=
      [.call .send, .run 0 {}, .call .close, .run 1 {}, .run 1 {}, .run 0 { ok := false },
        .run 0 {}, .run 0 {}, .run 0 {}, .run 0 {}]
    let run := moves.foldl failOpenMachine.step failOpenStart
    run.threads = [.send (.done .failed), .close .done] ∧ run.shared.held = [true, false] := by
  decide

end Hy2Route.Transport
