import Hy2Route.Transport.PacketRelay

/-!
# Closing a session and the health of the relay

When the primary always opens and its sessions only fail after their own close,
the relay is never marked as failed by a receive, which looks at the closed flag
first. A send does not look at it before it reports the failure. If no send is
told an error by a session that was closed under it, the relay stays healthy.
-/

namespace Hy2Route.Transport

open Foundation

/-- The primary session below the given one was closed. -/
def PacketRelay.primaryClosed (relay : PacketRelay) (k : Nat) : Prop :=
  (relay.sessions[k]?).bind (·.held[0]?) = some true

instance (relay : PacketRelay) (k : Nat) : Decidable (relay.primaryClosed k) :=
  inferInstanceAs (Decidable (_ = _))

/-- The primary opens, and its sessions fail only after they were closed. -/
def PrimaryWorks (relay : PacketRelay) (_ : Nat) (thread : RelayThread) (input : Input) : Prop :=
  match thread with
  | .openPacket .dialing => input.ok = true
  | .onSession k (.send (.sending 0 _)) => input.ok = false → relay.primaryClosed k
  | .onSession k (.receive (.receiving 0)) => input.ok = false → relay.primaryClosed k
  | _ => True

instance (relay : PacketRelay) (i : Nat) (thread : RelayThread) (input : Input) :
    Decidable (PrimaryWorks relay i thread input) := by
  unfold PrimaryWorks
  split <;> infer_instance

/-- A send on a primary session that was closed under it is told no error. -/
def SendsUndisturbed (relay : PacketRelay) (_ : Nat) (thread : RelayThread) (input : Input) :
    Prop :=
  match thread with
  | .onSession k (.send (.sending 0 _)) => relay.primaryClosed k → input.ok = true
  | _ => True

instance (relay : PacketRelay) (i : Nat) (thread : RelayThread) (input : Input) :
    Decidable (SendsUndisturbed relay i thread input) := by
  unfold SendsUndisturbed
  split <;> infer_instance

/-! ## The invariant -/

/-- A session that never left its primary, which is closed only after the session. -/
structure OnPrimary (s : FallbackSession) : Prop where
  session : s.session = 0
  backup : s.backup = false
  held : s.held = [false] ∨ s.held = [true] ∧ s.closed = true

/-- A call that has reported no failure and is not about to; a receive that was told
an error, and a close at work, have seen the closed flag set. -/
inductive Quiet (closed : Bool) : SessionThread → Prop where
  | sendStart : Quiet closed (.send .start)
  | sending : Quiet closed (.send (.sending 0 false))
  | sendDone (result : SendResult) : Quiet closed (.send (.done result))
  | receiveStart : Quiet closed (.receive .start)
  | receiving : Quiet closed (.receive (.receiving 0))
  | checking (h : closed = true) : Quiet closed (.receive (.checking 0))
  | receiveDone (result : ReceiveResult) : Quiet closed (.receive (.done result))
  | closeStart : Quiet closed (.close .start)
  | closing (h : closed = true) : Quiet closed (.close .closing)
  | closeDone : Quiet closed (.close .done)

theorem Quiet.mono {closed closed' : Bool} (h : closed = true → closed' = true)
    {thread : SessionThread} (hquiet : Quiet closed thread) : Quiet closed' thread := by
  cases hquiet with
  | checking hclosed => exact .checking (h hclosed)
  | closing hclosed => exact .closing (h hclosed)
  | _ => constructor

/-- A step of a quiet call keeps its session on the primary and its owner as it was. -/
theorem Quiet.step {i : Nat} {s s' : FallbackSession} {input : Input}
    {thread thread' : SessionThread} {effect : Effect} (hquiet : Quiet s.closed thread)
    (hs : OnPrimary s) (hsend : thread = .send (.sending 0 false) → input.ok = true)
    (hreceive : thread = .receive (.receiving 0) → input.ok = false → s.held[0]? = some true)
    (h : SessionStep i s input thread s' effect thread') :
    OnPrimary s' ∧ Quiet s'.closed thread' ∧ effect = .none ∧
      (s.closed = true → s'.closed = true) := by
  obtain ⟨hsession, hbackup, hheld⟩ := hs
  cases hquiet with
  | sendStart =>
      cases h with
      | sendClosed => exact ⟨⟨hsession, hbackup, hheld⟩, .sendDone _, rfl, id⟩
      | sendStart =>
          rw [hsession, hbackup]
          exact ⟨⟨hsession, hbackup, hheld⟩, .sending, rfl, id⟩
  | sending =>
      cases h with
      | sent => exact ⟨⟨hsession, hbackup, hheld⟩, .sendDone _, rfl, id⟩
      | sendFailing _ failed => exact absurd (hsend rfl) (by simp [failed])
  | sendDone result => cases h
  | receiveStart =>
      cases h with
      | receiveClosed => exact ⟨⟨hsession, hbackup, hheld⟩, .receiveDone _, rfl, id⟩
      | receiveStart =>
          rw [hsession]
          exact ⟨⟨hsession, hbackup, hheld⟩, .receiving, rfl, id⟩
  | receiving =>
      cases h with
      | received => exact ⟨⟨hsession, hbackup, hheld⟩, .receiveDone _, rfl, id⟩
      | receiveFailed _ failed =>
          -- The primary was closed, and the session's own close came first.
          have hclosed : s.closed = true := by
            rcases hheld with hopen | ⟨-, hclosed⟩
            · exact absurd (hreceive rfl failed) (by simp [hopen])
            · exact hclosed
          exact ⟨⟨hsession, hbackup, hheld⟩, .checking hclosed, rfl, id⟩
  | checking hclosed =>
      cases h with
      | changed _ _ unclosed => exact absurd hclosed (by simp [unclosed])
      | receiveFailing _ _ unclosed => exact absurd hclosed (by simp [unclosed])
      | receiveError => exact ⟨⟨hsession, hbackup, hheld⟩, .receiveDone _, rfl, id⟩
  | receiveDone result => cases h
  | closeStart =>
      cases h with
      | closeAgain => exact ⟨⟨hsession, hbackup, hheld⟩, .closeDone, rfl, id⟩
      | closeStart =>
          refine ⟨⟨hsession, hbackup, ?_⟩, .closing rfl, rfl, fun _ => rfl⟩
          exact hheld.imp_right fun hclosed => ⟨hclosed.1, rfl⟩
  | closing hclosed =>
      cases h
      refine ⟨⟨hsession, hbackup, Or.inr ⟨?_, hclosed⟩⟩, .closeDone, rfl, id⟩
      rcases hheld with hopen | ⟨hshut, -⟩
      · simp [hopen, hsession]
      · simp [hshut, hsession]
  | closeDone => cases h

/-- The session was opened and is closed. -/
def PacketRelay.closedAt (relay : PacketRelay) (k : Nat) : Bool :=
  (relay.sessions[k]?).any (·.closed)

/-- The relay was not marked as failed, its backup was not dialed, and every session
is on its primary. -/
structure Healthy (relay : PacketRelay) : Prop where
  retryAt : relay.retryAt = none
  backupDials : relay.backupDials = 0
  sessions : ∀ s ∈ relay.sessions, OnPrimary s

/-- A call that needs the primary alone. -/
inductive Undisturbed (relay : PacketRelay) : RelayThread → Prop where
  | start : Undisturbed relay (.openPacket .start)
  | dialing : Undisturbed relay (.openPacket .dialing)
  | adopting : Undisturbed relay (.openPacket .adopting)
  | done (result : OpenResult) : Undisturbed relay (.openPacket (.done result))
  | onSession (k : Nat) (thread : SessionThread) (quiet : Quiet (relay.closedAt k) thread) :
      Undisturbed relay (.onSession k thread)

theorem Undisturbed.mono {relay relay' : PacketRelay}
    (h : ∀ k, relay.closedAt k = true → relay'.closedAt k = true) {thread : RelayThread}
    (hthread : Undisturbed relay thread) : Undisturbed relay' thread := by
  cases hthread with
  | onSession k thread quiet => exact .onSession k thread (quiet.mono (h k))
  | _ => constructor

theorem closedAt_eq_true_iff {relay : PacketRelay} {k : Nat} :
    relay.closedAt k = true ↔ ∃ s, relay.sessions[k]? = some s ∧ s.closed = true := by
  simp [PacketRelay.closedAt, Option.any_eq_true]

/-- No step opens a closed session again. -/
theorem closedAt_exec {relay relay' : PacketRelay} {i : Nat} {thread thread' : RelayThread}
    {input : Input} (h : relay.exec i thread input = some (relay', thread')) (k : Nat)
    (hclosed : relay.closedAt k = true) : relay'.closedAt k = true := by
  obtain ⟨s, hs, hsclosed⟩ := closedAt_eq_true_iff.mp hclosed
  have hk : k < relay.sessions.length := (List.getElem?_eq_some_iff.mp hs).1
  apply closedAt_eq_true_iff.mpr
  cases thread with
  | openPacket point =>
      obtain ⟨next, hstep, -⟩ := PacketRelay.exec_openPacket h
      rcases PacketRelay.sessions_openPacket hstep with hsame | hadded
      · exact ⟨s, by rw [hsame, hs], hsclosed⟩
      · exact ⟨s, by rw [hadded, List.getElem?_append_left hk, hs], hsclosed⟩
  | onSession k' thread =>
      obtain ⟨s₁, s₂, effect, next, hs₁, hstep, rfl, -⟩ := PacketRelay.exec_onSession h
      by_cases hkk : k' = k
      · subst hkk
        cases hs.symm.trans hs₁
        exact ⟨s₂, List.getElem?_set_self hk, hstep.closed_mono hsclosed⟩
      · exact ⟨s, by rw [List.getElem?_set_ne hkk, hs], hsclosed⟩

section Step

variable {relay relay' : PacketRelay} {i : Nat} {input : Input}

theorem Healthy.openPacket (h : Healthy relay) {point : OpenPoint} {thread' : RelayThread}
    (hthread : Undisturbed relay (.openPacket point))
    (hworks : PrimaryWorks relay i (.openPacket point) input)
    (hexec : relay.exec i (.openPacket point) input = some (relay', thread')) :
    Healthy relay' ∧ Undisturbed relay' thread' := by
  obtain ⟨next, hstep, rfl⟩ := PacketRelay.exec_openPacket hexec
  cases hthread with
  | start =>
      simp only [PacketRelay.openPacket, reached, h.retryAt, if_true] at hstep
      cases hstep
      exact ⟨h, .dialing⟩
  | dialing =>
      simp only [PacketRelay.openPacket, show input.ok = true from hworks, if_true] at hstep
      cases hstep
      exact ⟨h, .adopting⟩
  | adopting =>
      cases hstep
      refine ⟨⟨rfl, h.backupDials, fun s hmem => ?_⟩, .done _⟩
      rcases List.mem_append.mp hmem with hold | hnew
      · exact h.sessions s hold
      · rw [List.mem_singleton.mp hnew]
        exact ⟨rfl, rfl, Or.inl rfl⟩
  | done result => cases hstep

theorem Healthy.onSession (h : Healthy relay) {k : Nat} {thread : SessionThread}
    {thread' : RelayThread} (hthread : Undisturbed relay (.onSession k thread))
    (hworks : PrimaryWorks relay i (.onSession k thread) input)
    (hsends : SendsUndisturbed relay i (.onSession k thread) input)
    (hexec : relay.exec i (.onSession k thread) input = some (relay', thread')) :
    Healthy relay' ∧ Undisturbed relay' thread' := by
  obtain ⟨s, s', effect, next, hs, hstep, rfl, rfl⟩ := PacketRelay.exec_onSession hexec
  have hk : k < relay.sessions.length := (List.getElem?_eq_some_iff.mp hs).1
  have hclosed : relay.closedAt k = s.closed := by simp [PacketRelay.closedAt, hs]
  have hprimary : relay.primaryClosed k ↔ s.held[0]? = some true := by
    simp [PacketRelay.primaryClosed, hs]
  cases hthread with
  | onSession _ _ quiet =>
      rw [hclosed] at quiet
      have hsend : thread = .send (.sending 0 false) → input.ok = true := by
        rintro rfl
        by_contra hfailed
        exact hfailed (hsends (hworks (Bool.not_eq_true _ ▸ hfailed)))
      have hreceive : thread = .receive (.receiving 0) → input.ok = false →
          s.held[0]? = some true := by
        rintro rfl hfailed
        exact hprimary.mp (hworks hfailed)
      obtain ⟨hon, hquiet, rfl, -⟩ :=
        quiet.step (h.sessions s (List.mem_of_getElem? hs)) hsend hreceive hstep
      refine ⟨⟨h.retryAt, h.backupDials, fun other hmem => ?_⟩, .onSession k next ?_⟩
      · rcases List.mem_or_eq_of_mem_set hmem with hold | rfl
        · exact h.sessions other hold
        · exact hon
      · simpa [PacketRelay.closedAt, List.getElem?_set_self hk] using hquiet

end Step

theorem relayMachine_keeps_healthy :
    relayMachine.Keeps
      (fun relay i thread input =>
        PrimaryWorks relay i thread input ∧ SendsUndisturbed relay i thread input)
      (fun relay _ => Healthy relay) (fun relay _ thread => Undisturbed relay thread) where
  start := by
    rintro relay n (_ | ⟨k, call⟩) h
    · exact ⟨h, .start⟩
    · refine ⟨h, .onSession k _ ?_⟩
      cases call <;> constructor
  exec := by
    intro relay n i thread input relay' thread' calls hhealthy _ hthread hok h
    obtain ⟨⟨relay₁, thread₁⟩, hexec, heq⟩ := Option.map_eq_some_iff.mp h
    cases heq
    cases thread with
    | openPacket point => exact hhealthy.openPacket hthread hok.1 hexec
    | onSession k thread => exact hhealthy.onSession hthread hok.1 hok.2 hexec
  other := by
    intro relay n i thread input relay' thread' calls j other _ _ _ _ h _ hother
    obtain ⟨⟨relay₁, thread₁⟩, hexec, heq⟩ := Option.map_eq_some_iff.mp h
    cases heq
    exact hother.mono (closedAt_exec hexec)

/-- A relay without sessions and calls. -/
def relayStart (cooldown : Int) : Threads PacketRelay RelayThread := ⟨newPacketRelay cooldown, []⟩

/-- In every run in which the primary opens, its sessions fail only after their own
close, and no send is told an error by a session that was closed under it, the
relay is not marked as failed and its backup is not dialed. -/
theorem closing_keeps_relay_healthy (cooldown : Int) (moves : List (Move RelayCall Input))
    (hworks : Allowed relayMachine.step (Machine.Meets PrimaryWorks) (relayStart cooldown) moves)
    (hsends : Allowed relayMachine.step (Machine.Meets SendsUndisturbed) (relayStart cooldown)
      moves) :
    let relay := (moves.foldl relayMachine.step (relayStart cooldown)).shared
    relay.retryAt = none ∧ relay.backupDials = 0 := by
  intro relay
  have hstart : Healthy (newPacketRelay cooldown) := ⟨rfl, rfl, by simp [newPacketRelay]⟩
  have hinv := relayMachine_keeps_healthy.run (Machine.allowed_meets_and hworks hsends)
    ⟨hstart, by simp [relayStart]⟩
  exact ⟨hinv.shared.retryAt, hinv.shared.backupDials⟩

/-- A session is opened, then a call on it and a close are started; the call has
read the session when the close runs to its end. -/
def closeAfterStart (call : SessionCall) : List (Move RelayCall Input) :=
  [.call .openPacket, .run 0 {}, .run 0 {}, .run 0 {}, .call (.onSession 0 call), .run 1 {},
    .call (.onSession 0 .close), .run 2 {}, .run 2 {}]

/-- A receive is told an error by the closed primary and returns it. -/
theorem closing_keeps_relay_healthy_receive :
    let moves : List (Move RelayCall Input) :=
      closeAfterStart .receive ++ [.run 1 { ok := false }, .run 1 {}]
    let run := moves.foldl relayMachine.step (relayStart 30)
    (run.shared.retryAt = none ∧ run.shared.backupDials = 0) ∧
      run.threads[1]? = some (.onSession 0 (.receive (.done (.failed 0)))) :=
  ⟨closing_keeps_relay_healthy 30 _ (by decide) (by decide), by decide⟩

/-- A send is told an error by the closed primary and marks the relay as failed, so
that the next session is opened on the backup. -/
theorem closing_fails_relay_by_send :
    let moves : List (Move RelayCall Input) := closeAfterStart .send ++
      [.run 1 { ok := false }, .run 1 { now := 100 }, .call .openPacket, .run 3 { now := 101 },
        .run 3 {}, .run 3 {}]
    let run := moves.foldl relayMachine.step (relayStart 30)
    Allowed relayMachine.step (Machine.Meets PrimaryWorks) (relayStart 30) moves ∧
      run.shared.retryAt = some 130 ∧ run.shared.backupDials = 1 ∧
      run.threads[3]? = some (.openPacket (.done .openedBackup)) := by
  decide

end Hy2Route.Transport
