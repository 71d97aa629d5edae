import Hy2Route.Transport.PacketRelay

/-!
# Switching a session to the backup

The calls on one session, in any interleaving. The switch and the close work under
the session's lock: while a call holds it, the other calls can only use underlying
sessions that they read before. So the backup is opened once, whatever was held is
closed in the end, and a call that begins or looks again after the switch finds the
backup.
-/

namespace Hy2Route.Transport

open Foundation

def sessionMachine : Machine FallbackSession SessionThread SessionCall Input where
  start := SessionCall.start
  exec s i thread input :=
    (s.exec i input thread).map fun (s, _, thread) => (s, thread, [])

/-- A session as it is opened, without calls. -/
def sessionStart : Threads FallbackSession SessionThread := ⟨.opened, []⟩

theorem sessionMachine_exec {s s' : FallbackSession} {i : Nat} {thread thread' : SessionThread}
    {input : Input} {calls : List SessionCall}
    (h : sessionMachine.exec s i thread input = some (s', thread', calls)) :
    ∃ effect, SessionStep i s input thread s' effect thread' := by
  obtain ⟨⟨s₁, effect, thread₁⟩, hexec, heq⟩ := Option.map_eq_some_iff.mp h
  cases heq
  exact ⟨effect, FallbackSession.exec_spec hexec⟩

/-! ## The lock -/

/-- The points at which a call holds the lock. -/
def SessionThread.holds : SessionThread → Prop
  | .send (.opening _) | .send (.closing _) | .send .marking | .send .resending => True
  | .close .closing => True
  | _ => False

section Lock

variable {i : Nat} {s s' : FallbackSession} {input : Input} {thread thread' : SessionThread}
  {effect : Effect}

/-- A step takes the lock for its own call, keeps it, or gives it back. -/
theorem SessionStep.lock (h : SessionStep i s input thread s' effect thread')
    (hholds : thread.holds ↔ s.lock = some i) :
    (thread'.holds ↔ s'.lock = some i) ∧ ∀ j, j ≠ i → (s'.lock = some j ↔ s.lock = some j) := by
  cases h with
  | joined _ free | replacing _ free | closeStart free =>
      exact ⟨by simp [SessionThread.holds], Machine.lock_taken free⟩
  | unopened | resent | closed =>
      exact ⟨by simp [SessionThread.holds], Machine.lock_released (hholds.mp trivial)⟩
  | _ => exact ⟨hholds, fun _ _ => Iff.rfl⟩

/-- While another call holds the lock, a step only gives away a datagram. -/
theorem SessionStep.of_locked (h : SessionStep i s input thread s' effect thread')
    (hthread : ¬ thread.holds) (hlock : s.lock ≠ none) :
    s' = { s with sent := s'.sent } := by
  cases h with
  | sendClosed free | sendStart free | lockClosed _ free | joined _ free | replacing _ free
  | receiveClosed free | receiveStart free | changed _ free | receiveFailing _ free
  | receiveError _ free | closeAgain free | closeStart free => exact absurd free hlock
  | published | unopened | replaced | marked | resent | closed => exact absurd trivial hthread
  | _ => rfl

end Lock

theorem sessionMachine_guards : sessionMachine.Guards FallbackSession.lock SessionThread.holds where
  start := by
    intro call
    cases call <;> exact id
  exec := by
    intro s i thread input s' thread' calls h hholds
    obtain ⟨effect, hstep⟩ := sessionMachine_exec h
    exact hstep.lock hholds

/-! ## What is held -/

/-- The current session is the primary before the switch and the backup after it.
When the lock is free the replaced session is closed, and the current one is
closed if the session is. -/
structure Switched (s : FallbackSession) : Prop where
  current : s.session = s.backup.toNat
  held : s.held.length = s.backup.toNat + 1
  replaced : s.lock = none → s.backup = true → s.held[0]? = some true
  shut : s.lock = none → s.closed = true → s.held[s.session]? = some true

/-- What a call knows. The points of a send before the switch remember the primary,
and the points that hold the lock what is left to do. -/
def Knows (s : FallbackSession) : SessionThread → Prop
  | .send (.sending packet backup) => backup = false → packet = 0
  | .send (.failing packet) | .send (.locking packet) => packet = 0
  | .send (.opening packet) => packet = 0 ∧ s.backup = false ∧ s.closed = false
  | .send (.closing packet) => packet = 0 ∧ s.backup = true ∧ s.closed = false
  | .send .marking | .send .resending =>
      s.backup = true ∧ s.closed = false ∧ s.held[0]? = some true
  | .close .closing => s.closed = true ∧ (s.backup = true → s.held[0]? = some true)
  | .close .done => s.closed = true
  | _ => True

section Knows

variable {i : Nat} {s s' : FallbackSession} {input : Input} {thread thread' : SessionThread}
  {effect : Effect}

theorem Switched.step (hs : Switched s) (hholds : thread.holds → s.lock ≠ none)
    (hknows : Knows s thread) (h : SessionStep i s input thread s' effect thread') :
    Switched s' ∧ Knows s' thread' := by
  obtain ⟨hcurrent, hheld, hreplaced, hshut⟩ := hs
  cases h with
  | sendStart =>
      refine ⟨⟨hcurrent, hheld, hreplaced, hshut⟩, fun hprimary => ?_⟩
      rw [hcurrent, hprimary]
      rfl
  | sent | sendFailed => exact ⟨⟨hcurrent, hheld, hreplaced, hshut⟩, trivial⟩
  | sendFailing => exact ⟨⟨hcurrent, hheld, hreplaced, hshut⟩, hknows rfl⟩
  | reported => exact ⟨⟨hcurrent, hheld, hreplaced, hshut⟩, hknows⟩
  | joined _ free unclosed backup =>
      exact ⟨⟨hcurrent, hheld, nofun, nofun⟩, backup, unclosed, hreplaced free backup⟩
  | replacing _ free unclosed primary =>
      exact ⟨⟨hcurrent, hheld, nofun, nofun⟩, hknows, primary, unclosed⟩
  | published =>
      obtain ⟨hpacket, hprimary, hunclosed⟩ := hknows
      have hlock : s.lock ≠ none := hholds trivial
      have hone : s.held.length = 1 := by simpa [hprimary] using hheld
      exact ⟨⟨hone, by simp [hone], fun free => absurd free hlock, fun free => absurd free hlock⟩,
        hpacket, rfl, hunclosed⟩
  | unopened =>
      obtain ⟨-, hprimary, hunclosed⟩ := hknows
      refine ⟨⟨hcurrent, hheld, fun _ hbackup => ?_, fun _ hclosed => ?_⟩, trivial⟩
      · exact absurd hbackup (by simp [hprimary])
      · exact absurd hclosed (by simp [hunclosed])
  | replaced =>
      obtain ⟨rfl, hbackup, hunclosed⟩ := hknows
      have hlock : s.lock ≠ none := hholds trivial
      exact ⟨⟨hcurrent, by simpa using hheld, fun free => absurd free hlock,
        fun free => absurd free hlock⟩, hbackup, hunclosed,
        List.getElem?_set_self (by simp [hheld])⟩
  | marked => exact ⟨⟨hcurrent, hheld, hreplaced, hshut⟩, hknows⟩
  | resent =>
      obtain ⟨-, hunclosed, hclosed⟩ := hknows
      refine ⟨⟨hcurrent, hheld, fun _ _ => hclosed, fun _ hs => ?_⟩, trivial⟩
      exact absurd hs (by simp [hunclosed])
  | closeAgain _ closed => exact ⟨⟨hcurrent, hheld, hreplaced, hshut⟩, closed⟩
  | closeStart free => exact ⟨⟨hcurrent, hheld, nofun, nofun⟩, rfl, hreplaced free⟩
  | closed =>
      obtain ⟨hclosed, hprimary⟩ := hknows
      refine ⟨⟨hcurrent, by simpa using hheld, fun _ hbackup => ?_, fun _ _ => ?_⟩, hclosed⟩
      · have hone : s.session = 1 := by simpa [show s.backup = true from hbackup] using hcurrent
        rw [List.getElem?_set_ne (by simp [hone]), hprimary hbackup]
      · exact List.getElem?_set_self (by simp [hcurrent, hheld])
  | _ => exact ⟨⟨hcurrent, hheld, hreplaced, hshut⟩, trivial⟩

/-- What a call knows is not disturbed by the others: what is left to do under the
lock cannot change, and a closed session stays closed. -/
theorem Knows.other {other : SessionThread} (hother : Knows s other)
    (hlocked : other.holds → s.lock ≠ none ∧ ¬ thread.holds)
    (h : SessionStep i s input thread s' effect thread') : Knows s' other := by
  have hframe (hholds : other.holds) : s' = { s with sent := s'.sent } :=
    h.of_locked (hlocked hholds).2 (hlocked hholds).1
  cases other with
  | send point =>
      cases point with
      | opening | closing | marking | resending =>
          rw [hframe trivial]
          exact hother
      | _ => exact hother
  | receive point => trivial
  | close point =>
      cases point with
      | start => trivial
      | closing =>
          rw [hframe trivial]
          exact hother
      | done => exact h.closed_mono hother

theorem Switched.all_closed (hs : Switched s) (hfree : s.lock = none) (hclosed : s.closed = true) :
    ∀ shut ∈ s.held, shut = true := by
  intro shut hmem
  obtain ⟨k, hk, hget⟩ := List.getElem_of_mem hmem
  have hcurrent := hs.shut hfree hclosed
  have hsession := hs.current
  have hlength := hs.held
  have hk? : s.held[k]? = some shut := hget ▸ List.getElem?_eq_getElem hk
  cases hbackup : s.backup with
  | false =>
      simp only [hbackup, Bool.toNat_false] at hsession hlength
      obtain rfl : k = s.session := by omega
      exact Option.some.inj (hk?.symm.trans hcurrent)
  | true =>
      simp only [hbackup, Bool.toNat_true] at hsession hlength
      rcases Nat.eq_zero_or_pos k with rfl | hpos
      · exact Option.some.inj (hk?.symm.trans (hs.replaced hfree hbackup))
      · obtain rfl : k = s.session := by omega
        exact Option.some.inj (hk?.symm.trans hcurrent)

end Knows

theorem sessionMachine_keeps_switched :
    sessionMachine.Keeps (fun _ _ _ _ => True)
      (fun s n => (∀ i, s.lock = some i → i < n) ∧ Switched s)
      (fun s i thread => (thread.holds ↔ s.lock = some i) ∧ Knows s thread) := by
  refine sessionMachine_guards.extend ?_ ?_ ?_
  · intro s n call hs
    cases call <;> exact ⟨hs, trivial⟩
  · intro s n i thread input s' thread' calls hs hholds hknows _ h
    obtain ⟨effect, hstep⟩ := sessionMachine_exec h
    exact hs.step hholds hknows hstep
  · intro s i thread input s' thread' calls j other hlocked h hother
    obtain ⟨effect, hstep⟩ := sessionMachine_exec h
    exact hother.other hlocked hstep

/-! ## After the switch -/

section After

variable {i : Nat} {s s' : FallbackSession} {input : Input} {thread thread' : SessionThread}
  {effect : Effect}

theorem SessionStep.backup_mono (h : SessionStep i s input thread s' effect thread')
    (hbackup : s.backup = true) : s'.backup = true := by
  cases h with
  | published => rfl
  | _ => exact hbackup

/-- A step gives away at most one datagram, to the session that the call has read or
to the current one. -/
theorem SessionStep.mem_sent (h : SessionStep i s input thread s' effect thread')
    {datagram : Nat × Nat} (hmem : datagram ∈ s'.sent) :
    datagram ∈ s.sent ∨ datagram.1 = i ∧
      ((∃ backup, thread = .send (.sending datagram.2 backup)) ∨ datagram.2 = s.session) := by
  cases h with
  | sent packet backup =>
      refine (List.mem_append.mp hmem).imp_right fun hnew => ?_
      rw [List.mem_singleton.mp hnew]
      exact ⟨rfl, Or.inl ⟨backup, rfl⟩⟩
  | sendFailed packet | sendFailing packet =>
      refine (List.mem_append.mp hmem).imp_right fun hnew => ?_
      rw [List.mem_singleton.mp hnew]
      exact ⟨rfl, Or.inl ⟨_, rfl⟩⟩
  | resent =>
      refine (List.mem_append.mp hmem).imp_right fun hnew => ?_
      rw [List.mem_singleton.mp hnew]
      exact ⟨rfl, Or.inr rfl⟩
  | _ => exact Or.inl hmem

/-- A send about to give away its datagram does not give it to the primary. -/
def SendsOnBackup : SessionThread → Prop
  | .send (.sending packet _) => packet ≠ 0
  | _ => True

theorem SendsOnBackup.step (hsession : s.session ≠ 0) (hthread : SendsOnBackup thread)
    (h : SessionStep i s input thread s' effect thread') :
    SendsOnBackup thread' ∧ ∀ datagram ∈ s'.sent, datagram ∈ s.sent ∨ datagram.2 ≠ 0 := by
  constructor
  · cases h with
    | sendStart => exact hsession
    | _ => trivial
  · intro datagram hmem
    refine (h.mem_sent hmem).imp_right ?_
    rintro ⟨-, ⟨backup, rfl⟩ | hcurrent⟩
    · exact hthread
    · exact hcurrent ▸ hsession

/-- A receive that returns the primary's error returns it from a closed session. -/
def Continues (s : FallbackSession) : SessionThread → Prop
  | .receive (.failing _) => False
  | .receive (.done (.failed packet)) => packet = 0 → s.closed = true
  | _ => True

theorem Continues.step (hsession : s.session ≠ 0) (hbackup : s.backup = true)
    (hthread : Continues s thread) (h : SessionStep i s input thread s' effect thread') :
    Continues s' thread' := by
  cases h with
  | receiveFailing _ _ _ _ primary => exact absurd hbackup (by simp [primary])
  | receiveError packet _ final =>
      rintro rfl
      exact final.resolve_right fun hsame => hsession hsame.1
  | receiveReported => exact hthread.elim
  | _ => trivial

theorem Continues.other {other : SessionThread} (hother : Continues s other)
    (h : SessionStep i s input thread s' effect thread') : Continues s' other := by
  cases other with
  | receive point =>
      cases point with
      | done result =>
          cases result with
          | failed packet => exact fun hpacket => h.closed_mono (hother hpacket)
          | _ => trivial
      | failing => exact hother
      | _ => trivial
  | _ => trivial

end After

theorem Switched.session_ne_zero {s : FallbackSession} (hs : Switched s)
    (hbackup : s.backup = true) : s.session ≠ 0 := by
  simp [hs.current, hbackup]

/-- The datagrams were given away by calls. -/
theorem sessionMachine_keeps_sent :
    sessionMachine.Keeps (fun _ _ _ _ => True)
      (fun s n => ∀ datagram ∈ s.sent, datagram.1 < n) (fun _ _ _ => True) where
  start := fun _ hs => ⟨fun datagram hmem => Nat.lt_succ_of_lt (hs datagram hmem), trivial⟩
  exec := by
    intro s n i thread input s' thread' calls hs hi _ _ h
    obtain ⟨effect, hstep⟩ := sessionMachine_exec h
    refine ⟨fun datagram hmem => ?_, trivial⟩
    rcases hstep.mem_sent hmem with hold | ⟨hnew, -⟩
    · exact hs datagram hold
    · exact hnew ▸ hi
  other := fun _ _ _ _ _ _ _ => trivial

/-- From the switch on, the calls numbered from `n` on send on the backup only, and
the receive `r` does not return the primary's error. -/
theorem sessionMachine_keeps_backup (n r : Nat) :
    sessionMachine.Keeps (fun _ _ _ _ => True)
      (fun s m => ((∀ i, s.lock = some i → i < m) ∧ Switched s) ∧
        s.backup = true ∧ ∀ datagram ∈ s.sent, n ≤ datagram.1 → datagram.2 ≠ 0)
      (fun s i thread => ((thread.holds ↔ s.lock = some i) ∧ Knows s thread) ∧
        (n ≤ i → SendsOnBackup thread) ∧ (i = r → Continues s thread)) := by
  refine sessionMachine_keeps_switched.extend ?_ ?_ ?_
  · intro s m call _ hs
    refine ⟨hs, fun _ => ?_, fun _ => ?_⟩ <;> cases call <;> trivial
  · rintro s m i thread input s' thread' calls ⟨⟨-, hs⟩, hbackup, hsent⟩ _
      ⟨-, hsends, hcontinues⟩ _ h
    obtain ⟨effect, hstep⟩ := sessionMachine_exec h
    have hsession := hs.session_ne_zero hbackup
    refine ⟨⟨hstep.backup_mono hbackup, fun datagram hmem hn => ?_⟩, fun hn => ?_, fun hr => ?_⟩
    · rcases hstep.mem_sent hmem with hold | ⟨rfl, -⟩
      · exact hsent datagram hold hn
      · exact (((hsends hn).step hsession hstep).2 datagram hmem).elim
          (fun hold => hsent datagram hold hn) id
    · exact ((hsends hn).step hsession hstep).1
    · exact (hcontinues hr).step hsession hbackup hstep
  · intro s m i thread input s' thread' calls j other _ _ _ _ h _ hother
    obtain ⟨effect, hstep⟩ := sessionMachine_exec h
    exact ⟨hother.2.1, fun hr => (hother.2.2 hr).other hstep⟩

/-! ## The lock is given back -/

/-- A send that has published the backup, by the number of steps that are left. -/
inductive Releasing : Nat → SessionThread → Prop where
  | closing (packet : Nat) : Releasing 3 (.send (.closing packet))
  | marking : Releasing 2 (.send .marking)
  | resending : Releasing 1 (.send .resending)
  | done (result : SendResult) : Releasing 0 (.send (.done result))

theorem Knows.releasing {s : FallbackSession} {thread : SessionThread} (hknows : Knows s thread)
    (hholds : thread.holds) (hbackup : s.backup = true) (hunclosed : s.closed = false) :
    ∃ left < 3, Releasing (left + 1) thread := by
  cases thread with
  | send point =>
      cases point with
      | opening => exact absurd hbackup (by simp [hknows.2.1])
      | closing packet => exact ⟨2, by decide, .closing packet⟩
      | marking => exact ⟨1, by decide, .marking⟩
      | resending => exact ⟨0, by decide, .resending⟩
      | _ => exact hholds.elim
  | receive point => exact hholds.elim
  | close point =>
      cases point with
      | closing => exact absurd hknows.1 (by simp [hunclosed])
      | _ => exact hholds.elim

/-- The holder of the lock is on its way to give it back, and nothing else changes. -/
structure OnlyReleases (state : Threads FallbackSession SessionThread) (k left : Nat)
    (next : Threads FallbackSession SessionThread) : Prop where
  closed : next.shared.closed = state.shared.closed
  backup : next.shared.backup = state.shared.backup
  others : ∀ j, j ≠ k → next.threads[j]? = state.threads[j]?
  holder : ∃ thread, next.threads[k]? = some thread ∧ Releasing left thread
  lock : left = 0 → next.shared.lock = none

theorem OnlyReleases.step {state next : Threads FallbackSession SessionThread} {k left : Nat}
    (h : OnlyReleases state k (left + 1) next) (input : Input) :
    OnlyReleases state k left (sessionMachine.step next (.run k input)) := by
  obtain ⟨hclosed, hbackup, hothers, ⟨thread, hthread, hreleasing⟩, -⟩ := h
  have hstep {s : FallbackSession} {thread' : SessionThread}
      (hexec : sessionMachine.exec next.shared k thread input = some (s, thread', []))
      (hflags : s.closed = next.shared.closed ∧ s.backup = next.shared.backup)
      (hthread' : Releasing left thread') (hlock : left = 0 → s.lock = none) :
      OnlyReleases state k left (sessionMachine.step next (.run k input)) := by
    obtain ⟨hown, hrest⟩ := Machine.threads_step_run hthread hexec
    have hshared : (sessionMachine.step next (.run k input)).shared = s := by
      rw [Machine.step_run hthread hexec]
    exact ⟨hshared ▸ hflags.1.trans hclosed, hshared ▸ hflags.2.trans hbackup,
      fun j hj => (hrest j hj).trans (hothers j hj), ⟨thread', hown, hthread'⟩, hshared ▸ hlock⟩
  cases hreleasing with
  | closing packet => exact hstep rfl ⟨rfl, rfl⟩ .marking nofun
  | marking => exact hstep rfl ⟨rfl, rfl⟩ .resending nofun
  | resending => exact hstep rfl ⟨rfl, rfl⟩ (.done _) fun _ => rfl

/-- The steps that are left free the lock, whatever they are told, and leave the
flags and the other calls as they were. -/
theorem Releasing.run {left : Nat} {thread : SessionThread} (hthread : Releasing (left + 1) thread)
    {state : Threads FallbackSession SessionThread} {k : Nat}
    (hk : state.threads[k]? = some thread) {inputs : List Input}
    (hlen : left + 1 ≤ inputs.length) :
    OnlyReleases state k 0 ((inputs.map (Move.run k)).foldl sessionMachine.step state) := by
  refine Machine.progress (fun left next input _ h => OnlyReleases.step h input) ?_
    (⟨rfl, rfl, fun _ _ => rfl, ⟨thread, hk, hthread⟩, nofun⟩ :
      OnlyReleases state k (left + 1) state) hlen fun _ _ => trivial
  intro next input h
  obtain ⟨thread, hnext, hdone⟩ := h.holder
  cases hdone
  rw [Machine.step_blocked hnext rfl]
  exact h

/-- With the lock free, a receive that is told an error by the primary looks again
and goes on with the backup. -/
theorem receive_continues {state : Threads FallbackSession SessionThread} {i : Nat}
    (hs : Switched state.shared) (hbackup : state.shared.backup = true)
    (hunclosed : state.shared.closed = false) (hfree : state.shared.lock = none)
    (hi : state.threads[i]? = some (.receive (.receiving 0))) (input input' : Input) :
    let next := [.run i { ok := false }, .run i input, .run i input'].foldl
      sessionMachine.step state
    next.threads[i]? = some (.receive (.receiving 1)) := by
  have hsession : state.shared.session = 1 := by simp [hs.current, hbackup]
  have hlen : i < state.threads.length := (List.getElem?_eq_some_iff.mp hi).1
  have hset (threads : List SessionThread) (hlen : i < threads.length) (next : SessionThread) :
      (Threads.mk state.shared (threads.set i next)).threads[i]? = some next :=
    List.getElem?_set_self hlen
  have hfailed : sessionMachine.exec state.shared i (.receive (.receiving 0)) { ok := false } =
      some (state.shared, .receive (.checking 0), []) := rfl
  have hchanged : sessionMachine.exec state.shared i (.receive (.checking 0)) input =
      some (state.shared, .receive .start, []) := by
    simp [sessionMachine, FallbackSession.exec, FallbackSession.receive, hfree, hunclosed, hsession]
  have hstart : sessionMachine.exec state.shared i (.receive .start) input' =
      some (state.shared, .receive (.receiving 1), []) := by
    simp [sessionMachine, FallbackSession.exec, FallbackSession.receive, hfree, hunclosed, hsession]
  simp only [List.foldl_cons, List.foldl_nil]
  rw [Machine.step_run hi hfailed, Machine.step_run (hset _ hlen _) hchanged,
    Machine.step_run (hset _ (by simpa using hlen) _) hstart]
  exact hset _ (by simpa using hlen) _

/-! ## The calls on a session -/

def SessionThread.finished : SessionThread → Bool
  | .send (.done _) | .receive (.done _) | .close .done => true
  | _ => false

theorem SessionThread.not_holds_of_finished {thread : SessionThread}
    (h : thread.finished = true) : ¬ thread.holds := by
  unfold SessionThread.finished at h
  split at h
  · exact id
  · exact id
  · exact id
  · exact absurd h (by simp)

theorem switched_run (moves : List (Move SessionCall Input)) :
    Invariant (fun s n => (∀ i, s.lock = some i → i < n) ∧ Switched s)
      (fun s i thread => (thread.holds ↔ s.lock = some i) ∧ Knows s thread)
      (moves.foldl sessionMachine.step sessionStart) := by
  refine sessionMachine_keeps_switched.run_all ?_ moves
  exact ⟨⟨nofun, rfl, rfl, nofun, nofun⟩, nofun⟩

/-- When a close has returned and no call is pending, whatever was held is closed. -/
theorem held_closed_of_finished (moves : List (Move SessionCall Input)) :
    let run := moves.foldl sessionMachine.step sessionStart
    .close .done ∈ run.threads → (∀ thread ∈ run.threads, thread.finished = true) →
      ∀ shut ∈ run.shared.held, shut = true := by
  intro run hclose hfinished
  have hinv : Invariant _ _ run := switched_run moves
  have hfree : run.shared.lock = none := by
    by_contra hlock
    obtain ⟨k, hk⟩ := Option.ne_none_iff_exists'.mp hlock
    have hget := List.getElem?_eq_getElem (hinv.shared.1 k hk)
    refine SessionThread.not_holds_of_finished (hfinished _ (List.mem_of_getElem? hget)) ?_
    exact (hinv.threads k _ hget).1.mpr hk
  obtain ⟨k, hk⟩ := List.getElem?_of_mem hclose
  have hclosed : run.shared.closed = true := (hinv.threads k _ hk).2
  exact hinv.shared.2.all_closed hfree hclosed

/-- What holds after the switch, with a receive on the primary, in every run that
follows. -/
theorem backup_run (moves later : List (Move SessionCall Input)) (r : Nat) :
    let run := moves.foldl sessionMachine.step sessionStart
    let next := later.foldl sessionMachine.step run
    run.shared.backup = true →
    (∀ thread, run.threads[r]? = some thread → Continues run.shared thread) →
    (∀ datagram ∈ next.shared.sent, run.threads.length ≤ datagram.1 → datagram.2 ≠ 0) ∧
      ∀ thread, next.threads[r]? = some thread → Continues next.shared thread := by
  intro run next hbackup hreceive
  have hinv := switched_run moves
  have hsent := (sessionMachine_keeps_sent.run_all (s := sessionStart) ⟨nofun, nofun⟩ moves).shared
  have hnext := (sessionMachine_keeps_backup run.threads.length r).run_all (s := run)
    ⟨⟨hinv.shared, hbackup, fun datagram hmem hlen => ?_⟩, fun i thread hi => ?_⟩ later
  · exact ⟨hnext.shared.2.2, fun thread hthread => (hnext.threads r thread hthread).2.2 rfl⟩
  · exact absurd (hsent datagram hmem) (Nat.not_lt.mpr hlen)
  · refine ⟨hinv.threads i thread hi, fun hlen => ?_, ?_⟩
    · exact absurd (List.getElem?_eq_some_iff.mp hi).1 (Nat.not_lt.mpr hlen)
    · rintro rfl
      exact hreceive thread hi

/-- In every run of the calls on a session: at most one backup session is opened.
When a close has returned and no call is pending, whatever was held is closed.
After the switch, a send that starts later gives no datagram to the primary. A
receive that was at the primary never returns its error, unless the session is
closed. As long as it is not closed, the lock is given back by the steps of its
holder, and then the receive, told an error, goes on at the backup. -/
theorem session_switches (moves : List (Move SessionCall Input)) :
    let run := moves.foldl sessionMachine.step sessionStart
    run.shared.held.length ≤ 2 ∧
    (.close .done ∈ run.threads → (∀ thread ∈ run.threads, thread.finished = true) →
      ∀ shut ∈ run.shared.held, shut = true) ∧
    (run.shared.backup = true →
      (∀ later : List (Move SessionCall Input),
        let next := later.foldl sessionMachine.step run
        ∀ datagram ∈ next.shared.sent, run.threads.length ≤ datagram.1 → datagram.2 ≠ 0) ∧
      ∀ i, run.threads[i]? = some (.receive (.receiving 0)) →
        (∀ later : List (Move SessionCall Input),
          let next := later.foldl sessionMachine.step run
          next.threads[i]? = some (.receive (.done (.failed 0))) → next.shared.closed = true) ∧
        (run.shared.closed = false →
          (∀ k, run.shared.lock = some k → ∀ inputs : List Input, 3 ≤ inputs.length →
            let next := (inputs.map (Move.run k)).foldl sessionMachine.step run
            next.shared.lock = none ∧ next.shared.closed = false ∧ next.shared.backup = true ∧
              next.threads[i]? = some (.receive (.receiving 0))) ∧
          (run.shared.lock = none → ∀ input input' : Input,
            let next := [.run i { ok := false }, .run i input, .run i input'].foldl
              sessionMachine.step run
            next.threads[i]? = some (.receive (.receiving 1))))) := by
  intro run
  have hinv : Invariant _ _ run := switched_run moves
  obtain ⟨hholder, hs⟩ := hinv.shared
  refine ⟨?_, held_closed_of_finished moves, fun hbackup => ⟨fun later => ?_, fun i hi => ⟨?_, ?_⟩⟩⟩
  · have hheld := hs.held
    have hone := Bool.toNat_le run.shared.backup
    omega
  · refine (backup_run moves later run.threads.length hbackup ?_).1
    intro thread hthread
    exact absurd (List.getElem?_eq_some_iff.mp hthread).1 (Nat.lt_irrefl _)
  · intro later next hfailed
    refine (backup_run moves later i hbackup ?_).2 _ hfailed rfl
    intro thread hthread
    cases hi.symm.trans hthread
    trivial
  · intro hunclosed
    refine ⟨fun k hk inputs hlen => ?_, fun hfree input input' => ?_⟩
    · obtain ⟨thread, hget⟩ : ∃ thread, run.threads[k]? = some thread :=
        ⟨_, List.getElem?_eq_getElem (hholder k hk)⟩
      obtain ⟨hholds, hknows⟩ := hinv.threads k thread hget
      obtain ⟨left, hleft, hreleasing⟩ := hknows.releasing (hholds.mpr hk) hbackup hunclosed
      have hreleased := hreleasing.run hget (hleft.trans_le hlen)
      refine ⟨hreleased.lock rfl, hreleased.closed.trans hunclosed,
        hreleased.backup.trans hbackup, (hreleased.others i ?_).trans hi⟩
      rintro rfl
      cases hget.symm.trans hi
      cases hreleasing
    · exact receive_continues hs hbackup hunclosed hfree hi input input'

/-- A receive is at the primary while a send publishes the backup. -/
theorem session_switches_receive :
    let moves : List (Move SessionCall Input) :=
      [.call .receive, .run 0 {}, .call .send, .run 1 {}, .run 1 { ok := false }, .run 1 {},
        .run 1 {}, .run 1 {}]
    let run := moves.foldl sessionMachine.step sessionStart
    (run.shared.backup = true ∧ run.shared.lock = some 1 ∧ run.shared.closed = false ∧
      run.threads[0]? = some (.receive (.receiving 0))) ∧
    (∀ later : List (Move SessionCall Input),
      let next := later.foldl sessionMachine.step run
      next.threads[0]? = some (.receive (.done (.failed 0))) → next.shared.closed = true) ∧
    let next := ([{}, {}, {}].map (Move.run 1)).foldl sessionMachine.step run
    next.shared.lock = none ∧ next.shared.closed = false ∧ next.shared.backup = true ∧
      next.threads[0]? = some (.receive (.receiving 0)) := by
  intro moves run
  have hrun : run.shared.backup = true ∧ run.shared.lock = some 1 ∧ run.shared.closed = false ∧
      run.threads[0]? = some (.receive (.receiving 0)) := by decide
  obtain ⟨hbackup, hlock, hunclosed, hreceive⟩ := hrun
  obtain ⟨hreturns, hcontinues⟩ := ((session_switches moves).2.2 hbackup).2 0 hreceive
  exact ⟨⟨hbackup, hlock, hunclosed, hreceive⟩, hreturns,
    (hcontinues hunclosed).1 1 hlock [{}, {}, {}] (by decide)⟩

end Hy2Route.Transport
