import Hy2Route.Foundation.Cooldown
import Hy2Route.Foundation.Strings
import Hy2Route.Transport.PacketHealth
import Hy2Route.Transport.Routes

/-!
# The cooldown of the relays

A relay that falls back stores one moment, before which its primary is left alone. In the
stream relay a dial writes it; in the packet relay opening, sending and receiving all do.
The moment stands for the history of the primary: the primary is tried exactly when it
has not failed within the cooldown since it last succeeded. An attempt that the caller
has cancelled counts as neither.

Dials of the stream relay are looked at as whole calls, one after the other. The calls on
the packet relay and its sessions may be interleaved in any way.
-/

namespace Hy2Route.Transport

open Foundation

/-- Readings of the clock, none earlier than one before it. -/
def InOrder (times : List Int) : Prop := times.Pairwise (· ≤ ·)

instance (times : List Int) : Decidable (InOrder times) :=
  inferInstanceAs (Decidable (times.Pairwise (· ≤ ·)))

theorem exists_clock {times : List Int} (h : InOrder times) :
    ∃ clock, InOrder (clock :: times) := by
  cases times with
  | nil => exact ⟨0, List.pairwise_singleton _ _⟩
  | cons time rest =>
      refine ⟨time, List.pairwise_cons.mpr ⟨?_, h⟩⟩
      exact List.forall_mem_cons.mpr ⟨le_rfl, (List.pairwise_cons.mp h).1⟩

theorem reached_iff (moment : Option Int) (now : Int) :
    reached moment now = true ↔ ∀ time ∈ moment, time ≤ now := by
  cases moment <;> simp [reached]

/-! ## Calls of the stream relay -/

/-- A dial: what the caller gives, the readings of the clock, and how the dialers and the
caller's context answer. The remaining time is looked at twice. -/
structure DialCall where
  target : Bytes
  deadline : Option Int
  start : Int
  look : Int
  secondLook : Int
  primaryOk : Bool
  cancelled : Bool
  failedAt : Int
  backupOk : Bool

/-- The readings in the order in which they are made. -/
def DialCall.times (c : DialCall) : List Int := [c.start, c.look, c.secondLook, c.failedAt]

/-- Four seconds, or half of the remaining time if that is less. -/
def DialCall.timeout (c : DialCall) : Int :=
  match c.deadline with
  | none => 4 * second
  | some deadline =>
      if (deadline - c.look).tdiv 2 < 4 * second then (deadline - c.secondLook).tdiv 2
      else 4 * second

/-- What the primary was given, its target and its timeout, what the backup was given, and
how the call ended. -/
structure DialOutcome where
  primary : Option (Bytes × Int)
  backup : Option Bytes
  result : RelayDialResult
  deriving DecidableEq

namespace StreamRelay

def callBackup (relay : StreamRelay) (c : DialCall) (primary : Option (Bytes × Int)) :
    StreamRelay × DialOutcome :=
  if c.backupOk then
    ({ relay with active := relay.backupName }, ⟨primary, some c.target, .backup⟩)
  else (relay, ⟨primary, some c.target, .failed⟩)

/-- A whole dial. -/
def call (relay : StreamRelay) (c : DialCall) : StreamRelay × DialOutcome :=
  if reached relay.retryAt c.start then
    let primary := some (c.target, c.timeout)
    if c.primaryOk then
      ({ relay with retryAt := none, active := relay.primaryName }, ⟨primary, none, .primary⟩)
    else if c.cancelled then (relay, ⟨primary, none, .cancelled⟩)
    else
      callBackup { relay with retryAt := some (c.failedAt + relay.cooldown) } c primary
  else callBackup relay c none

/-- The steps of one dial, from a point of it. -/
def dialSteps (relay : StreamRelay) (point : RelayDialPoint) :
    List Input → Option (StreamRelay × RelayDialPoint)
  | [] => some (relay, point)
  | input :: rest =>
      match relay.dial input point with
      | none => none
      | some (relay, point) => relay.dialSteps point rest

/-- A whole dial is what its steps do when nothing comes between them. -/
theorem dialSteps_call (relay : StreamRelay) (c : DialCall) :
    ∃ inputs, relay.dialSteps .start inputs =
      some ((relay.call c).1, .done (relay.call c).2.result) := by
  have hbackup (relay : StreamRelay) (primary : Option (Bytes × Int)) :
      ∃ inputs, relay.dialSteps .dialingBackup inputs =
        some ((relay.callBackup c primary).1, .done (relay.callBackup c primary).2.result) := by
    cases hok : c.backupOk with
    | true =>
        exact ⟨[⟨0, true, false⟩, ⟨0, true, false⟩], by simp [dialSteps, dial, callBackup, hok]⟩
    | false => exact ⟨[⟨0, false, false⟩], by simp [dialSteps, dial, callBackup, hok]⟩
  unfold call
  split_ifs with hreached hok hcancelled
  · exact ⟨[⟨c.start, true, false⟩, ⟨0, true, false⟩, ⟨0, true, false⟩],
      by simp [dialSteps, dial, hreached]⟩
  · exact ⟨[⟨c.start, true, false⟩, ⟨0, false, true⟩], by simp [dialSteps, dial, hreached]⟩
  · obtain ⟨inputs, hinputs⟩ := hbackup
      { relay with retryAt := some (c.failedAt + relay.cooldown) } (some (c.target, c.timeout))
    refine ⟨⟨c.start, true, false⟩ :: ⟨0, false, false⟩ :: ⟨c.failedAt, true, false⟩ :: inputs, ?_⟩
    simpa [dialSteps, dial, hreached] using hinputs
  · obtain ⟨inputs, hinputs⟩ := hbackup relay none
    exact ⟨⟨c.start, true, false⟩ :: inputs, by simpa [dialSteps, dial, hreached] using hinputs⟩

/-- What a dial says about the primary. -/
def attempts (relay : StreamRelay) (c : DialCall) : List Attempt :=
  if (relay.call c).2.primary = none then []
  else if c.primaryOk then [.succeeded]
  else if c.cancelled then []
  else [.failed c.failedAt]

/-- The relay after dials one after the other. -/
def after (relay : StreamRelay) (calls : List DialCall) : StreamRelay :=
  calls.foldl (fun relay c => (relay.call c).1) relay

/-- The attempts of dials one after the other. -/
def history (relay : StreamRelay) : List DialCall → List Attempt
  | [] => []
  | c :: rest => relay.attempts c ++ (relay.call c).1.history rest

theorem cooldown_call (relay : StreamRelay) (c : DialCall) :
    (relay.call c).1.cooldown = relay.cooldown := by
  unfold call callBackup
  split_ifs <;> rfl

/-- The outcome of a dial by cases: the primary is left alone, or it succeeds, or its
attempt is cancelled, or it fails. -/
theorem call_cases (relay : StreamRelay) (c : DialCall) :
    (reached relay.retryAt c.start = false ∧ relay.attempts c = [] ∧
      (relay.call c).1.retryAt = relay.retryAt ∧ (relay.call c).2.primary = none ∧
      (relay.call c).2.backup = some c.target) ∨
    (reached relay.retryAt c.start = true ∧
      (relay.call c).2.primary = some (c.target, c.timeout) ∧
      ((c.primaryOk = true ∧ relay.attempts c = [.succeeded] ∧
          (relay.call c).1.retryAt = none ∧ (relay.call c).2.backup = none) ∨
        (c.primaryOk = false ∧ c.cancelled = true ∧ relay.attempts c = [] ∧
          (relay.call c).1 = relay ∧ (relay.call c).2.backup = none) ∨
        (c.primaryOk = false ∧ c.cancelled = false ∧ relay.attempts c = [.failed c.failedAt] ∧
          (relay.call c).1.retryAt = some (c.failedAt + relay.cooldown) ∧
          (relay.call c).2.backup = some c.target))) := by
  unfold attempts call callBackup
  cases reached relay.retryAt c.start <;> cases c.primaryOk <;> cases c.cancelled <;>
    cases c.backupOk <;> simp

section Run

variable {relay : StreamRelay} {past : List Attempt} {clock : Int}

theorem remembers_call (h : Remembers relay.cooldown relay.retryAt past clock) {c : DialCall}
    (horder : InOrder (clock :: c.times)) :
    Remembers (relay.call c).1.cooldown (relay.call c).1.retryAt (past ++ relay.attempts c)
      c.failedAt := by
  have hle : clock ≤ c.failedAt := (List.pairwise_cons.mp horder).1 _ (by simp [DialCall.times])
  rw [cooldown_call]
  rcases relay.call_cases c with ⟨-, hattempts, hretryAt, -⟩ |
    ⟨-, -, ⟨-, hattempts, hretryAt, -⟩ | ⟨-, -, hattempts, hsame, -⟩ |
      ⟨-, -, hattempts, hretryAt, -⟩⟩
  · rw [hattempts, hretryAt, List.append_nil]
    exact h.later hle
  · rw [hattempts, hretryAt]
    exact h.succeeded.later hle
  · rw [hattempts, hsame, List.append_nil]
    exact h.later hle
  · rw [hattempts, hretryAt]
    exact h.failed hle

/-- After dials in order of time the moment stands for their history. -/
theorem remembers_after (h : Remembers relay.cooldown relay.retryAt past clock)
    {calls : List DialCall} {later : List Int}
    (horder : InOrder (clock :: (calls.flatMap DialCall.times ++ later))) :
    ∃ clock', Remembers relay.cooldown (relay.after calls).retryAt (past ++ relay.history calls)
      clock' ∧ (relay.after calls).cooldown = relay.cooldown ∧ InOrder (clock' :: later) := by
  induction calls generalizing relay past clock with
  | nil => exact ⟨clock, by simpa [after, history] using h, rfl, horder⟩
  | cons c rest ih =>
      rw [List.flatMap_cons, List.append_assoc] at horder
      have hcall : InOrder (clock :: c.times) :=
        horder.sublist (List.Sublist.cons_cons _ (List.sublist_append_left _ _))
      have hrest : InOrder (c.failedAt :: (rest.flatMap DialCall.times ++ later)) :=
        horder.sublist (List.sublist_append_right [clock, c.start, c.look, c.secondLook] _)
      obtain ⟨clock', hremembers, hcooldown, hlater⟩ := ih (remembers_call h hcall) hrest
      rw [cooldown_call, List.append_assoc] at hremembers
      exact ⟨clock', hremembers, hcooldown.trans (cooldown_call relay c), hlater⟩

end Run

end StreamRelay

/-- Halves of durations are rounded towards zero. -/
theorem tdiv_two (time : Int) : time.tdiv 2 = if 0 ≤ time then time / 2 else -(-time / 2) := by
  split_ifs with h
  · exact Int.tdiv_eq_ediv_of_nonneg h
  · rw [← Int.tdiv_eq_ediv_of_nonneg (by omega), Int.neg_tdiv, neg_neg]

/-- A timeout is at most half of the remaining time, as it was first looked at. -/
theorem DialCall.timeout_le {c : DialCall} (horder : c.look ≤ c.secondLook) {deadline : Int}
    (h : c.deadline = some deadline) : 2 * c.timeout ≤ max 0 (deadline - c.look) := by
  simp only [DialCall.timeout, h]
  split_ifs with hless
  · rw [tdiv_two]
    split_ifs <;> omega
  · rw [tdiv_two] at hless
    split_ifs at hless <;> omega

/-- What a dial does after others: the primary is tried exactly when it has not failed
within the cooldown since it succeeded, and the backup exactly when the primary was not
tried or has failed in earnest. It is what the steps of a dial do. -/
structure DialGoverned (relay : StreamRelay) (earlier : List DialCall) (c : DialCall) : Prop where
  primary_iff : ((relay.after earlier).call c).2.primary ≠ none ↔
    ¬ Cooling relay.cooldown (relay.history earlier) c.start
  backup_iff : ((relay.after earlier).call c).2.backup ≠ none ↔
    ((relay.after earlier).call c).2.primary = none ∨ c.primaryOk = false ∧ c.cancelled = false
  primary_target : ∀ target timeout,
    ((relay.after earlier).call c).2.primary = some (target, timeout) → target = c.target ∧
      ∀ deadline, c.deadline = some deadline → 2 * timeout ≤ max 0 (deadline - c.look)
  backup_target : ∀ target, ((relay.after earlier).call c).2.backup = some target →
    target = c.target
  cancelled : ((relay.after earlier).call c).2.primary ≠ none → c.primaryOk = false →
    c.cancelled = true → ((relay.after earlier).call c).1 = relay.after earlier
  steps : ∃ inputs, (relay.after earlier).dialSteps .start inputs =
    some (((relay.after earlier).call c).1, .done ((relay.after earlier).call c).2.result)

theorem dialGoverned (relay : StreamRelay) (hfresh : relay.retryAt = none)
    {earlier : List DialCall} {c : DialCall}
    (horder : InOrder ((earlier ++ [c]).flatMap DialCall.times)) :
    DialGoverned relay earlier c := by
  obtain ⟨clock, hclock⟩ := exists_clock horder
  rw [List.flatMap_append] at hclock
  have hstart : Remembers relay.cooldown relay.retryAt [] clock := by
    rw [hfresh]
    exact .start _ _
  obtain ⟨clock', hremembers, -, hlater⟩ := StreamRelay.remembers_after hstart hclock
  have hdue := (reached_iff _ c.start).trans (hremembers.due_iff c.start)
  rw [List.nil_append] at hdue
  have hlook : c.look ≤ c.secondLook := by
    have hin := (List.pairwise_cons.mp hlater).2
    rw [List.flatMap_singleton, DialCall.times] at hin
    simp only [List.pairwise_cons] at hin
    exact hin.2.1 _ List.mem_cons_self
  rcases (relay.after earlier).call_cases c with ⟨hreached, -, -, hprimary, hbackup⟩ |
    ⟨hreached, hprimary, hcases⟩
  · rw [hreached, Bool.false_eq_true, false_iff] at hdue
    exact ⟨by simp [hprimary, hdue], by simp [hprimary, hbackup], by simp [hprimary],
      by simp [hbackup, eq_comm], by simp [hprimary], StreamRelay.dialSteps_call _ c⟩
  · have hnot := hdue.mp hreached
    refine ⟨by simp [hprimary, hnot], ?_, ?_, ?_, ?_, StreamRelay.dialSteps_call _ c⟩
    · rcases hcases with ⟨hok, -, -, hbackup⟩ | ⟨hok, hcancelled, -, -, hbackup⟩ |
        ⟨hok, hcancelled, -, -, hbackup⟩ <;> simp [*]
    · rintro target timeout heq
      rw [hprimary] at heq
      cases heq
      exact ⟨rfl, fun deadline => DialCall.timeout_le hlook⟩
    · intro target heq
      rcases hcases with ⟨-, -, -, hbackup⟩ | ⟨-, -, -, -, hbackup⟩ | ⟨-, -, -, -, hbackup⟩
      · simp [hbackup] at heq
      · simp [hbackup] at heq
      · rw [hbackup] at heq
        exact (Option.some.inj heq).symm
    · intro _ hok hcancelled
      rcases hcases with ⟨hok', -⟩ | ⟨-, -, -, hsame, -⟩ | ⟨-, hcancelled', -⟩
      · rw [hok] at hok'
        cases hok'
      · exact hsame
      · rw [hcancelled] at hcancelled'
        cases hcancelled'

/-! ## Steps of the packet relay -/

/-- What a call has to take account of with its next step: an answer of the primary that
counts, or an error of a receive that is to be looked at. -/
inductive Due where
  | note (ok : Bool)
  | check (session packet : Nat)

/-- What an answer of the primary to a step leaves to do: to opening a session, unless the
caller has cancelled it, to sending and to receiving. -/
def RelayThread.answered (input : Input) : RelayThread → Option Due
  | .openPacket .dialing =>
      if input.ok then some (.note true) else if input.cancelled then none else some (.note false)
  | .onSession _ (.send (.sending _ false)) => if input.ok then none else some (.note false)
  | .onSession k (.receive (.receiving packet)) =>
      if input.ok then none else some (.check k packet)
  | _ => none

/-- An error of a receive counts while the session is open and still the same on the
primary. -/
def PacketRelay.counts (relay : PacketRelay) (k packet : Nat) : Bool :=
  match relay.sessions[k]? with
  | some s => s.session = packet && !s.closed && !s.backup
  | none => false

/-- The attempt that a step notes, and what it leaves to do. -/
def Due.next (relay : PacketRelay) (thread : RelayThread) (input : Input) :
    Option Due → List Attempt × Option Due
  | some (.note true) => ([.succeeded], none)
  | some (.note false) => ([.failed input.now], none)
  | some (.check k packet) => ([], if relay.counts k packet then some (.note false) else none)
  | none => ([], thread.answered input)

/-- The same for a move; a blocked step says nothing. -/
def dueStep (s : Threads PacketRelay RelayThread) (due : Nat → Option Due) :
    Move RelayCall Input → List Attempt × (Nat → Option Due)
  | .call _ => ([], due)
  | .run i input =>
      match s.threads[i]? with
      | none => ([], due)
      | some thread =>
          match s.shared.exec i thread input with
          | none => ([], due)
          | some _ =>
              let (attempts, next) := Due.next s.shared thread input (due i)
              (attempts, Function.update due i next)

/-- The attempts of a run as the answers of the primary tell them, each at the time of the
step that takes account of it. -/
def answerHistory (s : Threads PacketRelay RelayThread) (due : Nat → Option Due) :
    List (Move RelayCall Input) → List Attempt
  | [] => []
  | move :: rest =>
      (dueStep s due move).1 ++
        answerHistory (relayMachine.step s move) (dueStep s due move).2 rest

/-- What a step reports of the primary: a session was opened, or opening one, sending or
receiving has failed. -/
def RelayThread.attempts (input : Input) : RelayThread → List Attempt
  | .openPacket .adopting => [.succeeded]
  | .openPacket .failing => [.failed input.now]
  | .onSession _ (.send (.failing _)) => [.failed input.now]
  | .onSession _ (.receive (.failing _)) => [.failed input.now]
  | _ => []

/-- A blocked step says nothing. -/
def relayAttempts (s : Threads PacketRelay RelayThread) : Move RelayCall Input → List Attempt
  | .call _ => []
  | .run i input =>
      match s.threads[i]? with
      | none => []
      | some thread =>
          match s.shared.exec i thread input with
          | none => []
          | some _ => thread.attempts input

/-- The reports of a run, in the order of its steps. -/
def relayHistory (s : Threads PacketRelay RelayThread) :
    List (Move RelayCall Input) → List Attempt
  | [] => []
  | move :: rest => relayAttempts s move ++ relayHistory (relayMachine.step s move) rest

/-- The readings of the clock in a run. -/
def stepTimes (moves : List (Move RelayCall Input)) : List Int :=
  moves.filterMap fun
    | .call _ => none
    | .run _ input => some input.now

section Packets

variable {relay relay' : PacketRelay} {i : Nat} {thread thread' : RelayThread} {input : Input}
  {past : List Attempt} {clock : Int}

/-- A step notes its attempt and writes the moment, or does neither. -/
theorem PacketRelay.remembers_exec (h : Remembers relay.cooldown relay.retryAt past clock)
    (hle : clock ≤ input.now) (hexec : relay.exec i thread input = some (relay', thread')) :
    relay'.cooldown = relay.cooldown ∧
      Remembers relay.cooldown relay'.retryAt (past ++ thread.attempts input) input.now := by
  cases thread with
  | openPacket point =>
      obtain ⟨next, hstep, -⟩ := exec_openPacket hexec
      cases point with
      | adopting =>
          cases hstep
          exact ⟨rfl, h.succeeded.later hle⟩
      | failing =>
          cases hstep
          exact ⟨rfl, h.failed hle⟩
      | start =>
          cases hstep
          exact ⟨rfl, by simpa [RelayThread.attempts] using h.later hle⟩
      | dialing =>
          simp only [openPacket] at hstep
          split_ifs at hstep <;> cases hstep <;>
            exact ⟨rfl, by simpa [RelayThread.attempts] using h.later hle⟩
      | dialingBackup =>
          simp only [openPacket] at hstep
          split_ifs at hstep <;> cases hstep <;>
            exact ⟨rfl, by simpa [RelayThread.attempts] using h.later hle⟩
      | noting =>
          cases hstep
          exact ⟨rfl, by simpa [RelayThread.attempts] using h.later hle⟩
      | done result => cases hstep
  | onSession k thread =>
      obtain ⟨s, s', effect, next, -, hstep, rfl, -⟩ := exec_onSession hexec
      cases hstep with
      | reported packet => exact ⟨rfl, h.failed hle⟩
      | receiveReported packet => exact ⟨rfl, h.failed hle⟩
      | _ => exact ⟨rfl, by simpa [RelayThread.attempts, apply] using h.later hle⟩

theorem remembers_step {s : Threads PacketRelay RelayThread}
    (h : Remembers s.shared.cooldown s.shared.retryAt past clock) (move : Move RelayCall Input)
    {later : List Int} (horder : InOrder (clock :: (stepTimes [move] ++ later))) :
    (relayMachine.step s move).shared.cooldown = s.shared.cooldown ∧
      ∃ clock', Remembers s.shared.cooldown (relayMachine.step s move).shared.retryAt
        (past ++ relayAttempts s move) clock' ∧ InOrder (clock' :: later) := by
  cases move with
  | call c =>
      refine ⟨rfl, clock, ?_, horder⟩
      rw [relayAttempts, List.append_nil]
      exact h
  | run i input =>
      have hle : clock ≤ input.now := (List.pairwise_cons.mp horder).1 _ List.mem_cons_self
      have hlater : InOrder (input.now :: later) := (List.pairwise_cons.mp horder).2
      have hsame (hstep : relayMachine.step s (.run i input) = s)
          (hnone : relayAttempts s (.run i input) = []) :
          (relayMachine.step s (.run i input)).shared.cooldown = s.shared.cooldown ∧
            ∃ clock', Remembers s.shared.cooldown
              (relayMachine.step s (.run i input)).shared.retryAt
              (past ++ relayAttempts s (.run i input)) clock' ∧ InOrder (clock' :: later) := by
        rw [hstep, hnone, List.append_nil]
        exact ⟨rfl, input.now, h.later hle, hlater⟩
      cases hthread : s.threads[i]? with
      | none =>
          exact hsame (by simp only [Machine.step, hthread]) (by simp only [relayAttempts, hthread])
      | some thread =>
          cases hexec : s.shared.exec i thread input with
          | none =>
              exact hsame (Machine.step_blocked hthread (by simp [relayMachine, hexec]))
                (by simp only [relayAttempts, hthread, hexec])
          | some result =>
              obtain ⟨relay', thread'⟩ := result
              have hstep : relayMachine.step s (.run i input) =
                  ⟨relay', s.threads.set i thread'⟩ :=
                Machine.step_run hthread (by simp [relayMachine, hexec])
              have hattempts : relayAttempts s (.run i input) = thread.attempts input := by
                simp only [relayAttempts, hthread, hexec]
              obtain ⟨hcooldown, hremembers⟩ := PacketRelay.remembers_exec h hle hexec
              rw [hstep, hattempts]
              exact ⟨hcooldown, input.now, hremembers, hlater⟩

/-- After a run in order of time the moment stands for its history. -/
theorem remembers_run {s : Threads PacketRelay RelayThread}
    (h : Remembers s.shared.cooldown s.shared.retryAt past clock)
    {moves : List (Move RelayCall Input)} {later : List Int}
    (horder : InOrder (clock :: (stepTimes moves ++ later))) :
    ∃ clock', Remembers s.shared.cooldown (moves.foldl relayMachine.step s).shared.retryAt
      (past ++ relayHistory s moves) clock' ∧ InOrder (clock' :: later) := by
  induction moves generalizing s past clock with
  | nil => exact ⟨clock, by simpa [relayHistory] using h, horder⟩
  | cons move rest ih =>
      have hsplit : stepTimes (move :: rest) = stepTimes [move] ++ stepTimes rest :=
        List.filterMap_append (l := [move])
      rw [hsplit, List.append_assoc] at horder
      obtain ⟨hcooldown, middle, hmiddle, hrest⟩ := remembers_step h move horder
      rw [← hcooldown] at hmiddle
      obtain ⟨clock', hremembers, hlater⟩ := ih hmiddle hrest
      rw [hcooldown, List.append_assoc] at hremembers
      exact ⟨clock', hremembers, hlater⟩

/-! ## Answers and reports -/

/-- What a call at a point has to do. -/
def RelayThread.due : RelayThread → Option Due
  | .openPacket .adopting => some (.note true)
  | .openPacket .failing => some (.note false)
  | .onSession _ (.send (.failing _)) => some (.note false)
  | .onSession k (.receive (.checking packet)) => some (.check k packet)
  | .onSession _ (.receive (.failing _)) => some (.note false)
  | _ => none

/-- A step reports what it has to, and its answer is what the next point has to do. -/
theorem PacketRelay.due_exec (hexec : relay.exec i thread input = some (relay', thread')) :
    Due.next relay thread input thread.due = (thread.attempts input, thread'.due) := by
  cases thread with
  | openPacket point =>
      obtain ⟨next, hstep, rfl⟩ := exec_openPacket hexec
      cases point with
      | start =>
          cases hstep
          cases reached relay.retryAt input.now <;> rfl
      | dialing =>
          simp only [openPacket] at hstep
          split_ifs at hstep with hok hcancelled <;> cases hstep <;>
            simp_all [Due.next, RelayThread.due, RelayThread.answered, RelayThread.attempts]
      | dialingBackup =>
          simp only [openPacket] at hstep
          split_ifs at hstep <;> cases hstep <;> rfl
      | done result => cases hstep
      | _ =>
          cases hstep
          rfl
  | onSession k thread =>
      obtain ⟨s, s', effect, next, hs, hstep, -, rfl⟩ := exec_onSession hexec
      cases hstep with
      | sent packet backup ok =>
          cases backup <;>
            simp [Due.next, RelayThread.due, RelayThread.answered, RelayThread.attempts, ok]
      | received packet answer | sendFailing packet answer | receiveFailed packet answer =>
          simp [Due.next, RelayThread.due, RelayThread.answered, RelayThread.attempts, answer]
      | changed packet free unclosed moved =>
          simp [Due.next, RelayThread.due, RelayThread.attempts, counts, hs, moved]
      | receiveFailing packet free unclosed same primary =>
          simp [Due.next, RelayThread.due, RelayThread.attempts, counts, hs, same, unclosed,
            primary]
      | receiveError packet free final =>
          rcases final with closed | ⟨-, backup⟩ <;>
            simp [Due.next, RelayThread.due, RelayThread.attempts, counts, *]
      | _ => rfl

theorem dueStep_eq (s : Threads PacketRelay RelayThread) {due : Nat → Option Due}
    (h : ∀ j, due j = s.threads[j]?.bind RelayThread.due) (move : Move RelayCall Input) :
    (dueStep s due move).1 = relayAttempts s move ∧
      ∀ j, (dueStep s due move).2 j =
        (relayMachine.step s move).threads[j]?.bind RelayThread.due := by
  cases move with
  | call c =>
      refine ⟨rfl, fun j => (h j).trans ?_⟩
      simp only [Machine.step]
      by_cases hj : j < s.threads.length
      · rw [List.getElem?_append_left hj]
      · rw [List.getElem?_eq_none (Nat.not_lt.mp hj), List.getElem?_append_right (Nat.not_lt.mp hj),
          List.getElem?_singleton]
        split_ifs
        · rcases c with _ | ⟨k, _ | _ | _⟩ <;> rfl
        · rfl
  | run i input =>
      cases hthread : s.threads[i]? with
      | none =>
          simp only [dueStep, relayAttempts, Machine.step, hthread, true_and]
          exact h
      | some thread =>
          cases hexec : s.shared.exec i thread input with
          | none =>
              rw [Machine.step_blocked hthread (by simp [relayMachine, hexec])]
              simp only [dueStep, relayAttempts, hthread, hexec, true_and]
              exact h
          | some result =>
              obtain ⟨relay', thread'⟩ := result
              have hlt : i < s.threads.length := (List.getElem?_eq_some_iff.mp hthread).1
              have hnext := PacketRelay.due_exec hexec
              have hstep : relayMachine.step s (.run i input) =
                  ⟨relay', s.threads.set i thread'⟩ :=
                Machine.step_run hthread (by simp [relayMachine, hexec])
              rw [hstep]
              simp only [dueStep, relayAttempts, hthread, hexec, h i, Option.bind_some, hnext,
                true_and]
              intro j
              by_cases hj : j = i
              · subst hj
                rw [Function.update_self, List.getElem?_set_self hlt, Option.bind_some]
              · rw [Function.update_of_ne hj, List.getElem?_set_ne (Ne.symm hj), h j]

/-- The answers of the primary are reported, each by the step that takes account of it. -/
theorem answerHistory_eq (moves : List (Move RelayCall Input))
    {s : Threads PacketRelay RelayThread} {due : Nat → Option Due}
    (h : ∀ j, due j = s.threads[j]?.bind RelayThread.due) :
    answerHistory s due moves = relayHistory s moves := by
  induction moves generalizing s due with
  | nil => rfl
  | cons move rest ih =>
      obtain ⟨hattempts, hdue⟩ := dueStep_eq s h move
      rw [answerHistory, relayHistory, hattempts, ih hdue]

end Packets

/-- A session is opened, a send on it fails at the time five, and another open begins. -/
def openAfterFailedSend : List (Move RelayCall Input) :=
  [.call .openPacket, .run 0 ⟨0, true, false⟩, .run 0 ⟨0, true, false⟩, .run 0 ⟨0, true, false⟩,
    .call (.onSession 0 .send), .run 1 ⟨4, true, false⟩, .run 1 ⟨5, false, false⟩,
    .run 1 ⟨5, true, false⟩, .call .openPacket]

end Hy2Route.Transport
