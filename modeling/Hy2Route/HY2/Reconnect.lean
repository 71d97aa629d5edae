import Hy2Route.HY2.Client

/-!
# The reconnecting core

A core call connects when there is no underlying client, and captures the client
together with the number of its connection. A connection is announced while the
core's lock is held, so that nothing that carries its number was reported before.

## Implementation notes

An underlying client is named by the number under which it was connected. The
steps that run under the lock without an effect outside the core are one step; the
lock is recorded by its holder for the time of a handshake.
-/

namespace Hy2Route.HY2

open Foundation

structure ReconnectableCore where
  client : Option Nat
  sequence : Nat
  closed : Bool
  lock : Option Nat
  deriving DecidableEq

def newReconnectableCore : ReconnectableCore := ⟨none, 0, false, none⟩

inductive CorePoint where
  | locking
  | handshaking
  | emitting
  | unlocking
  | calling (client : Option Nat) (sequence : Nat)
  | dropping (client : Option Nat) (sequence : Nat) (err : CoreError)
  | closing
  deriving DecidableEq

/-- What the configuration, the handshake or the underlying client answers. -/
inductive Answer where
  | ok
  | failed (err : CoreError)
  deriving DecidableEq

/-- `coreErrs.ClosedError{}` -/
def closedError : CoreError := ⟨ascii "connection closed", false, true⟩

def connectedEvent (sequence : Nat) : Event := ⟨.connected, ascii "connected", sequence⟩

namespace ReconnectableCore

/-- Forget the client unless another has taken its place. -/
def drop (core : ReconnectableCore) (client : Option Nat) : ReconnectableCore :=
  { core with client := if core.client = client then none else core.client }

/-- A step of `clientDo`, with `reconnectLocked`, or of `Close`. -/
def exec (core : ReconnectableCore) (i : Nat) (point : CorePoint) (answer : Answer) :
    Option (ReconnectableCore × Option Event × CoreStep CorePoint) :=
  match point with
  | .locking =>
      if core.lock ≠ none then none
      else if core.closed then
        some (core, none, .returned ⟨false, core.sequence, some closedError⟩)
      else if core.client = none then
        some ({ core with lock := some i, sequence := core.sequence + 1 }, none, .next .handshaking)
      else some (core, none, .next (.calling core.client core.sequence))
  | .handshaking =>
      match answer with
      | .failed err =>
          some ({ core with lock := none }, none, .returned ⟨false, core.sequence, some err⟩)
      | .ok => some ({ core with client := some core.sequence }, none, .next .emitting)
  | .emitting => some (core, some (connectedEvent core.sequence), .next .unlocking)
  | .unlocking =>
      some ({ core with lock := none }, none, .next (.calling core.client core.sequence))
  | .calling client sequence =>
      match answer with
      | .ok => some (core, none, .returned ⟨true, sequence, none⟩)
      | .failed err =>
          if err.closed then some (core, none, .next (.dropping client sequence err))
          else some (core, none, .returned ⟨false, sequence, some err⟩)
  | .dropping client sequence err =>
      if core.lock ≠ none then none
      else some (core.drop client, none, .returned ⟨false, sequence, some err⟩)
  | .closing =>
      if core.lock ≠ none then none
      else some ({ core with closed := true }, none, .returned ⟨false, core.sequence, none⟩)

end ReconnectableCore

def reconnectableCore : CoreClient ReconnectableCore CorePoint Answer where
  start
    | .tcp => .locking
    | .udp => .locking
    | .close => .closing
  exec := ReconnectableCore.exec

/-! ## Steps -/

section Steps

variable (core : ReconnectableCore) (i : Nat)

/-- The steps of the core. -/
inductive ReconnectStep : CorePoint → ReconnectableCore → Option Event → CoreStep CorePoint →
    Prop where
  | shut (free : core.lock = none) (closed : core.closed = true) :
      ReconnectStep .locking core none (.returned ⟨false, core.sequence, some closedError⟩)
  | reconnecting (free : core.lock = none) :
      ReconnectStep .locking { core with lock := some i, sequence := core.sequence + 1 } none
        (.next .handshaking)
  | entered (free : core.lock = none) :
      ReconnectStep .locking core none (.next (.calling core.client core.sequence))
  | refused (err : CoreError) :
      ReconnectStep .handshaking { core with lock := none } none
        (.returned ⟨false, core.sequence, some err⟩)
  | connected :
      ReconnectStep .handshaking { core with client := some core.sequence } none (.next .emitting)
  | emitted :
      ReconnectStep .emitting core (some (connectedEvent core.sequence)) (.next .unlocking)
  | unlocked :
      ReconnectStep .unlocking { core with lock := none } none
        (.next (.calling core.client core.sequence))
  | answered (client : Option Nat) (sequence : Nat) :
      ReconnectStep (.calling client sequence) core none (.returned ⟨true, sequence, none⟩)
  | failed (client : Option Nat) (sequence : Nat) (err : CoreError) :
      ReconnectStep (.calling client sequence) core none
        (.returned ⟨false, sequence, some err⟩)
  | lost (client : Option Nat) (sequence : Nat) (err : CoreError) :
      ReconnectStep (.calling client sequence) core none (.next (.dropping client sequence err))
  | dropped (client : Option Nat) (sequence : Nat) (err : CoreError) (free : core.lock = none) :
      ReconnectStep (.dropping client sequence err) (core.drop client) none
        (.returned ⟨false, sequence, some err⟩)
  | closing (free : core.lock = none) :
      ReconnectStep .closing { core with closed := true } none
        (.returned ⟨false, core.sequence, none⟩)

variable {core i}

theorem reconnect_step {point : CorePoint} {answer : Answer} {after : ReconnectableCore}
    {event : Option Event} {step : CoreStep CorePoint}
    (h : reconnectableCore.exec core i point answer = some (after, event, step)) :
    ReconnectStep core i point after event step := by
  change core.exec i point answer = some (after, event, step) at h
  unfold ReconnectableCore.exec at h
  cases point with
  | locking =>
      simp only at h
      split_ifs at h with hlock hclosed hclient <;> cases h
      · exact .shut (not_not.mp hlock) hclosed
      · exact .reconnecting (not_not.mp hlock)
      · exact .entered (not_not.mp hlock)
  | handshaking =>
      cases answer with
      | ok =>
          cases h
          exact .connected
      | failed err =>
          cases h
          exact .refused err
  | emitting =>
      cases h
      exact .emitted
  | unlocking =>
      cases h
      exact .unlocked
  | calling client sequence =>
      cases answer with
      | ok =>
          cases h
          exact .answered client sequence
      | failed err =>
          simp only at h
          split_ifs at h <;> cases h
          · exact .lost client sequence err
          · exact .failed client sequence err
  | dropping client sequence err =>
      simp only at h
      split_ifs at h with hlock
      cases h
      exact .dropped client sequence err (not_not.mp hlock)
  | closing =>
      simp only at h
      split_ifs at h with hlock
      cases h
      exact .closing (not_not.mp hlock)

end Steps

/-! ## The order of the events -/

/-- Under the lock of a handshake. -/
def CorePoint.locked : CorePoint → Prop
  | .handshaking => True
  | .emitting => True
  | .unlocking => True
  | _ => False

/-- Before a connection is announced. -/
def CorePoint.unannounced : CorePoint → Prop
  | .handshaking => True
  | .emitting => True
  | _ => False

/-- A failure of a TCP or UDP operation. -/
def Stage.isFailure : Stage → Bool
  | .tcp => true
  | .udp => true
  | _ => false

/-- The number that a core call has captured. -/
def CorePoint.captured : CorePoint → Option Nat
  | .calling _ sequence => some sequence
  | .dropping _ sequence _ => some sequence
  | _ => none

/-- The point of a thread inside the core. -/
def Thread.corePoint {π : Type} : Thread π → Option π
  | .dial _ (.waiting _ (.calling point)) => some point
  | .close point => point
  | _ => none

/-- The number that a core call has captured after a step. -/
def CoreStep.captured : CoreStep CorePoint → Option Nat
  | .next point => point.captured
  | .returned result => some result.sequence

/-- The number that a thread has captured, inside the core or with its result. -/
def Thread.captured (t : Thread CorePoint) : Option Nat :=
  (t.corePoint.bind CorePoint.captured).or (t.carried.map (·.sequence))

/-- No connection will be announced under the number any more. -/
def Announced (client : Client ReconnectableCore) (sequence : Nat) : Prop :=
  sequence < client.core.sequence ∨ sequence = client.core.sequence ∧
    (client.core.lock = none ∨ connectedEvent sequence ∈ client.events)

/-- Whatever comes before an announced connection has a smaller number. -/
def InOrder (events : List Event) : Prop :=
  events.Pairwise fun earlier later => later.stage = .connected →
    earlier.sequence < later.sequence

abbrev hy2Machine (capacity : Nat) :
    Machine (Client ReconnectableCore) (Thread CorePoint) Call (Input Answer) :=
  clientMachine reconnectableCore capacity

section Order

variable {capacity i : Nat} {client after : Client ReconnectableCore} {t t' : Thread CorePoint}

theorem Operation.isFailure_stage (op : Operation) : op.stage.isFailure = true := by
  cases op <;> rfl

theorem Event.not_isFailure_connected (sequence : Nat) :
    ¬ (connectedEvent sequence).stage.isFailure = true :=
  Bool.false_ne_true

/-- What a step does for the order of the events: it is a step of the core, or it
leaves the core as it is and reports at most a failure under the captured number. -/
inductive Hy2Step (i : Nat) (client : Client ReconnectableCore) (t : Thread CorePoint)
    (after : Client ReconnectableCore) (t' : Thread CorePoint) : Prop where
  | next {point point' : CorePoint} {event : Option Event} (at_ : t.corePoint = some point)
      (step : ReconnectStep client.core i point after.core event (.next point'))
      (events : after.events = client.events ++ event.toList)
      (at' : t'.corePoint = some point') (carried : t'.carried = none)
  | returned {point : CorePoint} {event : Option Event} {result : CoreResult}
      (at_ : t.corePoint = some point)
      (step : ReconnectStep client.core i point after.core event (.returned result))
      (events : after.events = client.events ++ event.toList) (at' : t'.corePoint = none)
      (carried : ∀ r, t'.carried = some r → r.sequence = result.sequence)
  | outside (core : after.core = client.core)
      (points : t'.corePoint = t.corePoint ∨
        t.corePoint = none ∧ (t'.corePoint = none ∨ t'.corePoint = some .locking))
      (captured : ∀ sequence, t'.captured = some sequence → t.captured = some sequence)
      (events : ∃ event : Option Event, after.events = client.events ++ event.toList ∧
        ∀ e, event = some e → e.stage.isFailure = true ∧ t.captured = some e.sequence)

theorem hy2Step_of_exec {input : Input Answer} {calls : List Call}
    (h : (hy2Machine capacity).exec client i t input = some (after, t', calls)) :
    Hy2Step i client t after t' := by
  have hquiet : ∀ {client : Client ReconnectableCore}, ∃ event : Option Event,
      client.events = client.events ++ event.toList ∧
        ∀ e, event = some e → e.stage.isFailure = true ∧ t.captured = some e.sequence :=
    ⟨none, (List.append_nil _).symm, fun _ h => by cases h⟩
  cases exec_step h with
  | refused op => exact .outside rfl (Or.inl rfl) (fun _ h => h) hquiet
  | acquired op room =>
      have hstart : reconnectableCore.start op.call = .locking := by cases op <;> rfl
      refine .outside rfl (Or.inr ⟨rfl, Or.inr ?_⟩) (fun sequence h => ?_) hquiet
      · rw [← hstart]
        rfl
      · simp [Thread.captured, Thread.corePoint, hstart, CorePoint.captured, Thread.carried] at h
  | canceled op worker =>
      cases worker <;> exact .outside rfl (Or.inl rfl) (fun _ h => h) hquiet
  | received op r => exact .outside rfl (Or.inl rfl) (fun _ h => h) hquiet
  | released op r held => exact .outside rfl (Or.inl rfl) (fun _ h => h) hquiet
  | reported op r =>
      refine .outside rfl (Or.inl rfl) (fun _ h => by cases h) ⟨op.failure r, rfl, fun e he => ?_⟩
      unfold Operation.failure at he
      split at he
      · cases he
      · split_ifs at he
        cases he
        exact ⟨op.isFailure_stage, rfl⟩
  | worked op waiter step => exact .next rfl (reconnect_step step) rfl rfl rfl
  | completed op waiter step =>
      refine .returned rfl (reconnect_step step) rfl rfl fun r hr => ?_
      cases hr
      rfl
  | sent op waiter r => exact .outside rfl (Or.inl rfl) (fun _ h => h) hquiet
  | taken op r => exact .outside rfl (Or.inl rfl) (fun _ h => h) hquiet
  | closed op r => exact .outside rfl (Or.inl rfl) (fun _ h => by cases h) hquiet
  | freed op held => exact .outside rfl (Or.inl rfl) (fun _ h => h) hquiet
  | closeWorked step => exact .next rfl (reconnect_step step) rfl rfl rfl
  | closeCompleted step =>
      exact .returned rfl (reconnect_step step) rfl rfl (fun _ hr => by cases hr)

/-- A step of the core takes the lock for a handshake and gives it back after it. -/
theorem ReconnectStep.lock {core core' : ReconnectableCore} {point : CorePoint}
    {event : Option Event} {step : CoreStep CorePoint}
    (h : ReconnectStep core i point core' event step)
    (hlock : point.locked ↔ core.lock = some i) :
    (∀ point', step = .next point' → (point'.locked ↔ core'.lock = some i)) ∧
      (∀ result, step = .returned result → core'.lock ≠ some i) ∧
      ∀ j, j ≠ i → (core'.lock = some j ↔ core.lock = some j) := by
  cases h with
  | shut free closed =>
      exact ⟨fun _ h => (by cases h), fun _ _ => (by simp [free]), fun _ _ => Iff.rfl⟩
  | reconnecting free =>
      refine ⟨fun _ h => ?_, fun _ h => (by cases h), Machine.lock_taken free⟩
      cases h
      exact iff_of_true trivial rfl
  | entered free =>
      refine ⟨fun _ h => ?_, fun _ h => (by cases h), fun _ _ => Iff.rfl⟩
      cases h
      simp [CorePoint.locked, free]
  | refused err =>
      exact ⟨fun _ h => (by cases h), fun _ _ => (by simp),
        Machine.lock_released (hlock.mp trivial)⟩
  | connected =>
      refine ⟨fun _ h => ?_, fun _ h => (by cases h), fun _ _ => Iff.rfl⟩
      cases h
      exact hlock
  | emitted =>
      refine ⟨fun _ h => ?_, fun _ h => (by cases h), fun _ _ => Iff.rfl⟩
      cases h
      exact hlock
  | unlocked =>
      refine ⟨fun _ h => ?_, fun _ h => (by cases h), Machine.lock_released (hlock.mp trivial)⟩
      cases h
      simp [CorePoint.locked]
  | answered client sequence =>
      exact ⟨fun _ h => (by cases h), fun _ _ => hlock.mpr, fun _ _ => Iff.rfl⟩
  | failed client sequence err =>
      exact ⟨fun _ h => (by cases h), fun _ _ => hlock.mpr, fun _ _ => Iff.rfl⟩
  | lost client sequence err =>
      refine ⟨fun _ h => ?_, fun _ h => (by cases h), fun _ _ => Iff.rfl⟩
      cases h
      exact hlock
  | dropped client sequence err free =>
      exact ⟨fun _ h => (by cases h), fun _ _ => hlock.mpr, fun _ _ => Iff.rfl⟩
  | closing free =>
      exact ⟨fun _ h => (by cases h), fun _ _ => hlock.mpr, fun _ _ => Iff.rfl⟩

/-- A step of the core keeps the number and a free lock, or takes the next number. -/
theorem ReconnectStep.sequence_cases {core core' : ReconnectableCore} {point : CorePoint}
    {event : Option Event} {step : CoreStep CorePoint}
    (h : ReconnectStep core i point core' event step) :
    core'.sequence = core.sequence ∧ (core.lock = none → core'.lock = none) ∨
      core.lock = none ∧ core'.sequence = core.sequence + 1 := by
  cases h with
  | reconnecting free => exact Or.inr ⟨free, rfl⟩
  | refused err => exact Or.inl ⟨rfl, fun _ => rfl⟩
  | unlocked => exact Or.inl ⟨rfl, fun _ => rfl⟩
  | _ => exact Or.inl ⟨rfl, id⟩

theorem guards_lock :
    (hy2Machine capacity).Guards (fun client => client.core.lock)
      (fun t => ∃ point, t.corePoint = some point ∧ point.locked) where
  start c := by
    cases c with
    | dial op => simp [clientMachine, Thread.corePoint]
    | close => simp [clientMachine, Thread.corePoint, reconnectableCore, CorePoint.locked]
  exec h hlock := by
    cases hy2Step_of_exec h with
    | next at_ step events at' carried =>
        simp only [at_, Option.some.injEq, exists_eq_left'] at hlock
        obtain ⟨hnext, -, hothers⟩ := step.lock hlock
        simp only [at', Option.some.injEq, exists_eq_left']
        exact ⟨hnext _ rfl, hothers⟩
    | returned at_ step events at' carried =>
        simp only [at_, Option.some.injEq, exists_eq_left'] at hlock
        obtain ⟨-, hreturned, hothers⟩ := step.lock hlock
        simp only [at', reduceCtorEq, false_and, exists_false, false_iff]
        exact ⟨hreturned _ rfl, hothers⟩
    | outside core points captured events =>
        simp only [core, implies_true, and_true]
        rw [← hlock]
        rcases points with hsame | ⟨hnone, hnone' | hstart⟩
        · rw [hsame]
        · rw [hnone, hnone']
        · simp [hnone, hstart, CorePoint.locked]

theorem Hy2Step.sequence_cases (h : Hy2Step i client t after t') :
    after.core.sequence = client.core.sequence ∧
        (client.core.lock = none → after.core.lock = none) ∨
      client.core.lock = none ∧ after.core.sequence = client.core.sequence + 1 := by
  cases h with
  | next at_ step events at' carried => exact step.sequence_cases
  | returned at_ step events at' carried => exact step.sequence_cases
  | outside core points captured events =>
      rw [core]
      exact Or.inl ⟨rfl, id⟩

/-- A step of the core emits nothing but the connection of a finished handshake. -/
theorem ReconnectStep.emits {core core' : ReconnectableCore} {point : CorePoint}
    {event : Option Event} {step : CoreStep CorePoint}
    (h : ReconnectStep core i point core' event step) {e : Event} (he : event = some e) :
    point = .emitting ∧ e = connectedEvent core.sequence ∧ core' = core := by
  cases h with
  | emitted => exact ⟨rfl, (Option.some.inj he).symm, rfl⟩
  | _ => cases he

/-- A step emits the connection of a finished handshake, or a failure under the
captured number. -/
theorem Hy2Step.exists_event (h : Hy2Step i client t after t') :
    ∃ event : Option Event, after.events = client.events ++ event.toList ∧
      ∀ e, event = some e →
        t.corePoint = some .emitting ∧ e = connectedEvent client.core.sequence ∧
            after.core = client.core ∨
          e.stage.isFailure = true ∧ t.captured = some e.sequence := by
  cases h with
  | next at_ step events at' carried =>
      refine ⟨_, events, fun e he => Or.inl ?_⟩
      obtain ⟨rfl, heq, hcore⟩ := step.emits he
      exact ⟨at_, heq, hcore⟩
  | returned at_ step events at' carried =>
      refine ⟨_, events, fun e he => Or.inl ?_⟩
      obtain ⟨rfl, heq, hcore⟩ := step.emits he
      exact ⟨at_, heq, hcore⟩
  | outside core points captured events =>
      obtain ⟨event, hevent, hfailure⟩ := events
      exact ⟨event, hevent, fun e he => Or.inr (hfailure e he)⟩

theorem Announced.le {sequence : Nat} (h : Announced client sequence) :
    sequence ≤ client.core.sequence :=
  h.elim Nat.le_of_lt fun heq => Nat.le_of_eq heq.1

/-- What was announced stays announced. -/
theorem Announced.step {sequence : Nat} (h : Announced client sequence)
    (hstep : Hy2Step i client t after t') : Announced after sequence := by
  obtain ⟨event, hevents, -⟩ := hstep.exists_event
  rcases hstep.sequence_cases with ⟨hsame, hlock⟩ | ⟨-, hnext⟩
  · rcases h with hlt | ⟨heq, hfree | hmem⟩
    · exact Or.inl (hsame ▸ hlt)
    · exact Or.inr ⟨hsame ▸ heq, Or.inl (hlock hfree)⟩
    · refine Or.inr ⟨hsame ▸ heq, Or.inr ?_⟩
      rw [hevents]
      exact List.mem_append_left _ hmem
  · refine Or.inl ?_
    rw [hnext]
    exact Nat.lt_succ_of_le h.le

/-- What a thread knows: its captured number is announced, and a connection that it
is to announce is not. -/
structure Knows (client : Client ReconnectableCore) (t : Thread CorePoint) : Prop where
  captured : ∀ sequence, t.captured = some sequence → Announced client sequence
  unannounced : ∀ point, t.corePoint = some point → point.unannounced →
    connectedEvent client.core.sequence ∉ client.events

/-- The events so far are connections and failures, announced and in order. -/
structure Ordered (client : Client ReconnectableCore) : Prop where
  stages : ∀ e ∈ client.events, e.stage = .connected ∨ e.stage.isFailure = true
  announced : ∀ e ∈ client.events, Announced client e.sequence
  inOrder : InOrder client.events

theorem CorePoint.unannounced.locked {point : CorePoint} (h : point.unannounced) :
    point.locked := by
  cases point <;> trivial

/-- A step keeps what another thread knows. -/
theorem Knows.other {u : Thread CorePoint} (h : Knows client u)
    (hstep : Hy2Step i client t after t')
    (hholds : (∃ point, u.corePoint = some point ∧ point.locked) → client.core.lock ≠ none ∧
      ¬ ∃ point, t.corePoint = some point ∧ point.locked) : Knows after u := by
  refine ⟨fun sequence hcaptured => (h.captured sequence hcaptured).step hstep, ?_⟩
  intro point hpoint hunannounced
  have hnot := h.unannounced point hpoint hunannounced
  obtain ⟨hlock, hfree⟩ := hholds ⟨point, hpoint, hunannounced.locked⟩
  obtain ⟨event, hevents, hevent⟩ := hstep.exists_event
  rcases hstep.sequence_cases with ⟨hsame, -⟩ | ⟨hnone, -⟩
  · rw [hsame, hevents, List.mem_append, not_or]
    refine ⟨hnot, fun hmem => ?_⟩
    rcases hevent _ (Option.mem_toList.mp hmem) with ⟨hemitting, -⟩ | ⟨hstage, -⟩
    · exact hfree ⟨_, hemitting, trivial⟩
    · exact Event.not_isFailure_connected _ hstage
  · exact absurd hnone hlock

/-- A step keeps the events announced and in order. -/
theorem Ordered.step (h : Ordered client) (hknows : Knows client t)
    (hholds : (∃ point, t.corePoint = some point ∧ point.locked) → client.core.lock ≠ none)
    (hstep : Hy2Step i client t after t') : Ordered after := by
  obtain ⟨event, hevents, hevent⟩ := hstep.exists_event
  have hold : ∀ e ∈ client.events, Announced after e.sequence :=
    fun e he => (h.announced e he).step hstep
  cases event with
  | none =>
      rw [Option.toList_none, List.append_nil] at hevents
      refine ⟨?_, ?_, ?_⟩ <;> rw [hevents]
      · exact h.stages
      · exact hold
      · exact h.inOrder
  | some e =>
      rw [Option.toList_some] at hevents
      have hlast : (e.stage = .connected ∨ e.stage.isFailure = true) ∧
          Announced after e.sequence ∧
          (e.stage = .connected → ∀ earlier ∈ client.events, earlier.sequence < e.sequence) := by
        rcases hevent e rfl with ⟨hemitting, rfl, hcore⟩ | ⟨hstage, hcaptured⟩
        · refine ⟨Or.inl rfl, Or.inr ⟨by rw [hcore]; rfl, Or.inr ?_⟩, fun _ earlier hearlier => ?_⟩
          · rw [hevents]
            exact List.mem_append_right _ List.mem_cons_self
          · rcases h.announced earlier hearlier with hlt | ⟨heq, hfree | hmem⟩
            · exact hlt
            · exact absurd hfree (hholds ⟨_, hemitting, trivial⟩)
            · rw [heq] at hmem
              exact absurd hmem (hknows.unannounced _ hemitting trivial)
        · refine ⟨Or.inr hstage, (hknows.captured _ hcaptured).step hstep, fun heq => ?_⟩
          rw [heq] at hstage
          cases hstage
      obtain ⟨hstages, hannounced, hearlier⟩ := hlast
      refine ⟨?_, ?_, ?_⟩ <;> rw [hevents]
      · exact List.forall_mem_append.mpr ⟨h.stages, List.forall_mem_singleton.mpr hstages⟩
      · exact List.forall_mem_append.mpr ⟨hold, List.forall_mem_singleton.mpr hannounced⟩
      · refine List.pairwise_append.mpr ⟨h.inOrder, List.pairwise_singleton _ _, ?_⟩
        intro earlier hmem later hlater hstage
        obtain rfl := List.mem_singleton.mp hlater
        exact hearlier hstage earlier hmem

/-- A number is captured when the lock is free. -/
theorem ReconnectStep.captures {core core' : ReconnectableCore} {point : CorePoint}
    {event : Option Event} {step : CoreStep CorePoint}
    (h : ReconnectStep core i point core' event step) {sequence : Nat}
    (hcaptured : step.captured = some sequence) :
    point.captured = some sequence ∨ sequence = core'.sequence ∧ core'.lock = none := by
  cases h with
  | shut free closed => exact Or.inr ⟨(Option.some.inj hcaptured).symm, free⟩
  | reconnecting free => cases hcaptured
  | entered free => exact Or.inr ⟨(Option.some.inj hcaptured).symm, free⟩
  | refused err => exact Or.inr ⟨(Option.some.inj hcaptured).symm, rfl⟩
  | connected => cases hcaptured
  | emitted => cases hcaptured
  | unlocked => exact Or.inr ⟨(Option.some.inj hcaptured).symm, rfl⟩
  | closing free => exact Or.inr ⟨(Option.some.inj hcaptured).symm, free⟩
  | _ => exact Or.inl hcaptured

/-- A connection is to be announced under a new number, or was already. -/
theorem ReconnectStep.unannounced {core core' : ReconnectableCore} {point point' : CorePoint}
    {event : Option Event} (h : ReconnectStep core i point core' event (.next point'))
    (hunannounced : point'.unannounced) :
    event = none ∧ (core'.sequence = core.sequence + 1 ∨
      point.unannounced ∧ core'.sequence = core.sequence) := by
  cases h with
  | reconnecting free => exact ⟨rfl, Or.inl rfl⟩
  | connected => exact ⟨rfl, Or.inr ⟨trivial, rfl⟩⟩
  | _ => cases hunannounced

theorem captured_of_corePoint {point : CorePoint} (hpoint : t.corePoint = some point)
    {sequence : Nat} (hcaptured : point.captured = some sequence) :
    t.captured = some sequence := by
  rw [Thread.captured, hpoint, Option.bind_some, hcaptured, Option.some_or]

/-- A step of the core leaves an announced number with its thread. -/
theorem Knows.announced_of_step (h : Knows client t) (hstep : Hy2Step i client t after t')
    {point : CorePoint} (hpoint : t.corePoint = some point) {event : Option Event}
    {step : CoreStep CorePoint} (hcore : ReconnectStep client.core i point after.core event step)
    {sequence : Nat} (hcaptured : step.captured = some sequence) :
    Announced after sequence := by
  rcases hcore.captures hcaptured with hold | ⟨heq, hfree⟩
  · exact (h.captured _ (captured_of_corePoint hpoint hold)).step hstep
  · exact Or.inr ⟨heq, Or.inl hfree⟩

/-- A step leaves its thread knowing what it has to. -/
theorem Knows.step (h : Knows client t) (hordered : Ordered client)
    (hstep : Hy2Step i client t after t') : Knows after t' := by
  have hwhole := hstep
  cases hstep with
  | next at_ step events at' carried =>
      refine ⟨fun sequence hcaptured => ?_, fun point hpoint hunannounced => ?_⟩
      · refine h.announced_of_step hwhole at_ step ?_
        rwa [Thread.captured, at', carried, Option.bind_some, Option.map_none, Option.or_none]
          at hcaptured
      · obtain rfl := Option.some.inj (at'.symm.trans hpoint)
        obtain ⟨rfl, hnext | ⟨hold, hsame⟩⟩ := step.unannounced hunannounced
        · rw [hnext, events, Option.toList_none, List.append_nil]
          intro hmem
          exact Nat.not_succ_le_self _ (hordered.announced _ hmem).le
        · rw [hsame, events, Option.toList_none, List.append_nil]
          exact h.unannounced _ at_ hold
  | returned at_ step events at' carried =>
      refine ⟨fun sequence hcaptured => ?_, fun point hpoint _ => ?_⟩
      · refine h.announced_of_step hwhole at_ step ?_
        rw [Thread.captured, at', Option.bind_none, Option.none_or] at hcaptured
        obtain ⟨r, hr, rfl⟩ := Option.map_eq_some_iff.mp hcaptured
        exact congrArg some (carried r hr).symm
      · rw [at'] at hpoint
        cases hpoint
  | outside core points captured events =>
      refine ⟨fun sequence hcaptured => ?_, fun point hpoint hunannounced => ?_⟩
      · exact (h.captured _ (captured _ hcaptured)).step hwhole
      · obtain ⟨event, hevents, hfailure⟩ := events
        have hold : t.corePoint = some point := by
          rcases points with hsame | ⟨-, hnone | hstart⟩
          · exact hsame ▸ hpoint
          · rw [hnone] at hpoint
            cases hpoint
          · rw [hstart] at hpoint
            cases hpoint
            cases hunannounced
        rw [core, hevents, List.mem_append, not_or]
        refine ⟨h.unannounced _ hold hunannounced, fun hmem => ?_⟩
        exact Event.not_isFailure_connected _ (hfailure _ (Option.mem_toList.mp hmem)).1

theorem keeps_order :
    (hy2Machine capacity).Keeps (fun _ _ _ _ => True)
      (fun client n => (∀ i, client.core.lock = some i → i < n) ∧ Ordered client)
      (fun client i t => ((∃ point, t.corePoint = some point ∧ point.locked) ↔
        client.core.lock = some i) ∧ Knows client t) := by
  refine guards_lock.extend (fun c hG => ⟨hG, ?_⟩) ?_ ?_
  · cases c with
    | dial op => exact ⟨fun _ h => (by cases h), fun _ h => (by cases h)⟩
    | close =>
        refine ⟨fun _ h => (by cases h), fun point h => ?_⟩
        cases h
        exact False.elim
  · intro client n i t input after t' calls hG hholds hL _ h
    have hstep := hy2Step_of_exec h
    exact ⟨hG.step hL hholds hstep, hL.step hG hstep⟩
  · intro client i t input after t' calls j u hholds h hL
    exact hL.other (hy2Step_of_exec h) hholds

/-- In every run, whatever was reported before a connection has a smaller number. -/
theorem ordered_run (capacity : Nat) (moves : List (Move Call (Input Answer))) :
    Ordered (moves.foldl (hy2Machine capacity).step
      ⟨newClient newReconnectableCore, []⟩).shared := by
  refine ((keeps_order.run_all (s := ⟨newClient newReconnectableCore, []⟩) ⟨⟨?_, ?_⟩, ?_⟩
    moves).shared).2
  · intro i h
    cases h
  · exact ⟨fun _ h => (by cases h), fun _ h => (by cases h), List.Pairwise.nil⟩
  · intro i t h
    simp at h

end Order

end Hy2Route.HY2
