import Hy2Route.Foundation.Duration
import Hy2Route.Foundation.Utf8
import Hy2Route.HY2.Reconnect
import Mathlib.Order.Bounds.Basic

/-!
# The HY2 status

The tracker keeps the number of the last event that it accepted, and ignores older
ones. Failures may be delivered long after the connection they belong to was replaced;
what the tracker shows then depends only on which events were delivered.

## Implementation notes

`Emit` runs under the tracker's lock, so the events of a run are listed in the order
in which they were delivered. A reading of the clock is an instant in nanoseconds
with its text in RFC 3339. A log line is recorded by its stage and reason.
-/

namespace Hy2Route.HY2

open Foundation

inductive State where
  | idle
  | connected
  | degraded
  deriving DecidableEq

/-- The characters of a time in UTC. -/
def stampBytes : Bytes := ascii "0123456789-T:.Z"

/-- The text of a time, or an empty one. -/
structure Stamp where
  text : Bytes
  plain : ∀ b ∈ text, b ∈ stampBytes
  deriving DecidableEq

def Stamp.none : Stamp := ⟨[], fun _ h => absurd h List.not_mem_nil⟩

theorem Stamp.recode_text (stamp : Stamp) : recode stamp.text = stamp.text := by
  have hplain : stampBytes.all (fun b => b.toNat < 0x80) = true := rfl
  refine recode_ascii fun b hb => of_decide_eq_true ?_
  exact List.all_eq_true.mp hplain b (stamp.plain b hb)

structure Reading where
  now : Int
  stamp : Stamp

structure Hy2StatusSnapshot where
  state : State
  connected : Bool
  lastSuccess : Stamp
  lastError : Stamp
  lastErrorReason : Bytes
  lastErrorStage : Option Stage
  deriving DecidableEq

/-- The tracker, with the stages and reasons it has logged. -/
structure Hy2StatusTracker where
  snapshot : Hy2StatusSnapshot
  sequence : Nat
  secrets : List Bytes
  logging : Bool
  lastLog : Option Int
  logged : List (Stage × Bytes)
  deriving DecidableEq

def newHY2StatusTracker (secrets : List Bytes) (logging : Bool) : Hy2StatusTracker where
  snapshot := ⟨.idle, false, .none, .none, [], none⟩
  sequence := 0
  secrets := secrets
  logging := logging
  lastLog := none
  logged := []

def maxReasonRunes : Nat := 1024

/-- The reason as it is stored: without secrets, on one line, and cut. -/
def sanitize (secrets : List Bytes) (reason : Bytes) : Bytes :=
  let reason := secrets.foldl (fun reason secret =>
    if secret ≠ [] then replaceAll reason secret (ascii "[redacted]") else reason) reason
  let reason := [0x20].intercalate (fields reason)
  if maxReasonRunes < (runes reason).length then
    encodeRunes ((runes reason).take maxReasonRunes) ++ ascii "..."
  else reason

namespace Hy2StatusTracker

/-- Log the first failure after a connection, and then one each minute. -/
def log (tracker : Hy2StatusTracker) (now : Int) (stage : Stage) (reason : Bytes) :
    Hy2StatusTracker :=
  let due := match tracker.lastLog with
    | none => true
    | some last => decide (minute ≤ now - last)
  if tracker.logging && (tracker.snapshot.state != .degraded || due) then
    { tracker with lastLog := some now, logged := tracker.logged ++ [(stage, reason)] }
  else tracker

def succeed (tracker : Hy2StatusTracker) (reading : Reading) (sequence : Nat) :
    Hy2StatusTracker :=
  { tracker with
    sequence := sequence
    snapshot := { tracker.snapshot with
      state := .connected, connected := true, lastSuccess := reading.stamp } }

def fail (tracker : Hy2StatusTracker) (reading : Reading) (event : Event) : Hy2StatusTracker :=
  let reason := sanitize tracker.secrets event.reason
  let tracker := tracker.log reading.now event.stage reason
  { tracker with
    sequence := event.sequence
    snapshot := { tracker.snapshot with
      state := .degraded, connected := false, lastError := reading.stamp
      lastErrorReason := reason, lastErrorStage := some event.stage } }

def emit (tracker : Hy2StatusTracker) (reading : Reading) (event : Event) : Hy2StatusTracker :=
  match event.stage with
  | .connected =>
      if event.sequence < tracker.sequence then tracker
      else tracker.succeed reading event.sequence
  | .tcp | .udp =>
      if event.sequence < tracker.sequence then tracker else tracker.fail reading event
  | .other => tracker

/-- Deliver the events in order, with a clock that gives a reading for each. -/
def emitAll (tracker : Hy2StatusTracker) (clock : Nat → Reading) (events : List Event) :
    Hy2StatusTracker :=
  events.zipIdx.foldl (fun tracker event => tracker.emit (clock event.2) event.1) tracker

theorem emitAll_concat (tracker : Hy2StatusTracker) (clock : Nat → Reading)
    (events : List Event) (event : Event) :
    tracker.emitAll clock (events ++ [event]) =
      (tracker.emitAll clock events).emit (clock events.length) event := by
  simp [emitAll, List.zipIdx_append]

end Hy2StatusTracker

/-! ## What a tracker shows -/

section Shows

variable {tracker : Hy2StatusTracker} {reading : Reading} {events : List Event} {event : Event}

/-- What an event does to a tracker. -/
inductive EmitStep (tracker : Hy2StatusTracker) (reading : Reading) (event : Event) :
    Hy2StatusTracker → Prop where
  | ignored (older : event.sequence < tracker.sequence) : EmitStep tracker reading event tracker
  | succeeded (stage : event.stage = .connected) (newer : tracker.sequence ≤ event.sequence) :
      EmitStep tracker reading event (tracker.succeed reading event.sequence)
  | failed (stage : event.stage.isFailure = true) (newer : tracker.sequence ≤ event.sequence) :
      EmitStep tracker reading event (tracker.fail reading event)

theorem emit_step (h : event.stage = .connected ∨ event.stage.isFailure = true) :
    EmitStep tracker reading event (tracker.emit reading event) := by
  unfold Hy2StatusTracker.emit
  split
  · next hstage =>
      split_ifs with hold
      · exact .ignored hold
      · exact .succeeded hstage (Nat.not_lt.mp hold)
  · next hstage =>
      split_ifs with hold
      · exact .ignored hold
      · exact .failed (by rw [hstage]; rfl) (Nat.not_lt.mp hold)
  · next hstage =>
      split_ifs with hold
      · exact .ignored hold
      · exact .failed (by rw [hstage]; rfl) (Nat.not_lt.mp hold)
  · next hstage => simp [hstage, Stage.isFailure] at h

/-- What is to be shown when the largest delivered number is `g`. -/
def statusOf (events : List Event) (g : Nat) : State × Bool :=
  if events = [] then (.idle, false)
  else if ∃ e ∈ events, e.stage.isFailure = true ∧ e.sequence = g then (.degraded, false)
  else (.connected, true)

def Hy2StatusTracker.status (tracker : Hy2StatusTracker) : State × Bool :=
  (tracker.snapshot.state, tracker.snapshot.connected)

/-- The tracker has the largest number delivered, and shows what belongs to it. -/
structure Reflects (events : List Event) (tracker : Hy2StatusTracker) : Prop where
  upper : ∀ e ∈ events, e.sequence ≤ tracker.sequence
  start : events = [] → tracker.sequence = 0
  attained : events ≠ [] → ∃ e ∈ events, e.sequence = tracker.sequence
  status : tracker.status = statusOf events tracker.sequence

theorem reflects_new (secrets : List Bytes) (logging : Bool) :
    Reflects [] (newHY2StatusTracker secrets logging) where
  upper _ h := absurd h List.not_mem_nil
  start _ := rfl
  attained h := absurd rfl h
  status := rfl

theorem exists_failure_concat {g : Nat} :
    (∃ e ∈ events ++ [event], e.stage.isFailure = true ∧ e.sequence = g) ↔
      (∃ e ∈ events, e.stage.isFailure = true ∧ e.sequence = g) ∨
        event.stage.isFailure = true ∧ event.sequence = g := by
  simp only [List.mem_append, List.mem_singleton, or_and_right, exists_or, exists_eq_left]

theorem statusOf_concat {g : Nat} :
    statusOf (events ++ [event]) g =
      if (∃ e ∈ events, e.stage.isFailure = true ∧ e.sequence = g) ∨
          event.stage.isFailure = true ∧ event.sequence = g then (.degraded, false)
      else (.connected, true) := by
  rw [statusOf, if_neg (by simp)]
  simp only [exists_failure_concat]

/-- The tracker still reflects the events when one more is delivered. -/
theorem Reflects.step {after : Hy2StatusTracker} (h : Reflects events tracker)
    (hstep : EmitStep tracker reading event after)
    (horder : event.stage = .connected → ∀ e ∈ events, e.sequence < event.sequence) :
    Reflects (events ++ [event]) after := by
  have hne : events ++ [event] ≠ [] := by simp
  have hlast : event ∈ events ++ [event] := by simp
  cases hstep with
  | ignored older =>
      have hevents : events ≠ [] := fun hnil => by
        rw [h.start hnil] at older
        exact Nat.not_lt_zero _ older
      obtain ⟨e, he, heq⟩ := h.attained hevents
      refine ⟨?_, fun hnil => absurd hnil hne, fun _ => ?_, ?_⟩
      · exact List.forall_mem_append.mpr
          ⟨h.upper, List.forall_mem_singleton.mpr (Nat.le_of_lt older)⟩
      · exact ⟨e, List.mem_append_left _ he, heq⟩
      · have hnew : ¬ (event.stage.isFailure = true ∧ event.sequence = tracker.sequence) :=
          fun hfailure => Nat.ne_of_lt older hfailure.2
        rw [h.status, statusOf_concat, statusOf, if_neg hevents]
        simp only [hnew, or_false]
  | succeeded stage newer =>
      have hupper := horder stage
      refine ⟨?_, fun hnil => absurd hnil hne, fun _ => ⟨event, hlast, rfl⟩, ?_⟩
      · exact List.forall_mem_append.mpr
          ⟨fun e he => Nat.le_of_lt (hupper e he), List.forall_mem_singleton.mpr (Nat.le_refl _)⟩
      · refine Eq.trans ?_ statusOf_concat.symm
        rw [if_neg]
        · rfl
        · rintro (⟨e, he, -, hnumber⟩ | ⟨hfailure, -⟩)
          · exact Nat.ne_of_lt (hupper e he) hnumber
          · rw [stage] at hfailure
            cases hfailure
  | failed stage newer =>
      refine ⟨?_, fun hnil => absurd hnil hne, fun _ => ⟨event, hlast, rfl⟩, ?_⟩
      · exact List.forall_mem_append.mpr
          ⟨fun e he => Nat.le_trans (h.upper e he) newer,
            List.forall_mem_singleton.mpr (Nat.le_refl _)⟩
      · exact (statusOf_concat.trans (if_pos (Or.inr ⟨stage, rfl⟩))).symm

theorem reflects_emitAll (secrets : List Bytes) (logging : Bool) (clock : Nat → Reading)
    (hstages : ∀ e ∈ events, e.stage = .connected ∨ e.stage.isFailure = true)
    (horder : InOrder events) :
    Reflects events ((newHY2StatusTracker secrets logging).emitAll clock events) := by
  induction events using List.reverseRecOn with
  | nil => exact reflects_new secrets logging
  | append_singleton events event ih =>
      obtain ⟨hstages, hstage⟩ := List.forall_mem_append.mp hstages
      obtain ⟨hbefore, -, hlast⟩ := List.pairwise_append.mp horder
      rw [Hy2StatusTracker.emitAll_concat]
      refine (ih hstages hbefore).step (emit_step (hstage event List.mem_cons_self)) ?_
      exact fun hconnected e he => hlast e he event List.mem_cons_self hconnected

theorem Hy2StatusTracker.emit_of_lt (h : event.sequence < tracker.sequence) :
    tracker.emit reading event = tracker := by
  unfold emit
  split
  · exact if_pos h
  · exact if_pos h
  · exact if_pos h
  · rfl

/-- The number of a tracker that reflects the events is their greatest number. -/
theorem Reflects.sequence_eq (h : Reflects events tracker) {g : Nat}
    (hg : IsGreatest {n | ∃ e ∈ events, e.sequence = n} g) :
    events ≠ [] ∧ tracker.sequence = g := by
  obtain ⟨⟨e, he, rfl⟩, hupper⟩ := hg
  have hne : events ≠ [] := List.ne_nil_of_mem he
  obtain ⟨e', he', heq⟩ := h.attained hne
  exact ⟨hne, Nat.le_antisymm (heq ▸ hupper ⟨e', he', rfl⟩) (h.upper e he)⟩

/-- Trackers that reflect the same set of events show the same. -/
theorem Reflects.status_eq {events' : List Event} {tracker' : Hy2StatusTracker}
    (h : Reflects events tracker) (h' : Reflects events' tracker')
    (hsame : ∀ e, e ∈ events' ↔ e ∈ events) : tracker'.status = tracker.status := by
  have hnil : events' = [] ↔ events = [] := by
    simp only [List.eq_nil_iff_forall_not_mem, hsame]
  have hsequence : tracker'.sequence = tracker.sequence := by
    by_cases hempty : events = []
    · rw [h.start hempty, h'.start (hnil.mpr hempty)]
    · obtain ⟨e, he, heq⟩ := h.attained hempty
      refine (h'.sequence_eq ⟨⟨e, (hsame e).mpr he, heq⟩, ?_⟩).2
      rintro n ⟨e, he, rfl⟩
      exact h.upper e ((hsame e).mp he)
  rw [h.status, h'.status, statusOf, statusOf, hsequence]
  simp only [hnil, hsame]

end Shows

/-- The events that a run of the client delivers to the tracker. -/
def delivered (capacity : Nat) (moves : List (Move Call (Input Answer))) : List Event :=
  (moves.foldl (hy2Machine capacity).step ⟨newClient newReconnectableCore, []⟩).shared.events

theorem reflects_delivered (secrets : List Bytes) (logging : Bool) (clock : Nat → Reading)
    (capacity : Nat) (moves : List (Move Call (Input Answer))) :
    Reflects (delivered capacity moves)
      ((newHY2StatusTracker secrets logging).emitAll clock (delivered capacity moves)) :=
  reflects_emitAll secrets logging clock (ordered_run capacity moves).stages
    (ordered_run capacity moves).inOrder

/-- After every run, the status follows from the set of delivered events: it belongs to
the greatest number among them, and an older failure has left no trace. -/
theorem status_depends_on_delivered_events (secrets : List Bytes) (logging : Bool)
    (clock : Nat → Reading) (capacity : Nat) (moves : List (Move Call (Input Answer))) :
    let tracker := newHY2StatusTracker secrets logging
    let events := delivered capacity moves
    (events = [] → (tracker.emitAll clock events).status = (.idle, false)) ∧
    (∀ g, IsGreatest {n | ∃ e ∈ events, e.sequence = n} g →
      (tracker.emitAll clock events).status =
        if ∃ f ∈ events, f.stage.isFailure = true ∧ f.sequence = g then (.degraded, false)
        else (.connected, true)) ∧
    (∀ (clock' : Nat → Reading) (moves' : List (Move Call (Input Answer))),
      (∀ e, e ∈ delivered capacity moves' ↔ e ∈ events) →
        (tracker.emitAll clock' (delivered capacity moves')).status =
          (tracker.emitAll clock events).status) ∧
    ∀ before f after, events = before ++ f :: after → f.stage.isFailure = true →
      (∃ c ∈ before, c.stage = .connected ∧ f.sequence < c.sequence) →
        (tracker.emitAll clock (before ++ [f])).snapshot =
          (tracker.emitAll clock before).snapshot := by
  intro tracker events
  have hreflects := reflects_delivered secrets logging clock capacity moves
  refine ⟨fun hnil => ?_, fun g hg => ?_, fun clock' moves' hsame => ?_, ?_⟩
  · exact hreflects.status.trans (if_pos hnil)
  · obtain ⟨hne, hsequence⟩ := hreflects.sequence_eq hg
    rw [hreflects.status, hsequence]
    exact if_neg hne
  · exact hreflects.status_eq (reflects_delivered secrets logging clock' capacity moves') hsame
  · rintro before f after hsplit - ⟨c, hc, -, hold⟩
    have hordered := ordered_run capacity moves
    have hstages := hordered.stages
    have hinOrder := hordered.inOrder
    change ∀ e ∈ events, _ at hstages
    change InOrder events at hinOrder
    rw [hsplit] at hstages hinOrder
    have hbefore := reflects_emitAll secrets logging clock
      (List.forall_mem_append.mp hstages).1 (List.pairwise_append.mp hinOrder).1
    rw [Hy2StatusTracker.emitAll_concat,
      Hy2StatusTracker.emit_of_lt (Nat.lt_of_lt_of_le hold (hbefore.upper c hc))]

/-- Two dials share the first connection and lose it; the failure of the first is
reported after a third has connected again. -/
theorem status_after_late_failure :
    let lost : Answer := .failed closedError
    let moves : List (Move Call (Input Answer)) :=
      [.call (.dial .dial), .call (.dial .openPacket), .call (.dial .dial),
        .run 0 (.caller false), .run 0 (.core .ok), .run 0 (.core .ok), .run 0 (.core .ok),
        .run 0 (.core .ok), .run 1 (.caller false), .run 1 (.core .ok),
        .run 0 (.core lost), .run 0 (.core .ok), .run 0 .send, .run 0 (.caller false),
        .run 0 (.caller false),
        .run 2 (.caller false), .run 2 (.core .ok), .run 2 (.core .ok), .run 2 (.core .ok),
        .run 2 (.core .ok), .run 0 (.caller false)]
    delivered 2 moves = [connectedEvent 1, connectedEvent 2, ⟨.tcp, closedError.text, 1⟩] ∧
      ∀ secrets logging clock,
        ((newHY2StatusTracker secrets logging).emitAll clock (delivered 2 moves)).status =
          (.connected, true) := by
  intro lost moves
  have hevents : delivered 2 moves =
      [connectedEvent 1, connectedEvent 2, ⟨.tcp, closedError.text, 1⟩] := by decide +kernel
  refine ⟨hevents, fun secrets logging clock => ?_⟩
  obtain ⟨-, hgreatest, -, -⟩ := status_depends_on_delivered_events secrets logging clock 2 moves
  rw [hgreatest 2, hevents]
  · decide
  · rw [hevents]
    refine ⟨⟨connectedEvent 2, by simp, rfl⟩, ?_⟩
    rintro n ⟨e, he, rfl⟩
    revert e
    decide

end Hy2Route.HY2
