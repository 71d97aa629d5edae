import Hy2Route.Control.Socket
import Hy2Route.Failover.Controller
import Hy2Route.HY2.Redaction
import Hy2Route.Policy.Learning
import Hy2Route.Transport.Routes

/-!
# The application's status

The application assembles its snapshot from the failover controller, the HY2 tracker,
the learning table and the relays. Everything in it is short and plain except the
reason of the last failure, which the tracker cuts by runes and the client by bytes.

## Implementation notes

The readings of the clocks and the text of the process status are inputs. No part of
the snapshot is taken under a common lock; each part is the state of its component.
-/

namespace Hy2Route.Control

open Foundation HY2

structure Application where
  controller : Option Failover.Controller
  hy2Status : Option Hy2StatusTracker
  learned : Option Policy.LearningTable
  tcpRelay : Option Transport.StreamRelay
  udpRelay : Option Transport.PacketRelay
  udpViaLanding : Bool

/-- What the environment shows while a snapshot is taken. -/
structure Moment where
  modeNow : Int
  learnedNow : Int
  processStatus : Option Bytes

def modeText : Failover.Mode → Bytes
  | .proxy => ascii "proxy"
  | .directCooldown => ascii "fail-open"
  | .directRecovery => ascii "recovery"

def stateText : State → Bytes
  | .idle => ascii "idle"
  | .connected => ascii "connected"
  | .degraded => ascii "degraded"

/-- The tracker stores no other stage than that of a failure. -/
def stageText : Option Stage → Bytes
  | some .connected => ascii "hy2.connected"
  | some .tcp => ascii "hy2.tcp"
  | some .udp => ascii "hy2.udp"
  | some .other => []
  | none => []

def relayText : Transport.RelayName → Bytes
  | .hy2 => ascii "hy2"
  | .reality => ascii "reality"

/-- `strconv.ParseUint` with base 10 and 64 bits. -/
def parseUint (s : Bytes) : Option Nat :=
  let value := s.foldl (fun n d => n * 10 + digitValue d) 0
  if s ≠ [] ∧ s.all isDigit ∧ value < 2 ^ 64 then some value else none

/-- The first line about the resident set decides. -/
def rssOfLines : List Bytes → UInt64
  | [] => 0
  | line :: lines =>
      if (ascii "VmRSS:").isPrefixOf line then
        match fields line with
        | _ :: kilobytes :: _ =>
            match parseUint kilobytes with
            | none => 0
            | some n => UInt64.ofNat n * 1024
        | _ => 0
      else rssOfLines lines

def processRSSBytes : Option Bytes → UInt64
  | none => 0
  | some raw => rssOfLines (split raw 0x0A)

namespace Application

def mode (app : Application) (now : Int) : Failover.Mode :=
  match app.controller with
  | none => .proxy
  | some controller => (controller.currentMode now).2

def status (app : Application) : Hy2StatusSnapshot :=
  match app.hy2Status with
  | none => ⟨.idle, false, .none, .none, [], none⟩
  | some tracker => tracker.snapshot

def learnedCount (app : Application) (now : Int) : Nat :=
  match app.learned with
  | none => 0
  | some table => (table.snapshot now).2.length

def tcpTransport (app : Application) : Transport.RelayName :=
  match app.tcpRelay with
  | none => .hy2
  | some relay => relay.active

def udpTransport (app : Application) : Transport.RelayName :=
  match app.udpRelay with
  | none => .hy2
  | some relay => relay.active

def snapshot (app : Application) (moment : Moment) : Snapshot where
  udpViaLanding := app.udpViaLanding
  tcpTransport := relayText app.tcpTransport
  udpTransport := relayText app.udpTransport
  mode := modeText (app.mode moment.modeNow)
  hy2Connected := app.status.connected
  hy2State := stateText app.status.state
  hy2LastSuccess := app.status.lastSuccess.text
  hy2LastError := app.status.lastError.text
  hy2LastErrorReason := app.status.lastErrorReason
  hy2LastErrorStage := stageText app.status.lastErrorStage
  dnsCache := 0
  learnedIPs := app.learnedCount moment.learnedNow
  udpSessions := 0
  activeTCP := 0
  rssBytes := processRSSBytes moment.processStatus

end Application

/-! ## Status requests -/

theorem recode_modeText (mode : Failover.Mode) : recode (modeText mode) = modeText mode :=
  recode_of_all (by cases mode <;> rfl)

theorem recode_stateText (state : State) : recode (stateText state) = stateText state :=
  recode_of_all (by cases state <;> rfl)

theorem recode_stageText (stage : Option Stage) : recode (stageText stage) = stageText stage := by
  cases stage with
  | none => rfl
  | some stage => exact recode_of_all (by cases stage <;> rfl)

theorem recode_relayText (name : Transport.RelayName) : recode (relayText name) = relayText name :=
  recode_of_all (by cases name <;> rfl)

/-- Every text of the snapshot is plain, except the reason of the last failure. -/
theorem recode_get_snapshot_iff (app : Application) (moment : Moment) :
    (∀ f, ((app.snapshot moment).response.get f).recode = (app.snapshot moment).response.get f) ↔
      ValidUtf8 app.status.lastErrorReason := by
  constructor
  · intro h
    exact recode_eq_self_iff.mp (Json.Value.text.inj (h .hy2LastErrorReason))
  · intro h f
    cases f with
    | tcpTransport => exact congrArg _ (recode_relayText app.tcpTransport)
    | udpTransport => exact congrArg _ (recode_relayText app.udpTransport)
    | mode => exact congrArg _ (recode_modeText (app.mode moment.modeNow))
    | hy2State => exact congrArg _ (recode_stateText app.status.state)
    | hy2LastSuccess => exact congrArg _ app.status.lastSuccess.recode_text
    | hy2LastError => exact congrArg _ app.status.lastError.recode_text
    | hy2LastErrorReason => exact congrArg _ (recode_eq_self_iff.mpr h)
    | hy2LastErrorStage => exact congrArg _ (recode_stageText app.status.lastErrorStage)
    | _ => rfl

theorem length_handle_status (s : Snapshot) :
    (handle s (requestMessage (ascii "status"))).length = s.width := by
  rw [handle, respond_status, length_encode_response]

/-- After any events, a status request is answered within the client's limit and gets
the application's snapshot exactly when the stored reason, which is that of the last failure
that was accepted, is valid and the fields of the snapshot, written with its escapes, are no
longer than the limit. -/
theorem status_request_succeeds_iff (app : Application) (moment : Moment) (secrets : List Bytes)
    (logging : Bool) (clock : Nat → Reading) (events : List Event) :
    let tracker := (newHY2StatusTracker secrets logging).emitAll clock events
    let snapshot := { app with hy2Status := some tracker }.snapshot moment
    snapshot.hy2LastErrorReason = lastReason secrets events ∧
    ((handle snapshot (requestMessage (ascii "status"))).length ≤ maxRequestBytes ∧
        request (handle snapshot) (ascii "status") = .ok snapshot ↔
      ValidUtf8 (lastReason secrets events) ∧ snapshot.width ≤ maxRequestBytes) := by
  intro tracker snapshot
  have hreason : tracker.snapshot.lastErrorReason = lastReason secrets events :=
    lastErrorReason_emitAll secrets logging clock events
  have hvalid : (∀ f, (snapshot.response.get f).recode = snapshot.response.get f) ↔
      ValidUtf8 (lastReason secrets events) :=
    hreason ▸ recode_get_snapshot_iff { app with hy2Status := some tracker } moment
  refine ⟨hreason, ?_⟩
  rw [length_handle_status, request_status_eq_ok_iff, hvalid]
  constructor
  · rintro ⟨hfits, -, hreason⟩
    exact ⟨hreason, hfits⟩
  · rintro ⟨hreason, hfits⟩
    exact ⟨hfits, Nat.le_succ_of_le hfits, hreason⟩

/-- The application before anything was learned or failed over. -/
def idleApplication (tracker : Hy2StatusTracker) : Application :=
  ⟨none, some tracker, none, none, none, false⟩

/-- A failure whose reason is 700 characters of markup is stored as it is, and the
request fails; one with a byte that is no UTF-8 comes back changed. -/
theorem status_request_fails_on_markup :
    let status : Bytes → Snapshot := fun reason =>
      (idleApplication ((newHY2StatusTracker [] true).emitAll (fun _ => ⟨0, .none⟩)
        [⟨.tcp, reason, 1⟩])).snapshot ⟨0, 0, none⟩
    let markup := status (List.replicate 700 0x3C)
    let invalid := status [0xFF]
    maxRequestBytes < (handle markup (requestMessage (ascii "status"))).length ∧
      request (handle markup) (ascii "status") = .error .decode ∧
      request (handle invalid) (ascii "status") ≠ .ok invalid := by
  intro status markup invalid
  have hwidth : maxRequestBytes + 1 < markup.width := by decide +kernel
  refine ⟨?_, ?_, ?_⟩
  · rw [length_handle_status]
    exact Nat.lt_of_succ_lt hwidth
  · obtain ⟨r, -, hrequest⟩ := request_status markup
    rw [hrequest, if_neg (Nat.not_le.mpr hwidth)]
  · rw [Ne, request_status_eq_ok_iff, recode_get_snapshot_iff]
    rintro ⟨-, hvalid⟩
    revert hvalid
    decide +kernel

end Hy2Route.Control
