import Hy2Route.Foundation.Binary
import Hy2Route.Foundation.Runs

/-!
# Relaying between two connections

Each direction is copied on its own. The copy that ends first is told by a swap of one
word; then its destination is closed for writing, or altogether where it cannot be closed
for writing alone. The relay waits for both copies. The other copy of a destination that
was closed altogether fails, and that failure is not reported.
-/

namespace Hy2Route.Dataplane

open Foundation

inductive Side where
  | inbound
  | outbound
  deriving DecidableEq

def Side.other : Side → Side
  | .inbound => .outbound
  | .outbound => .inbound

inductive CopyError where
  /-- io.EOF, or an error that wraps it. -/
  | eof
  /-- net.ErrClosed -/
  | closed
  | other
  deriving DecidableEq

structure Endpoint where
  /-- What was read ahead. -/
  buffered : Bytes
  /-- Whether there is a `CloseWrite`. -/
  halfClose : Bool
  /-- What the copy has read. -/
  yielded : Bytes
  written : Bytes
  writeClosed : Bool
  closed : Bool

structure CopyResult where
  first : Bool
  err : Option CopyError
  fullyClosed : Bool
  deriving DecidableEq

inductive Phase where
  | reading
  | writing (chunk : Bytes)
  | copied (err : Option CopyError)
  | swapped (first : Bool) (err : Option CopyError)
  /-- The destination is closed and the result not sent yet. -/
  | finished (result : CopyResult)
  | sent (result : CopyResult)
  deriving DecidableEq

/-- The copies are named by the side that they write to. -/
structure Relay where
  conn : Side → Endpoint
  copier : Side → Phase
  completed : Option Side
  results : List CopyResult
  /-- The results that `relayFrom` has taken. -/
  got : List CopyResult

/-- What a connection answers to a read or a write. -/
inductive Answer where
  | data (chunk : Bytes)
  | eof
  | accepted
  /-- An error, after some bytes of a write. The end of a stream is none of a read. -/
  | failed (n : Nat) (err : CopyError)
  deriving DecidableEq

inductive RelayMove where
  | copy (d : Side) (answer : Answer)
  | collect
  deriving DecidableEq

def closeWrite (conn : Endpoint) : Endpoint × Bool :=
  if conn.halfClose then ({ conn with writeClosed := true }, false)
  else ({ conn with closed := true }, true)

namespace Relay

def start (buffered : Bytes) (halfClose : Side → Bool) : Relay where
  conn
    | .inbound => ⟨buffered, halfClose .inbound, [], [], false, false⟩
    | .outbound => ⟨[], halfClose .outbound, [], [], false, false⟩
  copier _ := .reading
  completed := none
  results := []
  got := []

def setConn (s : Relay) (d : Side) (conn : Endpoint) : Relay :=
  { s with conn := Function.update s.conn d conn }

def setPhase (s : Relay) (d : Side) (phase : Phase) : Relay :=
  { s with copier := Function.update s.copier d phase }

/-- The chunk has been read. -/
def read (s : Relay) (d : Side) (chunk buffered : Bytes) : Relay :=
  let src := s.conn d.other
  (s.setConn d.other { src with buffered := buffered, yielded := src.yielded ++ chunk }).setPhase d
    (.writing chunk)

def write (s : Relay) (d : Side) (chunk : Bytes) (phase : Phase) : Relay :=
  let dst := s.conn d
  (s.setConn d { dst with written := dst.written ++ chunk }).setPhase d phase

/-- One step of a copy. An answer that does not fit leaves it waiting. -/
def copy (s : Relay) (d : Side) (answer : Answer) : Relay :=
  match s.copier d with
  | .reading =>
      if (s.conn d.other).buffered ≠ [] then s.read d (s.conn d.other).buffered []
      else if (s.conn d.other).closed then s.setPhase d (.copied (some .closed))
      else match answer with
        | .data chunk => if chunk = [] then s else s.read d chunk []
        | .eof => s.setPhase d (.copied none)
        | .failed _ err => s.setPhase d (.copied (some err))
        | .accepted => s
  | .writing chunk =>
      if (s.conn d).closed then s.setPhase d (.copied (some .closed))
      else match answer with
        | .accepted => s.write d chunk .reading
        | .failed n err => s.write d (chunk.take n) (.copied (some err))
        | .data _ => s
        | .eof => s
  | .copied err =>
      let first := s.completed.isNone
      { s.setPhase d (.swapped first err) with completed := if first then some d else s.completed }
  | .swapped first err =>
      let closing := closeWrite (s.conn d)
      (s.setConn d closing.1).setPhase d (.finished ⟨first, err, closing.2⟩)
  | .finished result =>
      { s.setPhase d (.sent result) with results := s.results ++ [result] }
  | .sent _ => s

/-- `relayFrom` takes a result from the channel. -/
def collect (s : Relay) : Relay :=
  match s.results with
  | result :: rest =>
      if s.got.length < 2 then { s with results := rest, got := s.got ++ [result] } else s
  | [] => s

def step (s : Relay) : RelayMove → Relay
  | .copy d answer => s.copy d answer
  | .collect => s.collect

end Relay

def relayError (err : Option CopyError) : Option CopyError :=
  if err = none ∨ err = some .eof ∨ err = some .closed then none else err

/-- The result of `relayFrom` when it has taken both results. -/
def relayResult (got : List CopyResult) : Option (Option CopyError) :=
  if got.length = 2 then
    let (first, second) := got.foldl
      (fun pair result => if result.first then (result, pair.2) else (pair.1, result))
      ((⟨false, none, false⟩, ⟨false, none, false⟩) : CopyResult × CopyResult)
    match relayError first.err with
    | some err => some (some err)
    | none => if first.fullyClosed then some none else some (relayError second.err)
  else none

/-! ## What is copied -/

@[simp] theorem Side.other_other (d : Side) : d.other.other = d := by cases d <;> rfl

@[simp] theorem Side.other_ne (d : Side) : d.other ≠ d := by cases d <;> simp [Side.other]

theorem Side.eq_or_eq_other (d e : Side) : e = d ∨ e = d.other := by
  cases d <;> cases e <;> simp [Side.other]

namespace Endpoint

structure Open (conn : Endpoint) : Prop where
  closed : conn.closed = false
  writeClosed : conn.writeClosed = false

/-- Closed for writing, or altogether. -/
structure Shut (conn : Endpoint) (fullyClosed : Bool) : Prop where
  closed : conn.closed = fullyClosed
  writeClosed : conn.writeClosed = !fullyClosed
  halfClose : conn.halfClose = !fullyClosed

theorem Open.closeWrite {conn : Endpoint} (h : conn.Open) :
    (Dataplane.closeWrite conn).1.Shut (Dataplane.closeWrite conn).2 := by
  by_cases hhalf : conn.halfClose = true
  · rw [Dataplane.closeWrite, if_pos hhalf]
    exact ⟨h.closed, rfl, hhalf⟩
  · rw [Dataplane.closeWrite, if_neg hhalf]
    exact ⟨rfl, h.writeClosed, Bool.eq_false_iff.mpr hhalf⟩

end Endpoint

/-- A copy from one end to the other that has ended. With `plain` no end answers with an
error that `relayError` drops. -/
structure Ended (stream : Bytes) (plain : Bool) (src dst : Endpoint) (err : Option CopyError) :
    Prop where
  written : dst.written <+: src.yielded
  whole : err = none → dst.written = stream
  notEOF : plain = true → err ≠ some .eof
  closed : plain = true → err = some .closed → src.closed = true

/-- How far a copy is. -/
def Flows (stream : Bytes) (plain : Bool) (src dst : Endpoint) : Phase → Prop
  | .reading => dst.written = src.yielded ∧ dst.Open
  | .writing chunk => dst.written ++ chunk = src.yielded ∧ dst.Open
  | .copied err => Ended stream plain src dst err ∧ dst.Open
  | .swapped _ err => Ended stream plain src dst err ∧ dst.Open
  | .finished result => Ended stream plain src dst result.err ∧ dst.Shut result.fullyClosed
  | .sent result => Ended stream plain src dst result.err ∧ dst.Shut result.fullyClosed

/-- The parts of the ends that a copy uses. -/
structure Endpoint.Same (src dst src' dst' : Endpoint) : Prop where
  yielded : src'.yielded = src.yielded
  closed : src.closed = true → src'.closed = true
  written : dst'.written = dst.written
  open_ : dst.Open → dst'.Open
  shut : ∀ full, dst.Shut full → dst'.Shut full

theorem Ended.same {stream : Bytes} {plain : Bool} {src dst src' dst' : Endpoint}
    {err : Option CopyError} (h : Ended stream plain src dst err)
    (hsame : Endpoint.Same src dst src' dst') : Ended stream plain src' dst' err := by
  refine ⟨?_, ?_, h.notEOF, fun hplain herr => hsame.closed (h.closed hplain herr)⟩
  · rw [hsame.written, hsame.yielded]
    exact h.written
  · rw [hsame.written]
    exact h.whole

theorem Flows.same {stream : Bytes} {plain : Bool} {src dst src' dst' : Endpoint} {phase : Phase}
    (h : Flows stream plain src dst phase) (hsame : Endpoint.Same src dst src' dst') :
    Flows stream plain src' dst' phase := by
  cases phase with
  | reading => exact ⟨by rw [hsame.written, hsame.yielded]; exact h.1, hsame.open_ h.2⟩
  | writing chunk => exact ⟨by rw [hsame.written, hsame.yielded]; exact h.1, hsame.open_ h.2⟩
  | copied err => exact ⟨h.1.same hsame, hsame.open_ h.2⟩
  | swapped first err => exact ⟨h.1.same hsame, hsame.open_ h.2⟩
  | finished result => exact ⟨h.1.same hsame, hsame.shut _ h.2⟩
  | sent result => exact ⟨h.1.same hsame, hsame.shut _ h.2⟩

theorem Flows.written_of_yielded {stream : Bytes} {plain : Bool} {src dst : Endpoint}
    {phase : Phase} (h : Flows stream plain src dst phase) : dst.written <+: src.yielded := by
  cases phase with
  | reading => exact ⟨[], by rw [List.append_nil]; exact h.1⟩
  | writing chunk => exact ⟨chunk, h.1⟩
  | copied err => exact h.1.written
  | swapped first err => exact h.1.written
  | finished result => exact h.1.written
  | sent result => exact h.1.written

namespace Relay

/-- The other ends deliver their streams in order, and end at their ends. -/
def Delivers (stream : Side → Bytes) (plain : Bool) (s : Relay) : RelayMove → Prop
  | .copy d (.data chunk) =>
      (s.conn d.other).yielded ++ (s.conn d.other).buffered ++ chunk <+: stream d.other
  | .copy d .eof =>
      (s.conn d.other).yielded ++ (s.conn d.other).buffered = stream d.other
  | .copy _ (.failed _ err) => plain = true → err = .other
  | _ => True

instance (stream : Side → Bytes) (plain : Bool) (s : Relay) :
    ∀ move, Decidable (Delivers stream plain s move)
  | .copy d (.data _) => inferInstanceAs (Decidable (_ <+: stream d.other))
  | .copy _ .eof => inferInstanceAs (Decidable (_ = _))
  | .copy _ .accepted => inferInstanceAs (Decidable True)
  | .copy _ (.failed _ _) => inferInstanceAs (Decidable (_ → _))
  | .collect => inferInstanceAs (Decidable True)

/-- What holds of the copy to a side. -/
structure Flowing (stream : Side → Bytes) (plain : Bool) (s : Relay) (d : Side) : Prop where
  source : (s.conn d.other).yielded ++ (s.conn d.other).buffered <+: stream d.other
  flows : Flows (stream d.other) plain (s.conn d.other) (s.conn d) (s.copier d)

variable {stream : Side → Bytes} {plain : Bool} {s : Relay}

section Copy

variable {d : Side}

@[simp] theorem conn_setPhase (s : Relay) (d : Side) (phase : Phase) :
    (s.setPhase d phase).conn = s.conn := rfl

@[simp] theorem copier_setPhase (s : Relay) (d : Side) (phase : Phase) :
    (s.setPhase d phase).copier d = phase := Function.update_self ..

@[simp] theorem copier_setPhase_other (s : Relay) (d : Side) (phase : Phase) :
    (s.setPhase d phase).copier d.other = s.copier d.other :=
  Function.update_of_ne d.other_ne ..

@[simp] theorem copier_setConn (s : Relay) (d : Side) (conn : Endpoint) :
    (s.setConn d conn).copier = s.copier := rfl

@[simp] theorem conn_setConn (s : Relay) (d : Side) (conn : Endpoint) :
    (s.setConn d conn).conn d = conn := Function.update_self ..

@[simp] theorem conn_setConn_other (s : Relay) (d : Side) (conn : Endpoint) :
    (s.setConn d conn).conn d.other = s.conn d.other :=
  Function.update_of_ne d.other_ne ..

@[simp] theorem conn_setConn_source (s : Relay) (d : Side) (conn : Endpoint) :
    (s.setConn d.other conn).conn d = s.conn d :=
  Function.update_of_ne d.other_ne.symm ..

/-- What a step of a copy does: to its phase, to its two ends, and nothing to the other
copy. -/
inductive Copies (s : Relay) (d : Side) (answer : Answer) : Relay → Prop
  | waits : Copies s d answer s
  | reads {chunk : Bytes} (hphase : s.copier d = .reading)
      (hchunk : (s.conn d.other).buffered = chunk ∨
        (s.conn d.other).buffered = [] ∧ answer = .data chunk) :
      Copies s d answer (s.read d chunk [])
  | ends {err : Option CopyError} (hphase : s.copier d = .reading)
      (hempty : (s.conn d.other).buffered = []) (hnone : err = none → answer = .eof)
      (herr : ∀ e, err = some e →
        e = .closed ∧ (s.conn d.other).closed = true ∨ ∃ n, answer = .failed n e) :
      Copies s d answer (s.setPhase d (.copied err))
  | writes {chunk : Bytes} (hphase : s.copier d = .writing chunk) :
      Copies s d answer (s.write d chunk .reading)
  | fails {chunk : Bytes} {n : Nat} {err : CopyError} (hphase : s.copier d = .writing chunk)
      (herr : answer = .failed n err) :
      Copies s d answer (s.write d (chunk.take n) (.copied (some err)))
  | swaps {err : Option CopyError} (hphase : s.copier d = .copied err) :
      Copies s d answer { s.setPhase d (.swapped s.completed.isNone err) with
        completed := if s.completed.isNone then some d else s.completed }
  | closes {first : Bool} {err : Option CopyError} (hphase : s.copier d = .swapped first err) :
      Copies s d answer ((s.setConn d (closeWrite (s.conn d)).1).setPhase d
        (.finished ⟨first, err, (closeWrite (s.conn d)).2⟩))
  | sends {result : CopyResult} (hphase : s.copier d = .finished result) :
      Copies s d answer { s.setPhase d (.sent result) with results := s.results ++ [result] }

theorem copy_cases (hopen : ∀ chunk, s.copier d = .writing chunk → (s.conn d).closed = false)
    (answer : Answer) : Copies s d answer (s.copy d answer) := by
  unfold copy
  cases hphase : s.copier d with
  | reading =>
      simp only
      split_ifs with hbuffered hclosed
      · exact .reads hphase (Or.inl rfl)
      · refine .ends hphase (not_not.mp hbuffered) (by simp) ?_
        rintro e ⟨⟩
        exact Or.inl ⟨rfl, hclosed⟩
      · have hempty := not_not.mp hbuffered
        cases answer with
        | data chunk =>
            simp only
            split_ifs
            · exact .waits
            · exact .reads hphase (Or.inr ⟨hempty, rfl⟩)
        | eof => exact .ends hphase hempty (fun _ => rfl) (by simp)
        | failed n err =>
            refine .ends hphase hempty (by simp) ?_
            rintro e ⟨⟩
            exact Or.inr ⟨n, rfl⟩
        | accepted => exact .waits
  | writing chunk =>
      simp only [hopen chunk hphase, Bool.false_eq_true, if_false]
      cases answer with
      | accepted => exact .writes hphase
      | failed n err => exact .fails hphase rfl
      | data _ => exact .waits
      | eof => exact .waits
  | copied err => exact .swaps hphase
  | swapped first err => exact .closes hphase
  | finished result => exact .sends hphase
  | sent result => exact .waits

/-- The error of a copy is the answer of an end, or the source was closed. -/
theorem copyError_of_plain {answer : Answer} {err : Option CopyError}
    (hdelivers : Delivers stream plain s (.copy d answer))
    (herr : ∀ e, err = some e →
      e = .closed ∧ (s.conn d.other).closed = true ∨ ∃ n, answer = .failed n e)
    (hplain : plain = true) :
    err ≠ some .eof ∧ (err = some .closed → (s.conn d.other).closed = true) := by
  have hother {n : Nat} {e : CopyError} (hanswer : answer = .failed n e) : e = .other := by
    subst hanswer
    exact hdelivers hplain
  constructor
  · intro heof
    rcases herr _ heof with ⟨hne, -⟩ | ⟨n, hanswer⟩
    · cases hne
    · cases hother hanswer
  · intro hclosed
    rcases herr _ hclosed with ⟨-, hsrc⟩ | ⟨n, hanswer⟩
    · exact hsrc
    · cases hother hanswer

/-- A step of a copy keeps what holds of it. -/
theorem Flowing.copy (h : Flowing stream plain s d) {answer : Answer}
    (hdelivers : Delivers stream plain s (.copy d answer)) {s' : Relay}
    (hstep : Copies s d answer s') : Flowing stream plain s' d := by
  have hflows := h.flows
  cases hstep with
  | waits => exact h
  | @reads chunk hphase hchunk =>
      rw [hphase] at hflows
      constructor
      · simp only [read, conn_setPhase, conn_setConn, List.append_nil]
        rcases hchunk with hchunk | ⟨hempty, rfl⟩
        · rw [← hchunk]
          exact h.source
        · have hnext : (s.conn d.other).yielded ++ (s.conn d.other).buffered ++ chunk <+:
            stream d.other := hdelivers
          rwa [hempty, List.append_nil] at hnext
      · simp only [read, conn_setPhase, conn_setConn, conn_setConn_source, copier_setPhase]
        exact ⟨by simp only [hflows.1], hflows.2⟩
  | @ends err hphase hempty hnone herr =>
      rw [hphase] at hflows
      refine ⟨h.source, ?_⟩
      simp only [conn_setPhase, copier_setPhase]
      have hends := copyError_of_plain hdelivers herr
      refine ⟨⟨⟨[], by rw [List.append_nil]; exact hflows.1⟩, fun hwhole => ?_,
        fun hplain => (hends hplain).1, fun hplain => (hends hplain).2⟩, hflows.2⟩
      rw [hnone hwhole] at hdelivers
      have hend : (s.conn d.other).yielded ++ (s.conn d.other).buffered = stream d.other :=
        hdelivers
      rw [hflows.1, ← hend, hempty, List.append_nil]
  | @writes chunk hphase =>
      rw [hphase] at hflows
      refine ⟨?_, ?_⟩
      · simp only [write, conn_setPhase, conn_setConn_other]
        exact h.source
      · simp only [write, conn_setPhase, conn_setConn_other, conn_setConn, copier_setPhase]
        exact ⟨hflows.1, hflows.2.1, hflows.2.2⟩
  | @fails chunk n err hphase herr =>
      rw [hphase] at hflows
      refine ⟨?_, ?_⟩
      · simp only [write, conn_setPhase, conn_setConn_other]
        exact h.source
      · simp only [write, conn_setPhase, conn_setConn_other, conn_setConn, copier_setPhase]
        have hanswer : ∀ e, some err = some e →
            e = .closed ∧ (s.conn d.other).closed = true ∨ ∃ n, answer = .failed n e := by
          rintro e ⟨⟩
          exact Or.inr ⟨n, herr⟩
        have hends := copyError_of_plain hdelivers hanswer
        refine ⟨⟨⟨chunk.drop n, ?_⟩, by simp, fun hplain => (hends hplain).1,
          fun hplain => (hends hplain).2⟩, hflows.2.1, hflows.2.2⟩
        simp only [List.append_assoc, List.take_append_drop]
        exact hflows.1
  | swaps hphase =>
      rw [hphase] at hflows
      refine ⟨h.source, ?_⟩
      change Flows _ _ _ _ ((s.setPhase d _).copier d)
      rw [copier_setPhase]
      exact hflows
  | closes hphase =>
      rw [hphase] at hflows
      have hwritten : (closeWrite (s.conn d)).1.written = (s.conn d).written := by
        unfold closeWrite
        split_ifs <;> rfl
      refine ⟨by simpa using h.source, ?_⟩
      simp only [conn_setPhase, conn_setConn_other, conn_setConn, copier_setPhase]
      refine ⟨⟨?_, ?_, hflows.1.notEOF, hflows.1.closed⟩, hflows.2.closeWrite⟩
      · rw [hwritten]
        exact hflows.1.written
      · rw [hwritten]
        exact hflows.1.whole
  | sends hphase =>
      rw [hphase] at hflows
      refine ⟨h.source, ?_⟩
      change Flows _ _ _ _ ((s.setPhase d _).copier d)
      rw [copier_setPhase]
      exact hflows

/-- What a step of a copy leaves of the ends as the other copy sees them. -/
theorem Copies.same {answer : Answer} {s' : Relay} (hstep : Copies s d answer s') :
    Endpoint.Same (s.conn d) (s.conn d.other) (s'.conn d) (s'.conn d.other) ∧
      (s'.conn d).buffered = (s.conn d).buffered ∧ s'.copier d.other = s.copier d.other := by
  have hsame : Endpoint.Same (s.conn d) (s.conn d.other) (s.conn d) (s.conn d.other) :=
    ⟨rfl, id, rfl, id, fun _ h => h⟩
  cases hstep with
  | waits => exact ⟨hsame, rfl, rfl⟩
  | reads hphase hchunk =>
      simp only [read, conn_setPhase, conn_setConn, conn_setConn_source, copier_setPhase_other,
        copier_setConn]
      exact ⟨⟨rfl, id, rfl, fun h => ⟨h.1, h.2⟩, fun _ h => ⟨h.1, h.2, h.3⟩⟩, trivial, trivial⟩
  | ends hphase hempty hnone herr =>
      simp only [conn_setPhase, copier_setPhase_other]
      exact ⟨hsame, trivial, trivial⟩
  | writes hphase =>
      simp only [write, conn_setPhase, conn_setConn, conn_setConn_other, copier_setPhase_other,
        copier_setConn]
      exact ⟨⟨rfl, id, rfl, id, fun _ h => h⟩, trivial, trivial⟩
  | fails hphase herr =>
      simp only [write, conn_setPhase, conn_setConn, conn_setConn_other, copier_setPhase_other,
        copier_setConn]
      exact ⟨⟨rfl, id, rfl, id, fun _ h => h⟩, trivial, trivial⟩
  | swaps hphase => exact ⟨hsame, rfl, copier_setPhase_other s d _⟩
  | closes hphase =>
      simp only [conn_setPhase, conn_setConn, conn_setConn_other, copier_setPhase_other,
        copier_setConn]
      unfold closeWrite
      split_ifs
      · exact ⟨⟨rfl, id, rfl, id, fun _ h => h⟩, rfl, trivial⟩
      · exact ⟨⟨rfl, fun _ => rfl, rfl, id, fun _ h => h⟩, rfl, trivial⟩
  | sends hphase => exact ⟨hsame, rfl, copier_setPhase_other s d _⟩

theorem Flowing.other (h : Flowing stream plain s d.other) {answer : Answer}
    {s' : Relay} (hstep : Copies s d answer s') : Flowing stream plain s' d.other := by
  obtain ⟨hsame, hbuffered, hcopier⟩ := hstep.same
  have hsource := h.source
  have hflows := h.flows
  rw [Side.other_other] at hsource hflows
  constructor
  · rw [Side.other_other, hsame.yielded, hbuffered]
    exact hsource
  · rw [Side.other_other, hcopier]
    exact hflows.same hsame

end Copy

/-! ## Which copy is the first -/

/-- Whether the copy was told to be the first, when it has been told. -/
def flag : Phase → Option Bool
  | .swapped first _ => some first
  | .finished result => some result.first
  | .sent result => some result.first
  | _ => none

/-- The error with which the copy has ended. -/
def failure : Phase → Option CopyError
  | .copied err => err
  | .swapped _ err => err
  | .finished result => result.err
  | .sent result => result.err
  | _ => none

def sentResult : Phase → List CopyResult
  | .sent result => [result]
  | _ => []

/-- The results that were sent. -/
def allSent (s : Relay) : List CopyResult :=
  sentResult (s.copier .inbound) ++ sentResult (s.copier .outbound)

structure Inv (stream : Side → Bytes) (plain : Bool) (s : Relay) : Prop where
  flowing : ∀ d, Flowing stream plain s d
  told : ∀ d first, flag (s.copier d) = some first → first = decide (s.completed = some d)
  winner : ∀ d, s.completed = some d → flag (s.copier d) = some true
  started : ∀ d, s.completed = none → flag (s.copier d) = none
  /-- A copy is cut off by the other one, which was the first. -/
  cut : plain = true → ∀ d, failure (s.copier d) = some .closed → s.completed = some d.other
  sent : (s.got ++ s.results).Perm s.allSent
  taken : s.got.length ≤ 2

theorem inv_start {buffered : Bytes} (h : buffered <+: stream .inbound)
    (halfClose : Side → Bool) : Inv stream plain (start buffered halfClose) := by
  refine ⟨fun d => ?_, ?_, ?_, ?_, ?_, by simp [start, allSent, sentResult], by simp [start]⟩
  · cases d with
    | inbound => exact ⟨ List.nil_prefix, rfl, rfl, rfl⟩
    | outbound => exact ⟨h, rfl, rfl, rfl⟩
  · simp [start, flag]
  · simp [start]
  · simp [start, flag]
  · simp [start, failure]

theorem perm_allSent {s s' : Relay} {d : Side} (hother : s'.copier d.other = s.copier d.other)
    {more : List CopyResult}
    (hself : sentResult (s'.copier d) = sentResult (s.copier d) ++ more) :
    s'.allSent.Perm (s.allSent ++ more) := by
  cases d with
  | inbound =>
      change s'.copier .outbound = _ at hother
      change (sentResult _ ++ sentResult _).Perm (sentResult _ ++ sentResult _ ++ more)
      rw [hself, hother]
      change (_ ++ sentResult (s.copier .outbound)).Perm _
      rw [List.append_assoc, List.append_assoc]
      exact List.Perm.append_left _ List.perm_append_comm
  | outbound =>
      change s'.copier .inbound = _ at hother
      change (sentResult _ ++ sentResult _).Perm (sentResult _ ++ sentResult _ ++ more)
      rw [hself, hother, ← List.append_assoc]
      exact List.Perm.refl _

/-- A copy that was told nothing yet is not the first. -/
theorem Inv.completed_ne (h : Inv stream plain s) {d : Side} (hflag : flag (s.copier d) = none) :
    s.completed ≠ some d := by
  intro hw
  rw [h.winner d hw] at hflag
  cases hflag

/-- An end that is closed altogether was closed by the copy to it, which was the first if
the other one has not ended. -/
theorem Inv.first_of_closed (h : Inv stream plain s) {d : Side}
    (hclosed : (s.conn d.other).closed = true) (hflag : flag (s.copier d) = none) :
    s.completed = some d.other := by
  have hflows := (h.flowing d.other).flows
  have htold : flag (s.copier d.other) ≠ none := by
    cases hphase : s.copier d.other with
    | finished result => simp [flag]
    | sent result => simp [flag]
    | _ =>
        rw [hphase] at hflows
        have hopen := hflows.2.closed
        rw [hclosed] at hopen
        cases hopen
  cases hw : s.completed with
  | none => exact absurd (h.started d.other hw) htold
  | some w =>
      rcases Side.eq_or_eq_other d w with rfl | rfl
      · exact absurd hw (h.completed_ne hflag)
      · rfl

/-- A step that does not tell a copy whether it is the first. -/
theorem Inv.of_flag {s s' : Relay} (h : Inv stream plain s) {d : Side}
    (hflowing : ∀ e, Flowing stream plain s' e) (hother : s'.copier d.other = s.copier d.other)
    (hcompleted : s'.completed = s.completed) (hflag : flag (s'.copier d) = flag (s.copier d))
    (hcut : plain = true → failure (s'.copier d) = some .closed → s.completed = some d.other)
    {more : List CopyResult} (hsent : sentResult (s'.copier d) = sentResult (s.copier d) ++ more)
    (hresults : s'.results = s.results ++ more) (hgot : s'.got = s.got) : Inv stream plain s' := by
  have hflags : ∀ e, flag (s'.copier e) = flag (s.copier e) := by
    intro e
    rcases Side.eq_or_eq_other d e with rfl | rfl
    · exact hflag
    · rw [hother]
  refine ⟨hflowing, fun e first => ?_, fun e => ?_, fun e => ?_, fun hplain e he => ?_, ?_,
    by rw [hgot]; exact h.taken⟩
  · rw [hflags, hcompleted]
    exact h.told e first
  · rw [hflags, hcompleted]
    exact h.winner e
  · rw [hflags, hcompleted]
    exact h.started e
  · rw [hcompleted]
    rcases Side.eq_or_eq_other d e with rfl | rfl
    · exact hcut hplain he
    · rw [hother] at he
      exact h.cut hplain _ he
  · rw [hgot, hresults, ← List.append_assoc]
    exact (h.sent.append_right more).trans (perm_allSent hother hsent).symm

/-- The swap tells exactly one copy that it is the first. -/
theorem Inv.swaps (h : Inv stream plain s) {d : Side}
    {err : Option CopyError} (hphase : s.copier d = .copied err) {s' : Relay}
    (hs' : s' = { s.setPhase d (.swapped s.completed.isNone err) with
      completed := if s.completed.isNone then some d else s.completed })
    (hflowing : ∀ e, Flowing stream plain s' e) : Inv stream plain s' := by
  have hself : s'.copier d = .swapped s.completed.isNone err := by
    rw [hs']
    exact copier_setPhase s d _
  have hother : s'.copier d.other = s.copier d.other := by
    rw [hs']
    exact copier_setPhase_other s d _
  have hcompleted : s'.completed = if s.completed.isNone then some d else s.completed := by rw [hs']
  have hsent : s'.allSent.Perm (s.allSent ++ []) :=
    perm_allSent hother (by rw [hself, hphase]; rfl)
  have hgot : s'.got = s.got := by rw [hs']; rfl
  have hresults : s'.results = s.results := by rw [hs']; rfl
  have hnot : s.completed ≠ some d := h.completed_ne (by rw [hphase]; rfl)
  refine ⟨hflowing, fun e first hfirst => ?_, fun e he => ?_, fun e he => ?_,
    fun hplain e he => ?_, ?_, ?_⟩
  · rcases Side.eq_or_eq_other d e with rfl | rfl
    · rw [hself] at hfirst
      obtain rfl := Option.some.inj hfirst
      rw [hcompleted]
      cases hw : s.completed with
      | none => simp
      | some w =>
          have hwe : w ≠ e := by
            rintro rfl
            exact hnot hw
          simp [hwe]
    · rw [hother] at hfirst
      have htold := h.told _ first hfirst
      cases hw : s.completed with
      | none =>
          rw [h.started _ hw] at hfirst
          cases hfirst
      | some w =>
          rw [htold, hcompleted, hw]
          rfl
  · rw [hcompleted] at he
    cases hw : s.completed with
    | none =>
        rw [hw] at he
        obtain rfl : d = e := Option.some.inj he
        rw [hself, hw]
        rfl
    | some w =>
        rw [hw] at he
        obtain rfl : w = e := Option.some.inj he
        rcases Side.eq_or_eq_other d w with rfl | rfl
        · exact absurd hw hnot
        · rw [hother]
          exact h.winner _ hw
  · rw [hcompleted] at he
    cases hw : s.completed with
    | none =>
        rw [hw] at he
        cases he
    | some w =>
        rw [hw] at he
        cases he
  · have hcut : s.completed = some e.other := by
      refine h.cut hplain e ?_
      rcases Side.eq_or_eq_other d e with rfl | rfl
      · rw [hself] at he
        rw [hphase]
        exact he
      · rwa [hother] at he
    rw [hcompleted, hcut]
    rfl
  · rw [hgot, hresults]
    rw [List.append_nil] at hsent
    exact h.sent.trans hsent.symm
  · rw [hgot]
    exact h.taken

theorem Inv.copy (h : Inv stream plain s) {d : Side}
    {answer : Answer} (hdelivers : Delivers stream plain s (.copy d answer)) :
    Inv stream plain (s.copy d answer) := by
  have hopen : ∀ chunk, s.copier d = .writing chunk → (s.conn d).closed = false := by
    intro chunk hphase
    have hflows := (h.flowing d).flows
    rw [hphase] at hflows
    exact hflows.2.closed
  have hstep := copy_cases hopen answer
  have hflowing : ∀ e, Flowing stream plain (s.copy d answer) e := by
    intro e
    rcases Side.eq_or_eq_other d e with rfl | rfl
    · exact (h.flowing _).copy hdelivers hstep
    · exact (h.flowing _).other hstep
  have hother := hstep.same.2.2
  generalize s.copy d answer = s' at *
  -- the phases before the swap have neither a flag nor a result
  have hbefore {before : Phase} (hphase : s.copier d = before)
      (hcompleted : s'.completed = s.completed)
      (hflag : flag (s'.copier d) = flag before)
      (hcut : plain = true → failure (s'.copier d) = some .closed →
        s.completed = some d.other)
      (hsent : sentResult (s'.copier d) = sentResult before) (hresults : s'.results = s.results)
      (hgot : s'.got = s.got) : Inv stream plain s' :=
    h.of_flag hflowing hother hcompleted (by rw [hflag, hphase]) hcut
      (by rw [hsent, hphase, List.append_nil]) (by rw [hresults, List.append_nil]) hgot
  cases hstep with
  | waits => exact h
  | reads hphase hchunk =>
      exact hbefore hphase rfl (by simp [read, flag]) (by simp [read, failure])
        (by simp [read, sentResult]) rfl rfl
  | ends hphase hempty hnone herr =>
      refine hbefore hphase rfl (by simp [flag]) (fun hplain hcut => ?_) (by simp [sentResult]) rfl
        rfl
      rw [copier_setPhase] at hcut
      have hclosed := (copyError_of_plain hdelivers herr hplain).2 hcut
      exact h.first_of_closed hclosed (by rw [hphase]; rfl)
  | writes hphase =>
      exact hbefore hphase rfl (by simp [write, flag]) (by simp [write, failure])
        (by simp [write, sentResult]) rfl rfl
  | @fails chunk n err hphase herr =>
      refine hbefore hphase rfl (by simp [write, flag]) (fun hplain hcut => ?_)
        (by simp [write, sentResult]) rfl rfl
      subst herr
      obtain rfl : err = .other := hdelivers hplain
      simp [write, failure] at hcut
  | swaps hphase => exact h.swaps hphase rfl hflowing
  | closes hphase =>
      refine hbefore hphase rfl (by simp [flag]) (fun hplain hcut => h.cut hplain d ?_)
        (by simp [sentResult]) rfl rfl
      rw [copier_setPhase] at hcut
      rw [hphase]
      exact hcut
  | @sends result hphase =>
      have hself : ({ s.setPhase d (.sent result) with results := s.results ++ [result] } :
          Relay).copier d = .sent result := copier_setPhase s d _
      refine h.of_flag hflowing hother rfl (by rw [hself, hphase]; rfl)
        (fun hplain hcut => h.cut hplain d ?_) (by rw [hself, hphase]; rfl) rfl rfl
      rw [hself] at hcut
      rw [hphase]
      exact hcut

theorem Inv.collect (h : Inv stream plain s) :
    Inv stream plain s.collect := by
  unfold Relay.collect
  cases hresults : s.results with
  | nil => exact h
  | cons result rest =>
      simp only
      split_ifs with htaken
      · refine ⟨fun d => ⟨(h.flowing d).source, (h.flowing d).flows⟩, h.told, h.winner, h.started,
          h.cut, ?_, ?_⟩
        · have hsent := h.sent
          rw [hresults] at hsent
          change ((s.got ++ [result]) ++ rest).Perm s.allSent
          rwa [List.append_assoc]
        · simp only [List.length_append, List.length_singleton]
          omega
      · exact h

theorem Inv.step (h : Inv stream plain s) {move : RelayMove}
    (hdelivers : Delivers stream plain s move) : Inv stream plain (s.step move) := by
  cases move with
  | copy d answer => exact h.copy hdelivers
  | collect => exact h.collect

/-! ## The result -/

/-- The result of the relay from those of the first and the second copy. -/
def outcome (first second : CopyResult) : Option CopyError :=
  if first.err = some .other then some .other
  else if first.fullyClosed then none
  else if second.err = some .other then some .other
  else none

theorem relayError_eq {err : Option CopyError} :
    relayError err = if err = some .other then some .other else none := by
  rcases err with _ | err
  · rfl
  · cases err <;> rfl

theorem relayResult_eq {first second : CopyResult} (hfirst : first.first = true)
    (hsecond : second.first = false) {got : List CopyResult}
    (hgot : got = [first, second] ∨ got = [second, first]) :
    relayResult got = some (outcome first second) := by
  have hpair : got.length = 2 ∧ got.foldl
      (fun pair result => if result.first then (result, pair.2) else (pair.1, result))
      ((⟨false, none, false⟩, ⟨false, none, false⟩) : CopyResult × CopyResult) =
        (first, second) := by
    rcases hgot with rfl | rfl <;> simp [hfirst, hsecond]
  rw [relayResult, if_pos hpair.1, hpair.2, outcome]
  simp only [relayError_eq]
  split_ifs <;> rfl

theorem eq_of_perm_pair {α : Type} {a b : α} {l : List α} (h : l.Perm [a, b]) :
    l = [a, b] ∨ l = [b, a] := by
  obtain ⟨x, y, rfl⟩ := List.length_eq_two.mp h.length_eq
  have hx : x ∈ [a, b] := h.subset List.mem_cons_self
  rcases List.mem_cons.mp hx with rfl | hx
  · have hy := List.perm_singleton.mp ((List.perm_cons x).mp h)
    exact Or.inl (by rw [hy])
  · obtain rfl := List.mem_singleton.mp hx
    have hy := List.perm_singleton.mp ((List.perm_cons x).mp (h.trans (List.Perm.swap x a [])))
    exact Or.inr (by rw [hy])

/-- Both results have been taken only when both copies have sent theirs. -/
theorem Inv.both (h : Inv stream plain s)
    (hgot : s.got.length = 2) : ∃ w first second, s.completed = some w ∧
      s.copier w = .sent first ∧ s.copier w.other = .sent second ∧ first.first = true ∧
      second.first = false ∧ (s.got = [first, second] ∨ s.got = [second, first]) := by
  have hlen := h.sent.length_eq
  rw [List.length_append, hgot] at hlen
  have hle (phase : Phase) : (sentResult phase).length ≤ 1 := by cases phase <;> simp [sentResult]
  have hmany (phase : Phase) (hone : 1 ≤ (sentResult phase).length) : ∃ r, phase = .sent r := by
    cases phase <;> first | exact ⟨_, rfl⟩ | simp [sentResult] at hone
  rw [allSent, List.length_append] at hlen
  have hin := hle (s.copier .inbound)
  have hout := hle (s.copier .outbound)
  obtain ⟨rin, hrin⟩ := hmany (s.copier .inbound) (by omega)
  obtain ⟨rout, hrout⟩ := hmany (s.copier .outbound) (by omega)
  have hresults : s.results = [] := List.eq_nil_of_length_eq_zero (by omega)
  have hperm : s.got.Perm [rin, rout] := by
    have hsent := h.sent
    rwa [hresults, List.append_nil, allSent, hrin, hrout] at hsent
  have htin := h.told .inbound rin.first (by rw [hrin]; rfl)
  have htout := h.told .outbound rout.first (by rw [hrout]; rfl)
  cases hw : s.completed with
  | none =>
      have hnone := h.started .inbound hw
      rw [hrin] at hnone
      cases hnone
  | some w =>
      rw [hw] at htin htout
      cases w with
      | inbound =>
          exact ⟨.inbound, rin, rout, rfl, hrin, hrout, by simpa using htin, by simpa using htout,
            eq_of_perm_pair hperm⟩
      | outbound =>
          exact ⟨.outbound, rout, rin, rfl, hrout, hrin, by simpa using htout, by simpa using htin,
            (eq_of_perm_pair hperm).symm⟩

/-- What the relay does with two streams, at any time. -/
structure Relays (stream : Side → Bytes) (plain : Bool) (s : Relay) : Prop where
  /-- What one end has taken is what the other has sent so far, from its beginning. -/
  written : ∀ d, (s.conn d).written <+: stream d.other
  /-- An end is closed only after the copy to it, which has lost nothing or failed. -/
  closed : ∀ d, (s.conn d).closed = true ∨ (s.conn d).writeClosed = true →
    ∃ result, (s.copier d = .finished result ∨ s.copier d = .sent result) ∧
      (s.conn d).halfClose = !result.fullyClosed ∧
      (result.err = none → (s.conn d).written = stream d.other)
  /-- The result is that of the copy that ended first, or else of the other one, unless
  that one was cut off. -/
  result : ∀ res, relayResult s.got = some res → ∃ w first second, s.completed = some w ∧
    s.copier w = .sent first ∧ s.copier w.other = .sent second ∧ res = outcome first second
  /-- Without an error, also not one that `relayError` drops, the stream that ended first has
  been copied, and the other one too if it was not cut off. -/
  whole : plain = true → relayResult s.got = some none → ∃ w, s.completed = some w ∧
    (s.conn w).written = stream w.other ∧
    ((s.conn w).halfClose = true → (s.conn w.other).written = stream w)

theorem Inv.relays (h : Inv stream plain s) : Relays stream plain s := by
  have hresult : ∀ res, relayResult s.got = some res → ∃ w first second, s.completed = some w ∧
      s.copier w = .sent first ∧ s.copier w.other = .sent second ∧ res = outcome first second := by
    intro res hres
    have hgot : s.got.length = 2 := by
      by_contra hne
      rw [relayResult, if_neg hne] at hres
      cases hres
    obtain ⟨w, first, second, hw, hfirst, hsecond, htrue, hfalse, hpair⟩ := h.both hgot
    rw [relayResult_eq htrue hfalse hpair] at hres
    exact ⟨w, first, second, hw, hfirst, hsecond, (Option.some.inj hres).symm⟩
  refine ⟨fun d => ?_, fun d hclosed => ?_, hresult, fun hplain hnone => ?_⟩
  · have hsource : (s.conn d.other).yielded <+: stream d.other :=
      (List.prefix_append _ _).trans (h.flowing d).source
    exact (h.flowing d).flows.written_of_yielded.trans hsource
  · have hflows := (h.flowing d).flows
    have hnotOpen (hopen : (s.conn d).Open) : False := by
      rcases hclosed with hclosed | hclosed
      · rw [hopen.closed] at hclosed
        cases hclosed
      · rw [hopen.writeClosed] at hclosed
        cases hclosed
    cases hphase : s.copier d with
    | finished result =>
        rw [hphase] at hflows
        exact ⟨result, Or.inl rfl, hflows.2.halfClose, hflows.1.whole⟩
    | sent result =>
        rw [hphase] at hflows
        exact ⟨result, Or.inr rfl, hflows.2.halfClose, hflows.1.whole⟩
    | _ =>
        rw [hphase] at hflows
        exact (hnotOpen hflows.2).elim
  · obtain ⟨w, first, second, hw, hfirst, hsecond, hout⟩ := hresult none hnone
    have hflows := (h.flowing w).flows
    have hback := (h.flowing w.other).flows
    rw [hfirst] at hflows
    rw [hsecond, Side.other_other] at hback
    unfold outcome at hout
    have hnone {err : Option CopyError} (hother : err ≠ some .other) (heof : err ≠ some .eof)
        (hclosed : err ≠ some .closed) : err = none := by
      rcases err with _ | err
      · rfl
      · cases err <;> contradiction
    have herr : first.err = none := by
      refine hnone (fun hother => ?_) (hflows.1.notEOF hplain) fun hclosed => ?_
      · rw [if_pos hother] at hout
        cases hout
      · have hcut := h.cut hplain w (by rw [hfirst]; exact hclosed)
        rw [hw] at hcut
        exact w.other_ne (Option.some.inj hcut).symm
    refine ⟨w, hw, hflows.1.whole herr, fun hhalf => ?_⟩
    have hfull : first.fullyClosed = false := by
      have := hflows.2.halfClose
      rw [hhalf] at this
      simpa using this.symm
    refine hback.1.whole (hnone (fun hother => ?_) (hback.1.notEOF hplain) fun hclosed => ?_)
    · simp [herr, hfull, hother] at hout
    · have hclosed := hback.1.closed hplain hclosed
      rw [hflows.2.closed, hfull] at hclosed
      cases hclosed

/-- Whatever the two ends do and however the copies take turns, the relay passes on their
streams as they are. -/
theorem relay_faithful {stream : Side → Bytes} {plain : Bool} {buffered : Bytes}
    (hbuffered : buffered <+: stream .inbound) (halfClose : Side → Bool) {moves : List RelayMove}
    (h : Allowed step (Delivers stream plain) (start buffered halfClose) moves) :
    Relays stream plain (moves.foldl step (start buffered halfClose)) :=
  (h.invariant (fun _ _ hok hinv => hinv.step hok) (inv_start hbuffered halfClose)).relays

/-- Two bytes each way, of which one was read ahead. -/
def twoBytes : Side → Bytes
  | .inbound => [1, 2]
  | .outbound => [3, 4]

/-- Both streams are copied to their ends, and the relay returns. -/
def copyingBoth : List RelayMove :=
  [.copy .outbound .accepted, .copy .inbound (.data [3]), .copy .outbound .accepted,
    .copy .outbound (.data [2]), .copy .inbound .accepted, .copy .outbound .accepted,
    .copy .outbound .eof, .copy .outbound .eof, .copy .outbound .eof, .copy .outbound .eof,
    .collect, .copy .inbound (.data [4]), .copy .inbound .accepted, .copy .inbound .eof,
    .copy .inbound .eof, .copy .inbound .eof, .copy .inbound .eof, .collect]

theorem relay_faithful_two_bytes :
    let s := copyingBoth.foldl step (start [1] fun _ => true)
    relayResult s.got = some none ∧ Relays twoBytes true s :=
  ⟨by decide, relay_faithful (by decide) _ (by decide)⟩

end Relay

end Hy2Route.Dataplane
