import Hy2Route.Foundation.Strings
import Mathlib.Tactic.Common

/-!
# Exchanges over a connection

A connection delivers a stream of bytes in pieces of any size and takes what is written.
An exchange reads and writes, and closes the connection when it fails. It follows a parser
of byte strings when it reads the stream as the parser does, however the stream is cut
into pieces: it succeeds with the parser's value and leaves the parser's rest, or fails
and the connection is closed.
-/

namespace Hy2Route.Foundation

/-- A connection: what its reads deliver, whether setting a deadline and each of its
writes succeed, and what was done to it. -/
structure Conn where
  chunks : List Bytes
  deadlines : Bool
  accepts : Nat → Bool
  written : List Bytes
  armed : Bool
  closed : Bool

namespace Conn

/-- What is still to be read. -/
def stream (conn : Conn) : Bytes := conn.chunks.flatten

/-- Setting deadlines and writing succeed, and the connection is open. -/
structure Works (conn : Conn) : Prop where
  deadlines : conn.deadlines = true
  accepts : ∀ n, conn.accepts n = true
  live : conn.closed = false

end Conn

/-- Read until there are `n` bytes, without a value when the pieces end before. -/
def readChunks : Nat → List Bytes → Option Bytes × List Bytes
  | 0, chunks => (some [], chunks)
  | _ + 1, [] => (none, [])
  | n + 1, chunk :: rest =>
      if chunk.length ≤ n + 1 then
        let (more, rest) := readChunks (n + 1 - chunk.length) rest
        (more.map (chunk ++ ·), rest)
      else (some (chunk.take (n + 1)), chunk.drop (n + 1) :: rest)
termination_by structural _ chunks => chunks

/-- Reading takes exactly the front of the stream, however it is cut. -/
theorem readChunks_spec (n : Nat) (chunks : List Bytes) :
    (n ≤ chunks.flatten.length ∧ (readChunks n chunks).1 = some (chunks.flatten.take n) ∧
      (readChunks n chunks).2.flatten = chunks.flatten.drop n) ∨
    (chunks.flatten.length < n ∧ (readChunks n chunks).1 = none) := by
  induction chunks generalizing n with
  | nil =>
      cases n with
      | zero => exact Or.inl ⟨Nat.le_refl 0, by simp [readChunks], by simp [readChunks]⟩
      | succ n => exact Or.inr ⟨Nat.succ_pos n, by simp [readChunks]⟩
  | cons chunk rest ih =>
      cases n with
      | zero => exact Or.inl ⟨Nat.zero_le _, by simp [readChunks], by simp [readChunks]⟩
      | succ n =>
          rw [List.flatten_cons, List.length_append]
          by_cases hlen : chunk.length ≤ n + 1
          · have hread : readChunks (n + 1) (chunk :: rest) =
                ((readChunks (n + 1 - chunk.length) rest).1.map (chunk ++ ·),
                  (readChunks (n + 1 - chunk.length) rest).2) := by
              rw [readChunks, if_pos hlen]
            rw [hread]
            rcases ih (n + 1 - chunk.length) with ⟨hle, hsome, hrest⟩ | ⟨hlt, hnone⟩
            · refine Or.inl ⟨by omega, ?_, ?_⟩
              · simp only [hsome, Option.map_some, List.take_append, List.take_of_length_le hlen]
              · simp only [hrest, List.drop_append, List.drop_eq_nil_of_le hlen, List.nil_append]
            · exact Or.inr ⟨by omega, by simp only [hnone, Option.map_none]⟩
          · have hread : readChunks (n + 1) (chunk :: rest) =
                (some (chunk.take (n + 1)), chunk.drop (n + 1) :: rest) := by
              rw [readChunks, if_neg hlen]
            rw [hread]
            have hle := Nat.le_of_not_le hlen
            refine Or.inl ⟨by omega, ?_, ?_⟩
            · rw [List.take_append_of_le_length hle]
            · rw [List.flatten_cons, List.drop_append_of_le_length hle]

/-! ## Exchanges -/

/-- A computation over a connection that may fail. -/
def Exchange (ε α : Type) := Conn → Except ε α × Conn

namespace Exchange

variable {ε α β : Type}

protected def pure (a : α) : Exchange ε α := fun conn => (.ok a, conn)

protected def bind (x : Exchange ε α) (f : α → Exchange ε β) : Exchange ε β := fun conn =>
  match x conn with
  | (.ok a, conn) => f a conn
  | (.error err, conn) => (.error err, conn)

instance : Monad (Exchange ε) where
  pure := Exchange.pure
  bind := Exchange.bind

/-- Close the connection and fail. -/
def fail (err : ε) : Exchange ε α := fun conn => (.error err, { conn with closed := true })

/-- Fail when the condition holds. -/
def failIf (c : Prop) [Decidable c] (err : ε) : Exchange ε Unit :=
  if c then fail err else pure ()

def write (data : Bytes) (err : ε) : Exchange ε Unit := fun conn =>
  let after := { conn with written := conn.written ++ [data] }
  if conn.accepts conn.written.length then (.ok (), after) else fail err after

def readFull (n : Nat) (err : ε) : Exchange ε Bytes := fun conn =>
  match readChunks n conn.chunks with
  | (some data, chunks) => (.ok data, { conn with chunks := chunks })
  | (none, chunks) => fail err { conn with chunks := chunks }

def setDeadline (err : ε) : Exchange ε Unit := fun conn =>
  if conn.deadlines then (.ok (), { conn with armed := true }) else fail err conn

/-- Clear the deadline when the exchange ends, also when it fails. -/
def clearingDeadline (x : Exchange ε α) : Exchange ε α := fun conn =>
  let (result, conn) := x conn
  (result, { conn with armed := false })

/-- The exchange with its errors under other names. -/
def withError {ε' : Type} (rename : ε → ε') (x : Exchange ε α) : Exchange ε' α := fun conn =>
  match x conn with
  | (.ok a, conn) => (.ok a, conn)
  | (.error err, conn) => (.error (rename err), conn)

theorem bind_of_ok {x : Exchange ε α} (f : α → Exchange ε β) {conn after : Conn} {a : α}
    (h : x conn = (.ok a, after)) : (x >>= f) conn = f a after := by
  change Exchange.bind x f conn = _
  rw [Exchange.bind, h]

theorem bind_of_error {x : Exchange ε α} (f : α → Exchange ε β) {conn after : Conn} {err : ε}
    (h : x conn = (.error err, after)) : (x >>= f) conn = (.error err, after) := by
  change Exchange.bind x f conn = _
  rw [Exchange.bind, h]

theorem bind_eq_ok {x : Exchange ε α} {f : α → Exchange ε β} {conn after : Conn} {b : β}
    (h : (x >>= f) conn = (.ok b, after)) :
    ∃ a middle, x conn = (.ok a, middle) ∧ f a middle = (.ok b, after) := by
  change Exchange.bind x f conn = _ at h
  unfold Exchange.bind at h
  split at h
  · rename_i a middle hfirst
    exact ⟨a, middle, hfirst, h⟩
  · cases h

/-- Whenever the exchange fails the connection is closed. -/
def Closes (x : Exchange ε α) : Prop :=
  ∀ conn err after, x conn = (.error err, after) → after.closed = true

/-- Over a connection that works the exchange reads the stream as the parser does. -/
def Follows (x : Exchange ε α) (parser : Bytes → Option (α × Bytes)) : Prop :=
  ∀ conn : Conn, conn.Works → match parser conn.stream with
    | some (a, rest) => ∃ after, x conn = (.ok a, after) ∧ after.Works ∧ after.stream = rest
    | none => ∃ err after, x conn = (.error err, after)

theorem Closes.pure (a : α) : Closes (pure a : Exchange ε α) := by
  intro conn err after h
  cases h

theorem Closes.fail (err : ε) : Closes (fail err : Exchange ε α) := by
  intro conn err' after h
  cases h
  rfl

theorem Closes.failIf (c : Prop) [Decidable c] (err : ε) : Closes (failIf c err) := by
  unfold Exchange.failIf
  split_ifs
  · exact .fail err
  · exact .pure ()

theorem Closes.bind {x : Exchange ε α} {f : α → Exchange ε β} (hx : Closes x)
    (hf : ∀ a, Closes (f a)) : Closes (x >>= f) := by
  intro conn err after h
  change Exchange.bind x f conn = _ at h
  unfold Exchange.bind at h
  cases hresult : x conn with
  | mk result next =>
      rw [hresult] at h
      cases result with
      | ok a => exact hf a next err after h
      | error err' =>
          cases h
          exact hx conn err _ hresult

theorem Closes.write (data : Bytes) (err : ε) : Closes (write data err) := by
  intro conn err' after h
  simp only [Exchange.write] at h
  split_ifs at h
  · cases h
  · exact Closes.fail err _ _ _ h

theorem Closes.readFull (n : Nat) (err : ε) : Closes (readFull n err) := by
  intro conn err' after h
  simp only [Exchange.readFull] at h
  split at h
  · cases h
  · exact Closes.fail err _ _ _ h

theorem Closes.setDeadline (err : ε) : Closes (setDeadline err) := by
  intro conn err' after h
  simp only [Exchange.setDeadline] at h
  split_ifs at h
  · cases h
  · exact Closes.fail err _ _ _ h

theorem Closes.clearingDeadline {x : Exchange ε α} (h : Closes x) :
    Closes (clearingDeadline x) := by
  intro conn err after heq
  cases hx : x conn with
  | mk result next =>
      simp only [Exchange.clearingDeadline, hx, Prod.mk.injEq] at heq
      obtain ⟨rfl, rfl⟩ := heq
      exact h conn err next hx

theorem Closes.withError {ε' : Type} {x : Exchange ε α} (h : Closes x) (rename : ε → ε') :
    Closes (withError rename x) := by
  intro conn err after heq
  cases hx : x conn with
  | mk result next =>
      cases result with
      | ok a => simp [Exchange.withError, hx] at heq
      | error err' =>
          simp only [Exchange.withError, hx, Prod.mk.injEq] at heq
          obtain ⟨-, rfl⟩ := heq
          exact h conn err' next hx

/-! ## Following a parser -/

theorem Follows.pure (a : α) : Follows (pure a : Exchange ε α) fun s => some (a, s) :=
  fun conn hworks => ⟨conn, rfl, hworks, rfl⟩

theorem Follows.fail (err : ε) : Follows (fail err : Exchange ε α) fun _ => none :=
  fun conn _ => ⟨err, { conn with closed := true }, rfl⟩

theorem Follows.bind {x : Exchange ε α} {f : α → Exchange ε β}
    {parser : Bytes → Option (α × Bytes)} {next : α → Bytes → Option (β × Bytes)}
    (hx : Follows x parser) (hf : ∀ a, Follows (f a) (next a)) :
    Follows (x >>= f) fun s => (parser s).bind fun (a, rest) => next a rest := by
  intro conn hworks
  have hfirst := hx conn hworks
  change match (parser conn.stream).bind fun (a, rest) => next a rest with
    | some (a, rest) => ∃ after, Exchange.bind x f conn = (.ok a, after) ∧ after.Works ∧
        after.stream = rest
    | none => ∃ err after, Exchange.bind x f conn = (.error err, after)
  cases hparser : parser conn.stream with
  | none =>
      rw [hparser] at hfirst
      obtain ⟨err, after, heq⟩ := hfirst
      exact ⟨err, after, by rw [Exchange.bind, heq]⟩
  | some result =>
      obtain ⟨a, rest⟩ := result
      rw [hparser] at hfirst
      obtain ⟨middle, heq, hmiddle, rfl⟩ := hfirst
      have hsecond := hf a middle hmiddle
      have hbind : Exchange.bind x f conn = f a middle := by rw [Exchange.bind, heq]
      rw [Option.bind_some, hbind]
      exact hsecond

theorem Follows.failIf (c : Prop) [Decidable c] (err : ε) :
    Follows (failIf c err) fun s => if c then none else some ((), s) := by
  unfold Exchange.failIf
  split_ifs
  · exact .fail err
  · exact .pure ()

theorem Follows.write (data : Bytes) (err : ε) :
    Follows (write data err) fun s => some ((), s) := by
  intro conn hworks
  refine ⟨{ conn with written := conn.written ++ [data] }, ?_, ⟨?_, ?_, ?_⟩, rfl⟩
  · simp only [Exchange.write, hworks.accepts, if_true]
  · exact hworks.deadlines
  · exact hworks.accepts
  · exact hworks.live

theorem Follows.setDeadline (err : ε) : Follows (setDeadline err) fun s => some ((), s) := by
  intro conn hworks
  refine ⟨{ conn with armed := true }, ?_, ⟨?_, ?_, ?_⟩, rfl⟩
  · simp only [Exchange.setDeadline, hworks.deadlines, if_true]
  · exact hworks.deadlines
  · exact hworks.accepts
  · exact hworks.live

/-- Exactly the given number of bytes from the front. -/
def takeExactly (n : Nat) (s : Bytes) : Option (Bytes × Bytes) :=
  if n ≤ s.length then some (s.take n, s.drop n) else none

theorem Follows.readFull (n : Nat) (err : ε) : Follows (readFull n err) (takeExactly n) := by
  intro conn hworks
  cases hread : readChunks n conn.chunks with
  | mk result chunks =>
      have hspec := readChunks_spec n conn.chunks
      rw [hread] at hspec
      rcases hspec with ⟨hle, rfl, hrest⟩ | ⟨hlt, rfl⟩
      · have htake : takeExactly n conn.stream =
            some (conn.stream.take n, conn.stream.drop n) := if_pos hle
        rw [htake]
        refine ⟨{ conn with chunks := chunks }, by simp only [Exchange.readFull, hread]; rfl,
          ⟨hworks.deadlines, hworks.accepts, hworks.live⟩, hrest⟩
      · have htake : takeExactly n conn.stream = none := if_neg (Nat.not_le.mpr hlt)
        rw [htake]
        exact ⟨err, _, by simp only [Exchange.readFull, hread]; rfl⟩

theorem Follows.clearingDeadline {x : Exchange ε α} {parser : Bytes → Option (α × Bytes)}
    (h : Follows x parser) : Follows (clearingDeadline x) parser := by
  intro conn hworks
  have hx := h conn hworks
  split at hx
  · obtain ⟨after, heq, hafter, hstream⟩ := hx
    exact ⟨{ after with armed := false }, by simp only [Exchange.clearingDeadline, heq],
      ⟨hafter.deadlines, hafter.accepts, hafter.live⟩, hstream⟩
  · obtain ⟨err, after, heq⟩ := hx
    exact ⟨err, { after with armed := false }, by simp only [Exchange.clearingDeadline, heq]⟩

theorem Follows.withError {ε' : Type} {x : Exchange ε α} {parser : Bytes → Option (α × Bytes)}
    (h : Follows x parser) (rename : ε → ε') : Follows (withError rename x) parser := by
  intro conn hworks
  have hx := h conn hworks
  split at hx
  · obtain ⟨after, heq, hafter⟩ := hx
    exact ⟨after, by simp only [Exchange.withError, heq], hafter⟩
  · obtain ⟨err, after, heq⟩ := hx
    exact ⟨rename err, after, by simp only [Exchange.withError, heq]⟩

/-! ## Accepting a grammar -/

/-- Over a connection that works the exchange succeeds with a value exactly when the
grammar derives the value from the front of the stream, and leaves the rest. -/
def Accepts (x : Exchange ε α) (grammar : α → Bytes → Bytes → Prop) : Prop :=
  ∃ parser, Follows x parser ∧ ∀ s a rest, parser s = some (a, rest) ↔ grammar a s rest

section Accepts

variable {x : Exchange ε α} {f : α → Exchange ε β} {grammar : α → Bytes → Bytes → Prop}

theorem Accepts.congr {grammar' : α → Bytes → Bytes → Prop} (h : Accepts x grammar)
    (hiff : ∀ a s rest, grammar a s rest ↔ grammar' a s rest) : Accepts x grammar' := by
  obtain ⟨parser, hfollows, hparser⟩ := h
  exact ⟨parser, hfollows, fun s a rest => (hparser s a rest).trans (hiff a s rest)⟩

theorem Accepts.pure (a : α) :
    Accepts (pure a : Exchange ε α) fun a' s rest => a' = a ∧ s = rest := by
  refine ⟨_, .pure a, fun s a' rest => ?_⟩
  rw [Option.some.injEq, Prod.mk.injEq, eq_comm]

theorem Accepts.fail (err : ε) : Accepts (fail err : Exchange ε α) fun _ _ _ => False :=
  ⟨_, .fail err, fun _ _ _ => by simp⟩

theorem Accepts.failIf (c : Prop) [Decidable c] (err : ε) :
    Accepts (failIf c err) fun _ s rest => ¬ c ∧ s = rest := by
  refine ⟨_, .failIf c err, fun s a rest => ?_⟩
  split_ifs with hc
  · simp [hc]
  · simp [hc]

theorem Accepts.ite {y : Exchange ε α} {grammar' : α → Bytes → Bytes → Prop} (c : Prop)
    [Decidable c] (hx : Accepts x grammar) (hy : Accepts y grammar') :
    Accepts (if c then x else y) fun a s rest =>
      c ∧ grammar a s rest ∨ ¬ c ∧ grammar' a s rest := by
  split_ifs with hc
  · exact hx.congr fun a s rest => by simp [hc]
  · exact hy.congr fun a s rest => by simp [hc]

theorem Accepts.write (data : Bytes) (err : ε) :
    Accepts (write data err) fun _ s rest => s = rest :=
  ⟨_, .write data err, fun _ _ _ => by simp⟩

theorem Accepts.setDeadline (err : ε) : Accepts (setDeadline err) fun _ s rest => s = rest :=
  ⟨_, .setDeadline err, fun _ _ _ => by simp⟩

theorem Accepts.readFull (n : Nat) (err : ε) :
    Accepts (readFull n err) fun data s rest => data.length = n ∧ s = data ++ rest := by
  refine ⟨_, .readFull n err, fun s data rest => ?_⟩
  unfold takeExactly
  constructor
  · intro h
    split_ifs at h with hle
    obtain ⟨rfl, rfl⟩ := Prod.mk.injEq _ _ _ _ ▸ Option.some.inj h
    exact ⟨by rw [List.length_take]; omega, (List.take_append_drop n s).symm⟩
  · rintro ⟨hlen, rfl⟩
    rw [if_pos (by rw [List.length_append]; omega), List.take_left' hlen, List.drop_left' hlen]

theorem Accepts.bind {next : α → β → Bytes → Bytes → Prop} (hx : Accepts x grammar)
    (hf : ∀ a, Accepts (f a) (next a)) :
    Accepts (x >>= f) fun b s rest => ∃ a middle, grammar a s middle ∧ next a b middle rest := by
  obtain ⟨parser, hfollows, hparser⟩ := hx
  choose parsers hfollows' hparsers using hf
  refine ⟨_, hfollows.bind hfollows', fun s b rest => ?_⟩
  rw [Option.bind_eq_some_iff]
  constructor
  · rintro ⟨⟨a, middle⟩, hfirst, hsecond⟩
    exact ⟨a, middle, (hparser s a middle).mp hfirst, (hparsers a middle b rest).mp hsecond⟩
  · rintro ⟨a, middle, hfirst, hsecond⟩
    exact ⟨(a, middle), (hparser s a middle).mpr hfirst, (hparsers a middle b rest).mpr hsecond⟩

theorem Accepts.clearingDeadline (h : Accepts x grammar) :
    Accepts (clearingDeadline x) grammar := by
  obtain ⟨parser, hfollows, hparser⟩ := h
  exact ⟨parser, hfollows.clearingDeadline, hparser⟩

theorem Accepts.withError {ε' : Type} (h : Accepts x grammar) (rename : ε → ε') :
    Accepts (withError rename x) grammar := by
  obtain ⟨parser, hfollows, hparser⟩ := h
  exact ⟨parser, hfollows.withError rename, hparser⟩

/-- The grammar of an exchange derives one value from a stream. -/
theorem Accepts.unique (h : Accepts x grammar) {s rest rest' : Bytes} {a b : α}
    (ha : grammar a s rest) (hb : grammar b s rest') : a = b ∧ rest = rest' := by
  obtain ⟨parser, -, hparser⟩ := h
  have heq := ((hparser s a rest).mpr ha).symm.trans ((hparser s b rest').mpr hb)
  exact Prod.mk.injEq _ _ _ _ ▸ Option.some.inj heq

/-- The exchange succeeds exactly when the grammar derives something. -/
theorem Accepts.ok_iff (h : Accepts x grammar) {conn : Conn} (hworks : conn.Works) :
    (∃ a after, x conn = (.ok a, after)) ↔ ∃ a rest, grammar a conn.stream rest := by
  obtain ⟨parser, hfollows, hparser⟩ := h
  have hconn := hfollows conn hworks
  constructor
  · rintro ⟨a, after, heq⟩
    split at hconn
    · rename_i a' rest hsome
      exact ⟨a', rest, (hparser _ _ _).mp hsome⟩
    · obtain ⟨err, after', heq'⟩ := hconn
      rw [heq] at heq'
      cases heq'
  · rintro ⟨a, rest, hgrammar⟩
    rw [(hparser _ _ _).mpr hgrammar] at hconn
    obtain ⟨after, heq, -⟩ := hconn
    exact ⟨a, after, heq⟩

/-- An exchange that succeeds has read its value from the stream. -/
theorem Accepts.derives (h : Accepts x grammar) {conn after : Conn} (hworks : conn.Works) {a : α}
    (heq : x conn = (.ok a, after)) : grammar a conn.stream after.stream ∧ after.Works := by
  obtain ⟨parser, hfollows, hparser⟩ := h
  have hconn := hfollows conn hworks
  split at hconn
  · rename_i a' rest hsome
    obtain ⟨after', heq', hafter, rfl⟩ := hconn
    rw [heq] at heq'
    cases heq'
    exact ⟨(hparser _ _ _).mp hsome, hafter⟩
  · obtain ⟨err, after', heq'⟩ := hconn
    rw [heq] at heq'
    cases heq'

/-- An exchange that succeeds leaves what the grammar leaves. -/
theorem Accepts.rest (h : Accepts x grammar) {conn after : Conn} (hworks : conn.Works) {a : α}
    (heq : x conn = (.ok a, after)) (b : α) {rest : Bytes} (hgrammar : grammar b conn.stream rest) :
    after.Works ∧ after.stream = rest := by
  obtain ⟨parser, hfollows, hparser⟩ := h
  have hconn := hfollows conn hworks
  rw [(hparser _ _ _).mpr hgrammar] at hconn
  obtain ⟨after', heq', hafter, hrest⟩ := hconn
  rw [heq] at heq'
  cases heq'
  exact ⟨hafter, hrest⟩

end Accepts

end Exchange

end Hy2Route.Foundation
