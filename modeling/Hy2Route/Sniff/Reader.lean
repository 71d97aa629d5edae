import Hy2Route.Foundation.Binary

/-!
# Buffered readers

A connection is the list of what its reads deliver. A buffered reader can be looked into,
read in pieces and read by lines, and nothing of the stream is lost or comes twice however
these are mixed.
-/

namespace Hy2Route.Sniff

open Foundation

/-- What the reads of a connection deliver before its end; no read is empty. -/
structure Conn where
  chunks : List Bytes
  nonempty : ∀ chunk ∈ chunks, chunk ≠ []

namespace Conn

def stream (conn : Conn) : Bytes := conn.chunks.flatten

/-- One read of at most `room` bytes, without a value at the end. -/
def read (conn : Conn) (room : Nat) : Option (Bytes × Conn) :=
  match conn with
  | ⟨[], _⟩ => none
  | ⟨chunk :: rest, h⟩ =>
      if hroom : chunk.length ≤ room then
        some (chunk, ⟨rest, fun c hc => h c (List.mem_cons_of_mem chunk hc)⟩)
      else
        some (chunk.take room, ⟨chunk.drop room :: rest, by
          refine List.forall_mem_cons.mpr ⟨?_, fun c hc => h c (List.mem_cons_of_mem chunk hc)⟩
          rw [ne_eq, List.drop_eq_nil_iff]
          exact hroom⟩)

/-- A read with room takes bytes from the front of the stream, and fails at its end only. -/
theorem read_cases (conn : Conn) {room : Nat} (hroom : 0 < room) :
    (conn.read room = none ∧ conn.stream = []) ∨
      ∃ got after, conn.read room = some (got, after) ∧ got ≠ [] ∧ got.length ≤ room ∧
        conn.stream = got ++ after.stream := by
  obtain ⟨chunks, hne⟩ := conn
  cases chunks with
  | nil => exact Or.inl ⟨rfl, rfl⟩
  | cons chunk rest =>
      right
      have hchunk := hne chunk List.mem_cons_self
      rw [read]
      split_ifs with hlen
      · exact ⟨_, _, rfl, hchunk, hlen, rfl⟩
      · refine ⟨_, _, rfl, ?_, List.length_take_le _ _, ?_⟩
        · simpa [List.take_eq_nil_iff, hchunk] using hroom.ne'
        · simp [stream, ← List.append_assoc, List.take_append_drop]

end Conn

/-- A buffered reader: the size of its buffer, what is buffered, whether the end of
the connection was met and not yet reported, and the connection. -/
structure Reader where
  size : Nat
  buffered : Bytes
  eof : Bool
  conn : Conn

namespace Reader

/-- A buffer has at least 16 bytes. -/
def new (conn : Conn) (size : Nat) : Reader := ⟨max size 16, [], false, conn⟩

/-- What is still to be read. -/
def content (r : Reader) : Bytes := r.buffered ++ r.conn.stream

/-- Read once into the rest of the buffer. -/
def fill (r : Reader) : Reader :=
  match r.conn.read (r.size - r.buffered.length) with
  | none => { r with eof := true }
  | some (got, conn) => { r with buffered := r.buffered ++ got, conn := conn }

/-- A bound on the reads before the end. -/
def pending (r : Reader) : Nat := r.conn.stream.length + if r.eof then 0 else 1

theorem fill_cases (r : Reader) (hroom : r.buffered.length < r.size) :
    (r.fill = { r with eof := true } ∧ r.conn.stream = []) ∨
      ∃ got after, r.fill = { r with buffered := r.buffered ++ got, conn := after } ∧ got ≠ [] ∧
        r.buffered.length + got.length ≤ r.size ∧ r.conn.stream = got ++ after.stream := by
  rcases r.conn.read_cases (Nat.sub_pos_of_lt hroom) with ⟨hread, hend⟩ |
    ⟨got, after, hread, hne, hlen, hstream⟩
  · exact Or.inl ⟨by rw [fill, hread], hend⟩
  · exact Or.inr ⟨got, after, by rw [fill, hread], hne, by omega, hstream⟩

theorem pending_fill {r : Reader} (hroom : r.buffered.length < r.size) (heof : r.eof = false) :
    r.fill.pending < r.pending := by
  rcases r.fill_cases hroom with ⟨hfill, -⟩ | ⟨got, after, hfill, hne, -, hstream⟩
  · simp [hfill, pending, heof]
  · have hpos := List.length_pos_iff.mpr hne
    simp only [hfill, pending, heof, hstream, List.length_append, Bool.false_eq_true, if_false]
    omega

/-- Fill the buffer until it has `n` bytes, is full or met the end. -/
def await (r : Reader) (n : Nat) : Reader :=
  if _h : r.buffered.length < n ∧ r.buffered.length < r.size ∧ r.eof = false then r.fill.await n
  else r
termination_by r.pending
decreasing_by exact pending_fill _h.2.1 _h.2.2

/-- The next `n` bytes without taking them, and whether there were fewer. -/
def peek (r : Reader) (n : Nat) : Bytes × Bool × Reader :=
  let r := r.await n
  if r.size < n then (r.buffered, true, r)
  else if r.buffered.length < n then (r.buffered, true, { r with eof := false })
  else (r.buffered.take n, false, r)

/-- Read at most `n` bytes, without a value at the end. -/
def read (r : Reader) (n : Nat) : Option Bytes × Reader :=
  if n = 0 then
    if r.buffered = [] ∧ r.eof then (none, { r with eof := false }) else (some [], r)
  else if r.buffered = [] then
    if r.eof then (none, { r with eof := false })
    else if r.size ≤ n then
      match r.conn.read n with
      | none => (none, r)
      | some (got, conn) => (some got, { r with conn := conn })
    else match r.conn.read r.size with
      | none => (none, r)
      | some (got, conn) => (some (got.take n), { r with buffered := got.drop n, conn := conn })
  else (some (r.buffered.take n), { r with buffered := r.buffered.drop n })

end Reader

/-! ## Nothing is lost -/

namespace Reader

/-- A reader with a buffer of the size that has still to deliver the bytes. -/
structure Holds (r : Reader) (size : Nat) (s : Bytes) : Prop where
  size_eq : r.size = size
  fits : r.buffered.length ≤ size
  ended : r.eof = true → r.conn.stream = []
  content_eq : r.content = s

variable {r : Reader} {size : Nat} {s : Bytes}

theorem holds_new (conn : Conn) (size : Nat) : (new conn size).Holds (max size 16) conn.stream :=
  ⟨rfl, Nat.zero_le _, by simp [new], rfl⟩

theorem Holds.fill (h : r.Holds size s) (hroom : r.buffered.length < r.size) :
    r.fill.Holds size s := by
  rcases r.fill_cases hroom with ⟨hfill, hend⟩ | ⟨got, after, hfill, -, hlen, hstream⟩
  · rw [hfill]
    exact ⟨h.size_eq, h.fits, fun _ => hend, h.content_eq⟩
  · rw [hfill]
    refine ⟨h.size_eq, ?_, fun heof => ?_, ?_⟩
    · rw [List.length_append, ← h.size_eq]
      exact hlen
    · have hnil := h.ended heof
      rw [hstream, List.append_eq_nil_iff] at hnil
      exact hnil.2
    · rw [← h.content_eq, content, content, hstream, List.append_assoc]

/-- The buffer has what was asked for, or all there is. -/
theorem Holds.await (h : r.Holds size s) {n : Nat} (hn : n ≤ size) :
    (r.await n).Holds size s ∧
      (n ≤ (r.await n).buffered.length ∨ (r.await n).conn.stream = []) := by
  induction hpending : r.pending using Nat.strongRecOn generalizing r with
  | ind p ih =>
      rw [Reader.await]
      split_ifs with hmore
      · exact ih _ (hpending ▸ pending_fill hmore.2.1 hmore.2.2) (h.fill hmore.2.1) rfl
      · refine ⟨h, ?_⟩
        rw [h.size_eq] at hmore
        cases heof : r.eof with
        | true => exact Or.inr (h.ended heof)
        | false =>
            left
            by_contra hlt
            exact hmore ⟨by omega, by omega, heof⟩

/-- Peeking shows the next bytes, or all there are, and takes none. -/
theorem Holds.peek (h : r.Holds size s) {n : Nat} (hn : n ≤ size) :
    ∃ after : Reader, r.peek n = (s.take n, decide (s.length < n), after) ∧ after.Holds size s := by
  obtain ⟨hholds, henough⟩ := h.await hn
  have hcontent : (r.await n).buffered ++ (r.await n).conn.stream = s := hholds.content_eq
  unfold Reader.peek
  simp only [hholds.size_eq, if_neg (Nat.not_lt.mpr hn)]
  split_ifs with hshort
  · have hend : (r.await n).conn.stream = [] := henough.resolve_left (by omega)
    rw [hend, List.append_nil] at hcontent
    rw [hcontent] at hshort
    refine ⟨⟨size, s, false, (r.await n).conn⟩, ?_, rfl, ?_, by simp, ?_⟩
    · rw [hcontent, List.take_of_length_le (by omega), decide_eq_true hshort]
    · exact hcontent ▸ hholds.fits
    · rw [content, hend, List.append_nil]
  · have hlong : ¬ s.length < n := by
      rw [← hcontent, List.length_append]
      omega
    refine ⟨r.await n, ?_, hholds⟩
    rw [decide_eq_false hlong, ← hcontent, List.take_append_of_le_length (by omega)]

/-- A read takes bytes from the front, at least one of them before the end. -/
theorem Holds.read (h : r.Holds size s) (hsize : 0 < size) {n : Nat} (hn : 0 < n) :
    (s = [] ∧ ∃ after : Reader, r.read n = (none, after) ∧ after.Holds size []) ∨
      ∃ got rest, ∃ after : Reader, s = got ++ rest ∧ got ≠ [] ∧ r.read n = (some got, after) ∧
        after.Holds size rest := by
  obtain ⟨rsize, buffered, eof, conn⟩ := r
  obtain ⟨rfl, hfits, hended, rfl⟩ := h
  have hn0 : n ≠ 0 := hn.ne'
  by_cases hbuffered : buffered = []
  · subst hbuffered
    -- The end of the connection is met, now or before.
    have hstop : conn.stream = [] → Holds ⟨rsize, [], false, conn⟩ rsize [] := fun hend =>
      ⟨rfl, hfits, by simp, by simp [content, hend]⟩
    cases eof with
    | true =>
        have hend : conn.stream = [] := hended rfl
        exact Or.inl ⟨by simp [content, hend], _, by simp [Reader.read, hn0], hstop hend⟩
    | false =>
        by_cases hlarge : rsize ≤ n
        · rcases conn.read_cases hn with ⟨hread, hend⟩ | ⟨got, after, hread, hne, -, hstream⟩
          · exact Or.inl ⟨by simp [content, hend], _,
              by simp [Reader.read, hn0, hlarge, hread], hstop hend⟩
          · refine Or.inr ⟨got, after.stream, ⟨rsize, [], false, after⟩, ?_, hne, ?_, ?_⟩
            · simpa [content] using hstream
            · simp [Reader.read, hn0, hlarge, hread]
            · exact ⟨rfl, hfits, by simp, rfl⟩
        · rcases conn.read_cases hsize with ⟨hread, hend⟩ | ⟨got, after, hread, hne, hlen, hstream⟩
          · exact Or.inl ⟨by simp [content, hend], _,
              by simp [Reader.read, hn0, hlarge, hread], hstop hend⟩
          · refine Or.inr ⟨got.take n, got.drop n ++ after.stream,
              ⟨rsize, got.drop n, false, after⟩, ?_, ?_, ?_, ?_⟩
            · rw [← List.append_assoc, List.take_append_drop]
              simpa [content] using hstream
            · simp [List.take_eq_nil_iff, hne, hn0]
            · simp [Reader.read, hn0, hlarge, hread]
            · refine ⟨rfl, ?_, by simp, rfl⟩
              rw [List.length_drop]
              exact Nat.le_trans (Nat.sub_le _ _) hlen
  · refine Or.inr ⟨buffered.take n, buffered.drop n ++ conn.stream,
      ⟨rsize, buffered.drop n, eof, conn⟩, ?_, ?_, ?_, ?_⟩
    · rw [← List.append_assoc, List.take_append_drop]
      rfl
    · simp [List.take_eq_nil_iff, hbuffered, hn0]
    · simp [Reader.read, hn0, hbuffered]
    · refine ⟨rfl, ?_, hended, rfl⟩
      rw [List.length_drop]
      exact Nat.le_trans (Nat.sub_le _ _) hfits

/-- Reads of the given sizes, one after the other. -/
def reads (r : Reader) : List Nat → Bytes × Reader
  | [] => ([], r)
  | n :: sizes =>
      let (got, r) := r.read n
      let (rest, r) := r.reads sizes
      (got.getD [] ++ rest, r)

/-- Reads deliver the bytes in order, and after as many reads as there are bytes
nothing is left. -/
theorem Holds.reads (h : r.Holds size s) (hsize : 0 < size) {sizes : List Nat}
    (hpos : ∀ n ∈ sizes, 0 < n) :
    ∃ rest, s = (r.reads sizes).1 ++ rest ∧ (r.reads sizes).2.Holds size rest ∧
      (s.length ≤ sizes.length → rest = []) := by
  induction sizes generalizing r s with
  | nil => exact ⟨s, rfl, h, fun hlen => List.length_eq_zero_iff.mp (Nat.le_zero.mp hlen)⟩
  | cons n sizes ih =>
      obtain ⟨hn, hsizes⟩ := List.forall_mem_cons.mp hpos
      rcases h.read hsize hn with ⟨rfl, after, hread, hafter⟩ |
        ⟨got, left, after, rfl, hne, hread, hafter⟩
      · obtain ⟨rest, hrest, hholds, -⟩ := ih hafter hsizes
        obtain ⟨hgot, hnil⟩ := List.append_eq_nil_iff.mp hrest.symm
        refine ⟨rest, ?_, ?_, fun _ => hnil⟩
        · simp [Reader.reads, hread, hgot, hnil]
        · simpa [Reader.reads, hread] using hholds
      · obtain ⟨rest, hrest, hholds, hall⟩ := ih hafter hsizes
        have hlen := List.length_pos_iff.mpr hne
        refine ⟨rest, ?_, ?_, fun hle => hall ?_⟩
        · simp [Reader.reads, hread, ← hrest]
        · simpa [Reader.reads, hread] using hholds
        · rw [List.length_append, List.length_cons] at hle
          omega

/-! ## Lines -/

/-- How a search in the buffer ended. -/
inductive SliceEnd where
  | found
  | ended
  | full

/-- Read up to and with the delimiter, or all there is, or a whole buffer. -/
def readSlice (delim : UInt8) (r : Reader) : Bytes × SliceEnd × Reader :=
  let after := r.buffered.idxOf delim + 1
  if delim ∈ r.buffered then
    (r.buffered.take after, .found, { r with buffered := r.buffered.drop after })
  else if _heof : r.eof = true then (r.buffered, .ended, { r with buffered := [], eof := false })
  else if _hfull : r.size ≤ r.buffered.length then (r.buffered, .full, { r with buffered := [] })
  else r.fill.readSlice delim
termination_by r.pending
decreasing_by exact pending_fill (Nat.lt_of_not_le _hfull) (Bool.eq_false_of_not_eq_true _heof)

/-- Put the slices together, at most so many of them. -/
def collectFragments (delim : UInt8) : Nat → Reader → Bytes × Bool × Reader
  | 0, r => ([], false, r)
  | fragments + 1, r =>
      match r.readSlice delim with
      | (line, .found, r) => (line, true, r)
      | (line, .ended, r) => (line, false, r)
      | (line, .full, r) =>
          let (more, whole, r) := collectFragments delim fragments r
          (line ++ more, whole, r)

/-- Read up to and with the delimiter, and whether it was there. A full buffer takes bytes
from the content, so there are not more slices than bytes. -/
def readString (delim : UInt8) (r : Reader) : Bytes × Bool × Reader :=
  collectFragments delim (r.content.length + 1) r

section Lines

variable (delim : UInt8)

theorem take_idxOf_append {line : Bytes} (h : delim ∉ line) (rest : Bytes) :
    (line ++ delim :: rest).take ((line ++ delim :: rest).idxOf delim + 1) = line ++ [delim] ∧
      (line ++ delim :: rest).drop ((line ++ delim :: rest).idxOf delim + 1) = rest := by
  have hindex : (line ++ delim :: rest).idxOf delim = line.length := by
    rw [List.idxOf_append_of_notMem h, List.idxOf_cons_self, Nat.add_zero]
  have hsplit : line ++ delim :: rest = (line ++ [delim]) ++ rest := by simp
  have hlength : line.length + 1 = (line ++ [delim]).length := by simp
  rw [hindex, hsplit, hlength]
  exact ⟨List.take_left, List.drop_left⟩

/-- A slice is a line, or the rest of the content, or a buffer of it. -/
theorem Holds.readSlice (h : r.Holds size s) :
    ∃ after : Reader,
      (∃ line rest, s = line ++ delim :: rest ∧ delim ∉ line ∧
        r.readSlice delim = (line ++ [delim], .found, after) ∧ after.Holds size rest) ∨
      (delim ∉ s ∧ r.readSlice delim = (s, .ended, after) ∧ after.Holds size []) ∨
      ∃ front rest, s = front ++ rest ∧ delim ∉ front ∧ front.length = size ∧
        r.readSlice delim = (front, .full, after) ∧ after.Holds size rest := by
  induction hpending : r.pending using Nat.strongRecOn generalizing r with
  | ind p ih =>
      rw [Reader.readSlice]
      by_cases hmem : delim ∈ r.buffered
      · obtain ⟨line, left, hbuffered, hline⟩ := List.eq_append_cons_of_mem hmem
        obtain ⟨htake, hdrop⟩ := take_idxOf_append delim hline left
        refine ⟨{ r with buffered := left }, Or.inl ⟨line, left ++ r.conn.stream, ?_, hline, ?_,
          h.size_eq, ?_, h.ended, rfl⟩⟩
        · rw [← h.content_eq, content, hbuffered, List.append_assoc, List.cons_append]
        · rw [if_pos hmem, hbuffered, htake, hdrop]
        · have hfits := h.fits
          rw [hbuffered, List.length_append, List.length_cons] at hfits
          exact Nat.le_trans (by simp only; omega) hfits
      · rw [if_neg hmem]
        split_ifs with heof hfull
        · have hall : r.buffered = s := by
            rw [← h.content_eq, content, h.ended heof, List.append_nil]
          exact ⟨{ r with buffered := [], eof := false }, Or.inr (Or.inl ⟨hall ▸ hmem,
            congrArg (·, _, _) hall, h.size_eq, Nat.zero_le _, by simp, h.ended heof⟩)⟩
        · refine ⟨{ r with buffered := [] }, Or.inr (Or.inr ⟨r.buffered, r.conn.stream,
            h.content_eq.symm, hmem, ?_, rfl, h.size_eq, Nat.zero_le _, h.ended, rfl⟩)⟩
          exact Nat.le_antisymm h.fits (h.size_eq ▸ hfull)
        · have hroom := Nat.lt_of_not_le hfull
          exact ih _ (hpending ▸ pending_fill hroom (Bool.eq_false_of_not_eq_true heof))
            (h.fill hroom) rfl

/-- A line is read to its end however it arrives and however long it is. -/
theorem Holds.readString (h : r.Holds size s) (hsize : 0 < size) :
    ∃ after : Reader,
      (∃ line rest, s = line ++ delim :: rest ∧ delim ∉ line ∧
        r.readString delim = (line ++ [delim], true, after) ∧ after.Holds size rest) ∨
      (delim ∉ s ∧ r.readString delim = (s, false, after) ∧ after.Holds size []) := by
  unfold Reader.readString
  rw [h.content_eq]
  -- One slice more than there are bytes is enough: the induction is on the slices.
  generalize hfragments : s.length + 1 = fragments
  replace hfragments : s.length < fragments := by omega
  induction fragments generalizing r s with
  | zero => exact absurd hfragments (Nat.not_lt_zero _)
  | succ fragments ih =>
      rw [collectFragments]
      obtain ⟨after, ⟨line, rest, rfl, hline, hslice, hafter⟩ | ⟨hnot, hslice, hafter⟩ |
        ⟨front, rest, rfl, hfront, hlength, hslice, hafter⟩⟩ := h.readSlice delim
      · rw [hslice]
        exact ⟨after, Or.inl ⟨line, rest, rfl, hline, rfl, hafter⟩⟩
      · rw [hslice]
        exact ⟨after, Or.inr ⟨hnot, rfl, hafter⟩⟩
      · rw [hslice]
        rw [List.length_append] at hfragments
        obtain ⟨last, ⟨line, left, rfl, hline, hmore, hlast⟩ | ⟨hnot, hmore, hlast⟩⟩ :=
          ih hafter (by omega)
        · refine ⟨last, Or.inl ⟨front ++ line, left, ?_, ?_, ?_, hlast⟩⟩
          · rw [List.append_assoc]
          · simp [hfront, hline]
          · simp [hmore]
        · refine ⟨last, Or.inr ⟨by simp [hfront, hnot], ?_, hlast⟩⟩
          simp [hmore]

end Lines

end Reader

end Hy2Route.Sniff
