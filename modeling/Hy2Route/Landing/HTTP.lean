import Hy2Route.Foundation.Lines
import Hy2Route.Landing.Connect
import Hy2Route.Sniff.Reader

/-!
# The HTTP CONNECT handshake

The dialer sends one request and reads the answer through a buffer: a line, then the
headers to their blank line. The connection that it returns is read through the same
buffer, so bytes of the tunnel that came with the headers are not lost.

Success is searched for in the line as a text, ` 200 ` with its spaces. The text may also
stand in the reason phrase, and a refusal is then taken for success.
-/

namespace Hy2Route.Landing.HTTP

open Foundation Sniff

inductive HTTPError where
  | upstreamDial
  | deadline
  | write
  /-- the line was refused; it may not have been whole -/
  | rejected (whole : Bool)
  | headers
  deriving DecidableEq

/-! ## The request -/

def base64Digit (n : Nat) : UInt8 :=
  UInt8.ofNat (if n < 26 then 0x41 + n else if n < 52 then 0x61 + (n - 26)
    else if n < 62 then 0x30 + (n - 52) else if n = 62 then 0x2B else 0x2F)

/-- The four digits of three bytes. -/
def base64Group (a b c : UInt8) : Bytes :=
  let v := a.toNat * 65536 + b.toNat * 256 + c.toNat
  [base64Digit (v / 262144), base64Digit (v / 4096 % 64), base64Digit (v / 64 % 64),
    base64Digit (v % 64)]

/-- The standard encoding, padded to whole groups. -/
def base64 : Bytes → Bytes
  | a :: b :: c :: rest => base64Group a b c ++ base64 rest
  | [a, b] => (base64Group a b 0).take 3 ++ ascii "="
  | [a] => (base64Group a 0 0).take 2 ++ ascii "=="
  | [] => []

def request (creds : Credentials) (target : Bytes) : Bytes :=
  ascii "CONNECT " ++ target ++ ascii " HTTP/1.1\r\nHost: " ++ target ++ ascii "\r\n" ++
    (if creds.Given then
      ascii "Proxy-Authorization: Basic " ++ base64 (creds.user ++ ascii ":" ++ creds.password) ++
        ascii "\r\n"
    else []) ++ ascii "\r\n"

/-! ## The answer -/

/-- Headers to the blank line that ends them: lines that are not blank, and one that is. -/
inductive HeaderBlock : Bytes → Prop where
  | lf : HeaderBlock [0x0A]
  | crlf : HeaderBlock [0x0D, 0x0A]
  | line (text rest : Bytes) (one_line : (0x0A : UInt8) ∉ text) (nonempty : text ≠ [])
      (not_blank : text ≠ [0x0D]) (more : HeaderBlock rest) :
      HeaderBlock (text ++ 0x0A :: rest)

/-- How MIME headers are read: what they leave of the bytes when they are well formed, and
that they are read to their end and not further. -/
structure HeaderReader where
  readMIMEHeader : Reader → Bool × Reader
  after : Bytes → Option Bytes
  reads : ∀ {r : Reader} {size : Nat} {s : Bytes}, r.Holds size s → 0 < size →
    ∃ next : Reader, readMIMEHeader r = ((after s).isSome, next) ∧
      ∀ rest, after s = some rest → next.Holds size rest
  whole : ∀ {s rest : Bytes}, after s = some rest → ∃ block, HeaderBlock block ∧ s = block ++ rest

/-- A connection that is read through a buffer. -/
structure PrefixedConn where
  conn : Foundation.Conn
  reader : Reader

namespace PrefixedConn

/-- Reads of the given sizes go to the buffer. -/
def reads (conn : PrefixedConn) (sizes : List Nat) : Bytes := (conn.reader.reads sizes).1

/-- Reads yield the bytes in order, nothing else, and enough of them yield all. -/
def Yields (conn : PrefixedConn) (s : Bytes) : Prop :=
  ∀ sizes : List Nat, (∀ n ∈ sizes, 0 < n) →
    ∃ left, s = conn.reads sizes ++ left ∧ (s.length ≤ sizes.length → left = [])

end PrefixedConn

open Exchange

/-- Read the connection through a buffer from here on; a read that delivers nothing is
repeated. -/
def buffer {ε : Type} (size : Nat) : Exchange ε Reader := fun conn =>
  (.ok (.new ⟨conn.chunks.filter (· ≠ []), by simp⟩ size), { conn with chunks := [] })

/-- The line does not say success. -/
def refused (line : Bytes) : Bool :=
  1024 < line.length || !(ascii "HTTP/").isPrefixOf line || !contains line (ascii " 200 ")

section Dial

variable (mime : HeaderReader) (creds : Credentials) (target : Bytes)

def readHeaders (reader : Reader) : Exchange HTTPError Reader :=
  match mime.readMIMEHeader reader with
  | (true, reader) => pure reader
  | (false, _) => fail .headers

def readAnswer (reader : Reader) : Exchange HTTPError Reader :=
  match reader.readString 0x0A with
  | (line, whole, reader) =>
      if whole && !refused line then readHeaders mime reader else fail (.rejected whole)

def connect : Exchange HTTPError Reader := do
  setDeadline .deadline
  clearingDeadline do
    write (request creds target) .write
    let reader ← buffer 8192
    readAnswer mime reader

/-- The connection that is returned, and the one that was dialed. -/
def dial (base : Option Foundation.Conn) :
    Except HTTPError PrefixedConn × Option Foundation.Conn :=
  match base with
  | none => (.error .upstreamDial, none)
  | some conn =>
      match connect mime creds target conn with
      | (.ok reader, after) => (.ok ⟨after, reader⟩, some after)
      | (.error err, after) => (.error err, some after)

/-! ## Answers that are accepted -/

/-- The bytes are a line that says success, headers, and what is left. -/
structure Accepted (s line rest left : Bytes) : Prop where
  stream_eq : s = line ++ 0x0A :: rest
  one_line : (0x0A : UInt8) ∉ line
  success : refused (line ++ [0x0A]) = false
  headers : mime.after rest = some left

theorem readHeaders_eq {reader next : Reader} {ok : Bool}
    (h : mime.readMIMEHeader reader = (ok, next)) :
    readHeaders mime reader = if ok then pure next else fail .headers := by
  rw [readHeaders, h]
  cases ok <;> rfl

theorem readAnswer_eq {reader next : Reader} {line : Bytes} {whole : Bool}
    (h : reader.readString 0x0A = (line, whole, next)) :
    readAnswer mime reader =
      if whole && !refused line then readHeaders mime next else fail (.rejected whole) := by
  rw [readAnswer, h]

/-- The answer is read to the end of its headers, or the connection is closed. -/
theorem readAnswer_cases {reader : Reader} {size : Nat} {s : Bytes} (h : reader.Holds size s)
    (hsize : 0 < size) (conn : Foundation.Conn) :
    (∃ line rest left, ∃ next : Reader, Accepted mime s line rest left ∧
      readAnswer mime reader conn = (.ok next, conn) ∧ next.Holds size left) ∨
    (¬ ∃ line rest left, Accepted mime s line rest left) ∧
      ∃ err, readAnswer mime reader conn = (.error err, { conn with closed := true }) := by
  obtain ⟨after, ⟨line, rest, rfl, hline, hread, hafter⟩ | ⟨hnot, hread, -⟩⟩ :=
    h.readString 0x0A hsize
  · cases hrefused : refused (line ++ [0x0A]) with
    | true =>
        right
        refine ⟨?_, .rejected true, ?_⟩
        · rintro ⟨line', rest', left, hother⟩
          obtain ⟨rfl, -⟩ := append_sep_inj hline hother.one_line hother.stream_eq
          exact absurd hother.success (by simp [hrefused])
        · rw [readAnswer_eq mime hread, hrefused]
          rfl
    | false =>
        obtain ⟨next, hmime, hnext⟩ := mime.reads hafter hsize
        cases hleft : mime.after rest with
        | none =>
            right
            rw [hleft] at hmime
            refine ⟨?_, .headers, ?_⟩
            · rintro ⟨line', rest', left, hother⟩
              obtain ⟨-, rfl⟩ := append_sep_inj hline hother.one_line hother.stream_eq
              exact absurd hother.headers (by simp [hleft])
            · rw [readAnswer_eq mime hread, hrefused, readHeaders_eq mime hmime]
              rfl
        | some left =>
            left
            rw [hleft] at hmime
            refine ⟨line, rest, left, next, ⟨rfl, hline, hrefused, hleft⟩, ?_, hnext left hleft⟩
            rw [readAnswer_eq mime hread, hrefused, readHeaders_eq mime hmime]
            rfl
  · right
    refine ⟨?_, .rejected false, ?_⟩
    · rintro ⟨line, rest, left, hother⟩
      refine hnot ?_
      rw [hother.stream_eq]
      exact List.mem_append_right line List.mem_cons_self
    · rw [readAnswer_eq mime hread]
      rfl

theorem readAnswer_closes (reader : Reader) : Closes (readAnswer mime reader) := by
  cases hread : reader.readString 0x0A with
  | mk line result =>
      rw [readAnswer_eq mime hread]
      split_ifs
      · rw [readHeaders]
        split
        · exact .pure _
        · exact .fail _
      · exact .fail _

theorem connect_closes : Closes (connect mime creds target) := by
  unfold connect
  refine .bind (.setDeadline _) fun _ => .clearingDeadline (.bind (.write _ _) fun _ =>
    .bind ?_ fun reader => readAnswer_closes mime reader)
  rintro conn err after ⟨⟩

/-- The buffer has to deliver what the connection has. -/
theorem buffer_holds {ε : Type} (conn : Foundation.Conn) :
    ∃ reader : Reader, (buffer 8192 : Exchange ε Reader) conn =
      (.ok reader, { conn with chunks := [] }) ∧ reader.Holds 8192 conn.stream := by
  refine ⟨_, rfl, ?_⟩
  have hstream : (conn.chunks.filter (· ≠ [])).flatten = conn.stream :=
    List.flatten_filter_ne_nil
  rw [← hstream]
  exact Reader.holds_new _ 8192

/-- A connection is made exactly when the request can be sent and the answer is accepted,
and it is read behind the headers of the answer. -/
theorem dial_cases (conn : Foundation.Conn) :
    (conn.deadlines = true ∧ conn.accepts conn.written.length = true ∧
      ∃ line rest left, ∃ returned : PrefixedConn, Accepted mime conn.stream line rest left ∧
        dial mime creds target (some conn) = (.ok returned, some returned.conn) ∧
        returned.reader.Holds 8192 left) ∨
    ¬ (conn.deadlines = true ∧ conn.accepts conn.written.length = true ∧
        ∃ line rest left, Accepted mime conn.stream line rest left) ∧
      ∃ err after, dial mime creds target (some conn) = (.error err, some after) ∧
        after.closed = true := by
  have hfails (err : HTTPError) (after : Foundation.Conn)
      (h : connect mime creds target conn = (.error err, after)) :
      ∃ err after, dial mime creds target (some conn) = (.error err, some after) ∧
        after.closed = true :=
    ⟨err, after, by simp only [dial, h], connect_closes mime creds target conn err after h⟩
  by_cases hdeadlines : conn.deadlines = true
  · have hset : setDeadline HTTPError.deadline conn = (.ok (), { conn with armed := true }) :=
      if_pos hdeadlines
    let sent : Foundation.Conn :=
      { conn with written := conn.written ++ [request creds target], armed := true }
    by_cases haccepts : conn.accepts conn.written.length = true
    · have hwrite : write (request creds target) HTTPError.write { conn with armed := true } =
          (.ok (), sent) := if_pos haccepts
      obtain ⟨reader, hbuffer, hreader⟩ := buffer_holds (ε := HTTPError) sent
      have hconnect : connect mime creds target conn =
          clearingDeadline (readAnswer mime reader) { sent with chunks := [] } := by
        rw [connect, bind_of_ok _ hset, clearingDeadline, bind_of_ok _ hwrite,
          bind_of_ok _ hbuffer]
        rfl
      rcases readAnswer_cases mime hreader (by decide) { sent with chunks := [] } with
        ⟨line, rest, left, next, haccepted, hanswer, hnext⟩ | ⟨hnot, err, hanswer⟩
      · rw [clearingDeadline, hanswer] at hconnect
        refine Or.inl ⟨hdeadlines, haccepts, line, rest, left,
          ⟨{ sent with chunks := [], armed := false }, next⟩, haccepted, ?_, hnext⟩
        simp only [dial, hconnect]
      · rw [clearingDeadline, hanswer] at hconnect
        exact Or.inr ⟨fun h => hnot h.2.2, hfails err _ hconnect⟩
    · have hwrite : write (request creds target) HTTPError.write { conn with armed := true } =
          (.error .write, { sent with closed := true }) := if_neg haccepts
      refine Or.inr ⟨fun h => haccepts h.2.1, hfails .write
        { sent with armed := false, closed := true } ?_⟩
      rw [connect, bind_of_ok _ hset, clearingDeadline, bind_of_error _ hwrite]
  · have hset : setDeadline HTTPError.deadline conn =
        (.error .deadline, { conn with closed := true }) := if_neg hdeadlines
    exact Or.inr ⟨fun h => hdeadlines h.1, hfails .deadline _ (bind_of_error _ hset)⟩

/-! ## Success and nothing else -/

/-- The second of the fields between spaces. -/
def statusCode (line : Bytes) : Option Bytes := (split line 0x20)[1]?

/-- A first line with the code of success. -/
structure StatusLine (line : Bytes) : Prop where
  one_line : ∃ text, (0x0A : UInt8) ∉ text ∧ line = text ++ [0x0A]
  front : ascii "HTTP/" <+: line
  code : statusCode line = some (ascii "200")

/-- A connection is returned only for success, and yields what follows the headers;
otherwise the connection that was dialed is closed. -/
structure Tunnels (conn : Foundation.Conn) : Prop where
  success : ∀ returned under, dial mime creds target (some conn) = (.ok returned, under) →
    ∃ line block rest, conn.stream = line ++ block ++ rest ∧ StatusLine line ∧
      HeaderBlock block ∧ returned.Yields rest
  closes : ∀ err under, dial mime creds target (some conn) = (.error err, under) →
    ∃ after, under = some after ∧ after.closed = true

/-- A refusal that passes for success: the code is another one, and the number stands
between spaces further on in the line. -/
structure Disguised (s line rest : Bytes) : Prop where
  stream_eq : s = line ++ 0x0A :: rest
  one_line : (0x0A : UInt8) ∉ line
  fits : line.length < 1024
  front : ascii "HTTP/" <+: line ++ [0x0A]
  other : statusCode (line ++ [0x0A]) ≠ some (ascii "200")
  later : ascii "200" ∈ ((split (line ++ [0x0A]) 0x20).drop 2).dropLast
  headers : (mime.after rest).isSome = true

theorem refused_eq_false_iff (line : Bytes) :
    refused line = false ↔ line.length ≤ 1024 ∧ ascii "HTTP/" <+: line ∧
      ascii "200" ∈ (split line 0x20).tail.dropLast := by
  have hcontains : contains line (ascii " 200 ") = true ↔
      ascii "200" ∈ (split line 0x20).tail.dropLast := by
    have hspace : (0x20 : UInt8) ∉ ascii "200" := by decide
    rw [contains_iff]
    exact delimited_infix_iff hspace
  simp only [refused, Bool.or_eq_false_iff, decide_eq_false_iff_not, Nat.not_lt,
    List.isPrefixOf_iff_prefix, hcontains, Bool.not_eq_eq_eq_not, Bool.not_false, and_assoc]

/-- The number is an inner field of the line as its second field or further on. -/
theorem mem_inner_fields_iff {α : Type*} {parts : List α} {part : α} :
    part ∈ parts.tail.dropLast ↔
      parts[1]? = some part ∧ 2 < parts.length ∨ part ∈ (parts.drop 2).dropLast := by
  match parts with
  | [] => simp
  | [_] => simp
  | [_, _] => simp
  | first :: second :: third :: rest =>
      have hinner : (first :: second :: third :: rest).tail.dropLast =
          second :: (third :: rest).dropLast := rfl
      rw [hinner, List.mem_cons]
      simp [eq_comm]

variable {mime} in
theorem Disguised.accepted {s line rest : Bytes} (h : Disguised mime s line rest) :
    ∃ left, Accepted mime s line rest left := by
  obtain ⟨left, hleft⟩ := Option.isSome_iff_exists.mp h.headers
  refine ⟨left, h.stream_eq, h.one_line, ?_, hleft⟩
  rw [refused_eq_false_iff, List.length_append]
  exact ⟨h.fits, h.front, mem_inner_fields_iff.mpr (Or.inr h.later)⟩

variable {mime} in
theorem Accepted.statusLine_or_disguised {s line rest left : Bytes}
    (h : Accepted mime s line rest left) :
    StatusLine (line ++ [0x0A]) ∨ Disguised mime s line rest := by
  obtain ⟨hfits, hfront, hinner⟩ := (refused_eq_false_iff _).mp h.success
  rw [List.length_append] at hfits
  by_cases hcode : statusCode (line ++ [0x0A]) = some (ascii "200")
  · exact Or.inl ⟨⟨line, h.one_line, rfl⟩, hfront, hcode⟩
  · right
    refine ⟨h.stream_eq, h.one_line, hfits, hfront, hcode, ?_, ?_⟩
    · exact (mem_inner_fields_iff.mp hinner).resolve_left fun hsecond => hcode hsecond.1
    · rw [h.headers, Option.isSome_some]

/-- Whatever the server sends and however it arrives, only success makes a tunnel and
nothing of it is lost, unless a refusal passes for success over a connection that takes
the request. -/
theorem dial_tunnels_iff (conn : Foundation.Conn) :
    Tunnels mime creds target conn ↔
      (conn.deadlines = true → conn.accepts conn.written.length = true →
        ∀ line rest, ¬ Disguised mime conn.stream line rest) := by
  constructor
  · intro h hdeadlines haccepts line rest hdisguised
    obtain ⟨left, haccepted⟩ := hdisguised.accepted
    rcases dial_cases mime creds target conn with
      ⟨-, -, line', rest', left', returned, -, hdial, -⟩ | ⟨hnot, -⟩
    · obtain ⟨line₁, block, rest₁, hstream, hstatus, -, -⟩ := h.success returned _ hdial
      obtain ⟨text, htext, rfl⟩ := hstatus.one_line
      have heq : line ++ 0x0A :: rest = text ++ 0x0A :: (block ++ rest₁) := by
        rw [← hdisguised.stream_eq, hstream]
        simp
      obtain ⟨rfl, -⟩ := append_sep_inj hdisguised.one_line htext heq
      exact hdisguised.other hstatus.code
    · exact hnot ⟨hdeadlines, haccepts, line, rest, left, haccepted⟩
  · intro h
    rcases dial_cases mime creds target conn with
      ⟨hdeadlines, haccepts, line, rest, left, returned, haccepted, hdial, hholds⟩ |
      ⟨-, err, after, hdial, hclosed⟩
    · refine ⟨fun returned' under heq => ?_, fun err under heq => ?_⟩
      · rw [hdial] at heq
        cases heq
        obtain ⟨block, hblock, rfl⟩ := mime.whole haccepted.headers
        refine ⟨line ++ [0x0A], block, left, ?_, ?_, hblock, fun sizes hpos => ?_⟩
        · rw [haccepted.stream_eq]
          simp
        · exact haccepted.statusLine_or_disguised.resolve_right (h hdeadlines haccepts line _)
        · obtain ⟨rest, hrest, -, hall⟩ := hholds.reads (by decide) hpos
          exact ⟨rest, hrest, hall⟩
      · rw [hdial] at heq
        cases heq
    · refine ⟨fun returned under heq => ?_, fun err' under heq => ?_⟩
      · rw [hdial] at heq
        cases heq
      · rw [hdial] at heq
        cases heq
        exact ⟨after, rfl, hclosed⟩

end Dial

theorem crlf_prefix_iff {line rest : Bytes} (h : (0x0A : UInt8) ∉ line) :
    [0x0D, 0x0A] <+: line ++ 0x0A :: rest ↔ line = [0x0D] := by
  match line with
  | [] => simp
  | [b] => simp [eq_comm]
  | b :: c :: more =>
      have hc : (0x0A : UInt8) ≠ c := fun heq => h (by simp [heq])
      simp [hc]

/-- Only an answer without headers is read. -/
def HeaderReader.blank : HeaderReader where
  readMIMEHeader r :=
    match r.readString 0x0A with
    | (line, whole, r) => (whole && line == [0x0D, 0x0A], r)
  after s := if [0x0D, 0x0A].isPrefixOf s then some (s.drop 2) else none
  reads := by
    intro r size s h hsize
    obtain ⟨next, ⟨line, rest, rfl, hline, hread, hnext⟩ | ⟨hnot, hread, hnext⟩⟩ :=
      h.readString 0x0A hsize
    · by_cases hblank : line = [0x0D]
      · subst hblank
        refine ⟨next, by rw [hread]; rfl, fun left hleft => ?_⟩
        cases hleft
        exact hnext
      · have hfront : ¬ [0x0D, 0x0A].isPrefixOf (line ++ 0x0A :: rest) = true := by
          rw [List.isPrefixOf_iff_prefix, crlf_prefix_iff hline]
          exact hblank
        have hother : (line ++ [0x0A] == [0x0D] ++ [0x0A]) = false := by
          rw [beq_eq_false_iff_ne]
          exact fun heq => hblank (List.append_cancel_right heq)
        rw [if_neg hfront, hread]
        exact ⟨next, congrArg (·, next) hother, nofun⟩
    · have hfront : ¬ [0x0D, 0x0A].isPrefixOf s = true := by
        rw [List.isPrefixOf_iff_prefix]
        rintro ⟨more, rfl⟩
        exact hnot (by simp)
      rw [if_neg hfront, hread]
      exact ⟨next, rfl, nofun⟩
  whole := by
    intro s rest h
    split_ifs at h with hfront
    obtain ⟨more, rfl⟩ := List.isPrefixOf_iff_prefix.mp hfront
    exact ⟨[0x0D, 0x0A], .crlf, by simpa using h⟩

theorem dial_tunnels_early_data :
    Tunnels .blank ⟨ascii "alice", ascii "secret"⟩ (ascii "203.0.113.8:443")
      ⟨[ascii "HTTP/1.1 200 Connection established\r", ascii "\n\r\nEARLY"], true, fun _ => true,
        [], false, false⟩ := by
  refine (dial_tunnels_iff .blank _ _ _).mpr fun _ _ line rest hdisguised => hdisguised.other ?_
  have hstream : line ++ 0x0A :: rest =
      ascii "HTTP/1.1 200 Connection established\r" ++ 0x0A :: ascii "\r\nEARLY" :=
    hdisguised.stream_eq.symm
  obtain ⟨rfl, -⟩ := append_sep_inj hdisguised.one_line (by decide) hstream
  decide

/-- A refusal whose reason has the number in it makes a tunnel. -/
theorem dial_takes_refusal :
    let conn : Foundation.Conn := ⟨[ascii "HTTP/1.1 407 is not 200 yet\r\n\r\n"], true,
      fun _ => true, [], false, false⟩
    (∃ returned under, dial .blank ⟨[], []⟩ (ascii "203.0.113.8:443") (some conn) =
        (.ok returned, under)) ∧
      ¬ Tunnels .blank ⟨[], []⟩ (ascii "203.0.113.8:443") conn := by
  intro conn
  have haccepted : Accepted .blank conn.stream (ascii "HTTP/1.1 407 is not 200 yet\r")
      (ascii "\r\n") [] := ⟨by decide, by decide, by decide, by decide⟩
  rcases dial_cases .blank ⟨[], []⟩ (ascii "203.0.113.8:443") conn with
    ⟨-, -, _, _, _, returned, -, hdial, -⟩ | ⟨hnot, -⟩
  · refine ⟨⟨returned, _, hdial⟩, fun h => ?_⟩
    obtain ⟨line, block, rest, hstream, hstatus, -, -⟩ := h.success returned _ hdial
    obtain ⟨text, htext, rfl⟩ := hstatus.one_line
    have heq : text ++ 0x0A :: (block ++ rest) =
        ascii "HTTP/1.1 407 is not 200 yet\r" ++ 0x0A :: ascii "\r\n" := by
      rw [← haccepted.stream_eq, hstream]
      simp
    obtain ⟨rfl, -⟩ := append_sep_inj htext haccepted.one_line heq
    exact absurd hstatus.code (by decide)
  · exact absurd ⟨rfl, rfl, _, _, _, haccepted⟩ hnot

end Hy2Route.Landing.HTTP
