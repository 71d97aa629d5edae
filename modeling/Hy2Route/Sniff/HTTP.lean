import Hy2Route.Foundation.HostPort
import Hy2Route.Foundation.NetIP
import Hy2Route.Sniff.TLS

/-!
# Sniffing an HTTP request

The parser waits for a method, a space and the end of the header, and takes the
domain from the only header line that names the host. A verdict other than
incomplete is reached on a prefix of the stream and stays whatever follows.
-/

namespace Hy2Route.Sniff

open Foundation Policy

def isHTTPMethodChar (char : UInt8) : Bool :=
  (0x41 ≤ char && char ≤ 0x5A) || (0x61 ≤ char && char ≤ 0x7A)

/-- The place of the first byte of its kind. -/
def indexByte (raw : Bytes) (b : UInt8) : Option Nat := raw.findIdx? (· == b)

/-- Split at every `\r\n`. -/
def splitLines : Bytes → List Bytes
  | [] => [[]]
  | 0x0D :: 0x0A :: rest => [] :: splitLines rest
  | b :: rest =>
      match splitLines rest with
      | [] => [[b]]
      | line :: lines => (b :: line) :: lines

/-- A header name that is `host` under simple case folding; the letter s also folds
to the long s. -/
def equalFoldHost (name : Bytes) : Bool :=
  match runes name with
  | [h, o, s, t] =>
      (h == 0x68 || h == 0x48) && (o == 0x6F || o == 0x4F) &&
        (s == 0x73 || s == 0x53 || s == 0x17F) && (t == 0x74 || t == 0x54)
  | _ => false

/-- The value of the host line. A line without a name, or a second host, ends the
search without a value. -/
def findHost : List Bytes → Bytes → Option Bytes
  | [], host => some host
  | line :: rest, host =>
      match indexByte line 0x3A with
      | none => none
      | some 0 => none
      | some (colon + 1) =>
          if equalFoldHost (line.take (colon + 1)) then
            if host ≠ [] then none else findHost rest (line.drop (colon + 2))
          else findHost rest host

/-- A decimal number of 16 bits. -/
def parsePort (port : Bytes) : Option Nat :=
  if port ≠ [] ∧ port.all isDigit then
    let value := port.foldl (fun n d => n * 10 + digitValue d) 0
    if value ≤ 65535 then some value else none
  else none

/-- The normalized domain, empty when it does not normalize. -/
def normalizedOrEmpty (host : Bytes) : Bytes :=
  match normalizeDomain host with
  | .ok domain => domain
  | .error _ => []

def normalizeHTTPHost (host : Bytes) : Bytes :=
  let host := trimSpace host
  if host = [] ∨ host.any (fun b => b == 0x20 || b == 0x09 || b == 0x0D || b == 0x0A) ∨
      (0x5B : UInt8) ∈ host ∨ (0x5D : UInt8) ∈ host then []
  else match splitHostPort host with
    | some (name, port) =>
        if (parsePort port).isNone ∨ name = [] then [] else normalizedOrEmpty name
    | none => normalizedOrEmpty host

/-- The result of a whole header. -/
def httpResult (header : Bytes) : Result :=
  match findHost (splitLines header).tail [] with
  | none => { protocol := .http, complete := true }
  | some host => { domain := normalizeHTTPHost host, protocol := .http, complete := true }

def parseHTTP (raw : Bytes) : Result × ParseState :=
  match indexByte raw 0x20 with
  | none => if raw.all isHTTPMethodChar then ({}, .incomplete) else ({}, .invalid)
  | some 0 => ({}, .invalid)
  | some (space + 1) =>
      if !(raw.take (space + 1)).all isHTTPMethodChar then ({}, .invalid)
      else match indexOf [0x0D, 0x0A, 0x0D, 0x0A] raw with
        | none => ({}, .incomplete)
        | some stop => (httpResult (raw.take stop), .complete)

/-! ## What follows does not matter -/

theorem indexByte_append {raw : Bytes} {b : UInt8} {i : Nat} (h : indexByte raw b = some i)
    (more : Bytes) : indexByte (raw ++ more) b = some i := by
  rw [indexByte] at h ⊢
  rw [List.findIdx?_append, h]
  rfl

theorem indexByte_lt {raw : Bytes} {b : UInt8} {i : Nat} (h : indexByte raw b = some i) :
    i < raw.length :=
  (List.findIdx?_eq_some_iff_getElem.mp h).1

/-- A byte that is not sought stays in front of what is found later. -/
theorem indexByte_append_of_none {raw : Bytes} {b : UInt8} (h : indexByte raw b = none)
    (more : Bytes) : indexByte (raw ++ more) b = (indexByte more b).map (· + raw.length) := by
  rw [indexByte] at h ⊢
  rw [List.findIdx?_append, h]
  rfl

/-- Without a space, a byte that no method has decides for good. -/
theorem parseHTTP_append_of_none {raw : Bytes} (hspace : indexByte raw 0x20 = none)
    (hmethod : raw.all isHTTPMethodChar = false) (more : Bytes) :
    parseHTTP (raw ++ more) = ({}, .invalid) := by
  have hne : 0 < raw.length := by
    rw [List.length_pos_iff]
    rintro rfl
    cases hmethod
  rw [parseHTTP, indexByte_append_of_none hspace]
  cases indexByte more 0x20 with
  | none => simp [List.all_append, hmethod]
  | some j =>
      obtain ⟨space, hspace⟩ : ∃ space, j + raw.length = space + 1 :=
        Nat.exists_eq_add_of_le' (by omega)
      have htake : (raw ++ more).take (space + 1) = raw ++ more.take j := by
        rw [← hspace, Nat.add_comm, List.take_length_add_append]
      simp [hspace, htake, List.all_append, hmethod]

/-- A verdict of the HTTP parser stands whatever follows. -/
theorem parseHTTP_append {raw : Bytes} (h : (parseHTTP raw).2 ≠ .incomplete) (more : Bytes) :
    parseHTTP (raw ++ more) = parseHTTP raw := by
  cases hspace : indexByte raw 0x20 with
  | none =>
      cases hmethod : raw.all isHTTPMethodChar with
      | true => simp [parseHTTP, hspace, hmethod] at h
      | false =>
          rw [parseHTTP_append_of_none hspace hmethod more]
          simp [parseHTTP, hspace, hmethod]
  | some space =>
      have hle : space ≤ raw.length := Nat.le_of_lt (indexByte_lt hspace)
      have htake : (raw ++ more).take space = raw.take space := List.take_append_of_le_length hle
      rw [parseHTTP, parseHTTP, indexByte_append hspace, hspace]
      rw [parseHTTP, hspace] at h
      cases space with
      | zero => rfl
      | succ space =>
          simp only [htake] at h ⊢
          split_ifs at h ⊢ with hmethod
          · rfl
          · cases hend : indexOf [0x0D, 0x0A, 0x0D, 0x0A] raw with
            | none => simp [hend] at h
            | some stop =>
                have hstop : stop ≤ raw.length := by
                  have hfits := indexOf_le hend
                  omega
                simp only [indexOf_append hend more, List.take_append_of_le_length hstop]

/-- Bytes at a position stay where they are. -/
theorem slice_append {raw : Bytes} {start length : Nat} (h : start + length ≤ raw.length)
    (more : Bytes) : slice (raw ++ more) start length = slice raw start length := by
  have hstart : start ≤ raw.length := by omega
  rw [slice, slice, List.drop_append_of_le_length hstart, List.take_append_of_le_length]
  rw [List.length_drop]
  omega

theorem uint16_append {raw : Bytes} {pos : Nat} (h : pos + 2 ≤ raw.length) (more : Bytes) :
    uint16 (raw ++ more) pos = uint16 raw pos :=
  congrArg ofBigEndian (slice_append h more)

/-- A verdict of the TLS parser stands whatever follows. -/
theorem parseTLS_append {raw : Bytes} (h : (parseTLS raw).2 ≠ .incomplete) (more : Bytes) :
    parseTLS (raw ++ more) = parseTLS raw := by
  have hlen : ¬ raw.length < 5 := by
    intro hshort
    simp [parseTLS, hshort] at h
  have hlen' : ¬ (raw ++ more).length < 5 := by
    rw [List.length_append]
    omega
  have htype : (raw ++ more).getD 0 0 = raw.getD 0 0 := by
    cases raw with
    | nil => simp at hlen
    | cons first rest => rfl
  have hnumber : uint16 (raw ++ more) 3 = uint16 raw 3 := uint16_append (by omega) more
  simp only [parseTLS, if_neg hlen, if_neg hlen', htype, hnumber] at h ⊢
  by_cases hfirst : raw.getD 0 0 ≠ 22
  · simp only [if_pos hfirst]
  · by_cases hrecord : uint16 raw 3 < 4
    · simp only [if_pos hrecord]
    · have hwhole : ¬ raw.length < 5 + uint16 raw 3 := by
        intro hshort
        simp only [if_neg hfirst, if_neg hrecord, if_pos hshort, ne_eq, not_true_eq_false] at h
      have hwhole' : ¬ (raw ++ more).length < 5 + uint16 raw 3 := by
        rw [List.length_append]
        omega
      simp only [if_neg hwhole, if_neg hwhole', slice_append (Nat.le_of_not_lt hwhole) more]

end Hy2Route.Sniff
