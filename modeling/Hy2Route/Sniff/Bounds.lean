import Hy2Route.Foundation.Checked
import Hy2Route.Sniff.HTTP

/-!
# The parsers stay within their input

The parsers once more, with the positions of the source: every index and every slice is
checked, and the two loops over positions run for a given number of rounds. No input
makes a read fault, each round of a loop moves its position forward and not past the
end, and as many rounds as there are bytes are enough. The parsers then return what the
parsers over the remaining bytes return.
-/

namespace Hy2Route.Sniff.Checked

open Foundation Policy

/-! ## Names -/

def checkLabel (label : Bytes) : Except Fault (Except DomainError Unit) :=
  if label.length = 0 ∨ 63 < label.length then .ok (.error .invalidLabel)
  else do
    let first ← index label 0
    if first = hyphen then return .error .invalidLabel
    else
      let last ← index label (label.length - 1)
      if last = hyphen then return .error .invalidLabel
      else if (runes label).all labelRune then return .ok ()
      else return .error .notASCII

def checkLabels : List Bytes → Except Fault (Except DomainError Unit)
  | [] => .ok (.ok ())
  | label :: rest => do
      match ← checkLabel label with
      | .error err => return .error err
      | .ok () => checkLabels rest

def normalizeDomain (value : Bytes) : Except Fault (Except DomainError Bytes) :=
  let value := trimSuffix (toLower value) [dot]
  if value = [] ∨ 253 < value.length then .ok (.error .emptyOrTooLong)
  else do
    match ← checkLabels (split value dot) with
    | .error err => return .error err
    | .ok () => return .ok value

/-! ## TLS -/

def skipVector (raw : Bytes) (pos width : Nat) : Except Fault (Option Nat) :=
  if width ≠ 1 ∧ width ≠ 2 then .ok none
  else if raw.length < pos + width then .ok none
  else do
    let byte ← index raw pos
    let length ← if width = 2 then subslice raw pos (pos + 2) >>= bigEndianUint16
      else pure byte.toNat
    let pos := pos + width
    if (raw.length : Int) - pos < length then return none else return some (pos + length)

/-- One round of the loop over the entries of a server name list. -/
def serverNameStep (raw : Bytes) (pos : Nat) : Except Fault (LoopStep Nat Bytes) :=
  if ¬ pos < raw.length then .ok (.done [])
  else if raw.length < pos + 3 then .ok (.done [])
  else do
    let nameType ← index raw pos
    let length ← subslice raw (pos + 1) (pos + 3) >>= bigEndianUint16
    let pos := pos + 3
    if (raw.length : Int) - pos < length then return .done []
    else if nameType = 0 then
      let name ← subslice raw pos (pos + length)
      match ← normalizeDomain name with
      | .ok domain => return .done domain
      | .error _ => return .done []
    else return .next (pos + length)

def parseServerName (rounds : Nat) (raw : Bytes) : Except Fault Bytes :=
  if raw.length < 2 then .ok []
  else do
    let listLength ← subslice raw 0 2 >>= bigEndianUint16
    if (listLength : Int) ≠ raw.length - 2 then return []
    else iterate (serverNameStep raw) rounds 2

/-- The variables of the loop over the extensions. -/
structure ExtensionLoop where
  pos : Nat
  seenSNI : Bool
  result : Result

/-- One round of the loop over the extensions; no result is an invalid message. -/
def extensionStep (rounds : Nat) (extensions : Bytes) (s : ExtensionLoop) :
    Except Fault (LoopStep ExtensionLoop (Option Result)) :=
  if ¬ s.pos < extensions.length then .ok (.done (some s.result))
  else if extensions.length < s.pos + 4 then .ok (.done none)
  else do
    let typeID ← subslice extensions s.pos (s.pos + 2) >>= bigEndianUint16
    let length ← subslice extensions (s.pos + 2) (s.pos + 4) >>= bigEndianUint16
    let pos := s.pos + 4
    if (extensions.length : Int) - pos < length then return .done none
    else if typeID = 0 then
      if s.seenSNI then return .done none
      else
        let data ← subslice extensions pos (pos + length)
        let domain ← parseServerName rounds data
        if domain = [] then return .done none
        else return .next ⟨pos + length, true, { s.result with domain := domain }⟩
    else if typeID = 0xFE0D then
      return .next ⟨pos + length, s.seenSNI, { s.result with ech := true }⟩
    else return .next ⟨pos + length, s.seenSNI, s.result⟩

def parseBody (rounds : Nat) (body : Bytes) : Except Fault (Option Result) := do
  match ← skipVector body 34 1 with
  | none => return none
  | some pos => match ← skipVector body pos 2 with
    | none => return none
    | some pos => match ← skipVector body pos 1 with
      | none => return none
      | some pos =>
          if body.length < pos + 2 then return none
          else
            let extensionsLength ← subslice body pos (pos + 2) >>= bigEndianUint16
            let pos := pos + 2
            if (body.length : Int) - pos < extensionsLength then return none
            else
              let extensions ← subslice body pos (pos + extensionsLength)
              iterate (extensionStep rounds extensions) rounds
                ⟨0, false, { protocol := .tls, complete := true }⟩

def parseRecord (rounds : Nat) (record : Bytes) : Except Fault (Option Result) := do
  let first ← index record 0
  if first ≠ 1 ∨ record.length < 4 then return none
  else
    let high ← index record 1
    let middle ← index record 2
    let low ← index record 3
    let handshakeLength := high.toNat <<< 16 ||| middle.toNat <<< 8 ||| low.toNat
    if (record.length : Int) - 4 < handshakeLength then return none
    else if handshakeLength < 34 then return none
    else
      let body ← subslice record 4 (4 + handshakeLength)
      parseBody rounds body

def parseTLS (rounds : Nat) (raw : Bytes) : Except Fault (Result × ParseState) :=
  if raw.length < 5 then .ok ({}, .incomplete)
  else do
    let first ← index raw 0
    if first ≠ 22 then return ({}, .invalid)
    else
      let recordLength ← subslice raw 3 5 >>= bigEndianUint16
      if recordLength < 4 then return ({}, .invalid)
      else if raw.length < 5 + recordLength then return ({}, .incomplete)
      else
        let record ← subslice raw 5 (5 + recordLength)
        match ← parseRecord rounds record with
        | none => return ({}, .invalid)
        | some result => return (result, .complete)

/-! ## HTTP -/

def normalizedOrEmpty (host : Bytes) : Except Fault Bytes := do
  match ← normalizeDomain host with
  | .ok domain => return domain
  | .error _ => return []

def normalizeHTTPHost (host : Bytes) : Except Fault Bytes :=
  let host := trimSpace host
  if host = [] ∨ host.any (fun b => b == 0x20 || b == 0x09 || b == 0x0D || b == 0x0A) ∨
      (0x5B : UInt8) ∈ host ∨ (0x5D : UInt8) ∈ host then .ok []
  else match splitHostPort host with
    | some (name, port) =>
        if (parsePort port).isNone ∨ name = [] then .ok [] else normalizedOrEmpty name
    | none => normalizedOrEmpty host

def findHost : List Bytes → Bytes → Except Fault (Option Bytes)
  | [], host => .ok (some host)
  | line :: rest, host =>
      match indexByte line 0x3A with
      | none => .ok none
      | some 0 => .ok none
      | some (colon + 1) => do
          let name ← subslice line 0 (colon + 1)
          if equalFoldHost name then
            if host ≠ [] then return none
            else
              let value ← subslice line (colon + 2) line.length
              findHost rest value
          else findHost rest host

def parseHTTP (raw : Bytes) : Except Fault (Result × ParseState) :=
  match indexByte raw 0x20 with
  | none => .ok (if raw.all isHTTPMethodChar then ({}, .incomplete) else ({}, .invalid))
  | some 0 => .ok ({}, .invalid)
  | some (space + 1) => do
      let method ← subslice raw 0 (space + 1)
      if !method.all isHTTPMethodChar then return ({}, .invalid)
      else match indexOf [0x0D, 0x0A, 0x0D, 0x0A] raw with
        | none => return ({}, .incomplete)
        | some stop =>
            let header ← subslice raw 0 stop
            let fields ← subslice (splitLines header) 1 (splitLines header).length
            match ← findHost fields [] with
            | none => return ({ protocol := .http, complete := true }, .complete)
            | some host =>
                let domain ← normalizeHTTPHost host
                return ({ domain := domain, protocol := .http, complete := true }, .complete)

/-! ## No read faults -/

theorem checkLabel_eq (label : Bytes) : checkLabel label = .ok (Policy.checkLabel label) := by
  unfold checkLabel Policy.checkLabel
  by_cases hlen : label.length = 0 ∨ 63 < label.length
  · rw [if_pos hlen, if_pos (hlen.imp_right Or.inl)]
  · obtain ⟨hempty, hlong⟩ := not_or.mp hlen
    have hne : label ≠ [] := by
      rintro rfl
      exact hempty rfl
    have hfirst : label.getD 0 0 = label.head hne := by
      cases label with
      | nil => exact absurd rfl hne
      | cons b rest => rfl
    have hlast : label.getD (label.length - 1) 0 = label.getLast hne := by
      rw [List.getLast_eq_getElem, List.getD_eq_getElem?_getD, List.getElem?_eq_getElem (by omega)]
      rfl
    rw [if_neg hlen, index_eq (by omega) 0, index_eq (by omega) 0, hfirst, hlast,
      List.head?_eq_some_head hne, List.getLast?_eq_some_getLast hne]
    simp only [Option.some.injEq, hempty, hlong, false_or]
    change (if _ then _ else if _ then _ else if _ then _ else _) = _
    by_cases hhead : label.head hne = hyphen
    · rw [if_pos hhead, if_pos (Or.inl hhead)]
      rfl
    · by_cases htail : label.getLast hne = hyphen
      · rw [if_neg hhead, if_pos htail, if_pos (Or.inr htail)]
        rfl
      · rw [if_neg hhead, if_neg htail, if_neg (not_or.mpr ⟨hhead, htail⟩)]
        split_ifs <;> rfl

theorem checkLabels_eq (labels : List Bytes) :
    checkLabels labels = .ok (Policy.checkLabels labels) := by
  induction labels with
  | nil => rfl
  | cons label rest ih =>
      rw [checkLabels, checkLabel_eq, Policy.checkLabels]
      cases Policy.checkLabel label with
      | error err => rfl
      | ok u => exact ih

theorem normalizeDomain_eq (value : Bytes) :
    normalizeDomain value = .ok (Policy.normalizeDomain value) := by
  simp only [normalizeDomain, Policy.normalizeDomain, checkLabels_eq]
  split_ifs
  · rfl
  · cases Policy.checkLabels (split (trimSuffix (toLower value) [dot]) dot) with
    | error err => rfl
    | ok u => rfl

/-- The room behind a position, as the source computes it. -/
theorem room_lt_iff {size pos : Nat} (h : ¬ size < pos) (length : Nat) :
    (size : Int) - pos < length ↔ size - pos < length := by
  omega

theorem readUint16_eq {raw : Bytes} {low high : Nat} (hwidth : high = low + 2)
    (hend : high ≤ raw.length) :
    (subslice raw low high >>= bigEndianUint16) = .ok (uint16 raw low) :=
  subslice_bind_uint16 hwidth hend

theorem subslice_eq_slice {raw : Bytes} {start length : Nat} (h : start + length ≤ raw.length) :
    subslice raw start (start + length) = .ok (slice raw start length) := by
  rw [subslice_eq (by omega) h, Nat.add_sub_cancel_left]
  rfl

theorem skipVector_eq (raw : Bytes) (pos width : Nat) :
    skipVector raw pos width = .ok (Sniff.skipVector raw pos width) := by
  unfold skipVector Sniff.skipVector
  by_cases hwidth : width ≠ 1 ∧ width ≠ 2
  · rw [if_pos hwidth, if_pos hwidth]
  by_cases hlen : raw.length < pos + width
  · simp only [if_neg hwidth, if_pos hlen]
  rw [if_neg hwidth, if_neg hwidth, if_neg hlen, if_neg hlen, index_eq (by omega) 0]
  by_cases htwo : width = 2
  · simp only [ok_bind, if_pos htwo, readUint16_eq rfl (show pos + 2 ≤ raw.length by omega),
      room_lt_iff hlen, pure_eq_ok, apply_ite Except.ok]
  · simp only [ok_bind, if_neg htwo, room_lt_iff hlen, pure_eq_ok, apply_ite Except.ok]

/-! ## The loops advance and end -/

section Loops

variable (raw : Bytes) (pos : Nat)

theorem slice_drop (start length : Nat) :
    slice (raw.drop pos) start length = slice raw (pos + start) length := by
  rw [slice, slice, List.drop_drop]

theorem uint16_drop (start : Nat) : uint16 (raw.drop pos) start = uint16 raw (pos + start) :=
  congrArg ofBigEndian (slice_drop raw pos start 2)

/-- A round ends the loop with what the remaining bytes give, or goes on behind the entry. -/
theorem serverNameStep_cases :
    serverNameStep raw pos = .ok (.done (serverNameEntries (raw.drop pos))) ∨
      ∃ pos', serverNameStep raw pos = .ok (.next pos') ∧ pos < pos' ∧ pos' ≤ raw.length ∧
        serverNameEntries (raw.drop pos') = serverNameEntries (raw.drop pos) := by
  rw [serverNameEntries.eq_def (raw.drop pos), serverNameStep]
  by_cases hpos : pos < raw.length
  swap
  · left
    rw [if_pos hpos, if_pos (List.drop_eq_nil_of_le (by omega))]
  have hne : raw.drop pos ≠ [] := by simpa using hpos
  have hshort : (raw.drop pos).length < 3 ↔ raw.length < pos + 3 := by
    rw [List.length_drop]
    omega
  rw [if_neg (not_not.mpr hpos), if_neg hne]
  by_cases hlen : raw.length < pos + 3
  · left
    rw [if_pos hlen, if_pos (hshort.mpr hlen)]
  have hfirst : (raw.drop pos).getD 0 0 = raw.getD pos 0 := by
    simp [List.getD_eq_getElem?_getD]
  have hroom : (raw.drop pos).length - 3 = raw.length - (pos + 3) := by
    rw [List.length_drop]
    omega
  rw [if_neg hlen, if_neg (mt hshort.mp hlen), index_eq (by omega) 0,
    readUint16_eq (by omega) (by omega)]
  simp only [ok_bind, hfirst, hroom, room_lt_iff hlen, uint16_drop, slice_drop, List.drop_drop,
    pure_eq_ok, normalizeDomain_eq]
  generalize uint16 raw (pos + 1) = length
  by_cases hfits : raw.length - (pos + 3) < length
  · left
    rw [if_pos hfits, if_pos hfits]
  rw [if_neg hfits, if_neg hfits]
  by_cases htype : raw.getD pos 0 = 0
  · left
    rw [if_pos htype, if_pos htype, subslice_eq_slice (by omega), ok_bind]
    cases Policy.normalizeDomain (slice raw (pos + 3) length) with
    | error err => rfl
    | ok domain => rfl
  · right
    rw [if_neg htype, if_neg htype]
    refine ⟨pos + 3 + length, rfl, by omega, by omega, ?_⟩
    rw [Nat.add_assoc]

theorem parseServerName_eq {rounds : Nat} (h : raw.length < rounds) :
    parseServerName rounds raw = .ok (Sniff.parseServerName raw) := by
  unfold parseServerName Sniff.parseServerName
  by_cases hlen : raw.length < 2
  · rw [if_pos hlen, if_pos hlen]
  rw [if_neg hlen, if_neg hlen, readUint16_eq rfl (by omega), ok_bind]
  have hsize : ((uint16 raw 0 : Nat) : Int) ≠ raw.length - 2 ↔ uint16 raw 0 ≠ raw.length - 2 := by
    omega
  simp only [hsize]
  split_ifs with hlist
  · rfl
  · -- The bytes behind the position are what is left of the loop.
    have hstep (pos : Nat) :
        serverNameStep raw pos = .ok (.done (serverNameEntries (raw.drop pos))) ∨
          ∃ pos', serverNameStep raw pos = .ok (.next pos') ∧
            raw.length - pos' < raw.length - pos ∧
            serverNameEntries (raw.drop pos') = serverNameEntries (raw.drop pos) := by
      rcases serverNameStep_cases raw pos with hdone | ⟨pos', hnext, hlt, hle, hvalue⟩
      · exact Or.inl hdone
      · exact Or.inr ⟨pos', hnext, by omega, hvalue⟩
    exact iterate_eq (fun pos => serverNameEntries (raw.drop pos)) (raw.length - ·) hstep (by omega)

/-- What the extensions behind the position add to the result. -/
def ExtensionLoop.value (extensions : Bytes) (s : ExtensionLoop) : Option Result :=
  parseExtensions (extensions.drop s.pos) s.seenSNI s.result

theorem extensionStep_cases {rounds : Nat} (extensions : Bytes) (h : extensions.length < rounds)
    (s : ExtensionLoop) :
    extensionStep rounds extensions s = .ok (.done (s.value extensions)) ∨
      ∃ s', extensionStep rounds extensions s = .ok (.next s') ∧ s.pos < s'.pos ∧
        s'.pos ≤ extensions.length ∧ s'.value extensions = s.value extensions := by
  obtain ⟨pos, seenSNI, result⟩ := s
  simp only [ExtensionLoop.value]
  rw [parseExtensions.eq_def (extensions.drop pos), extensionStep]
  dsimp only
  by_cases hpos : pos < extensions.length
  swap
  · left
    rw [if_pos hpos, if_pos (List.drop_eq_nil_of_le (by omega))]
  have hne : extensions.drop pos ≠ [] := by simpa using hpos
  have hshort : (extensions.drop pos).length < 4 ↔ extensions.length < pos + 4 := by
    rw [List.length_drop]
    omega
  rw [if_neg (not_not.mpr hpos), if_neg hne]
  by_cases hlen : extensions.length < pos + 4
  · left
    rw [if_pos hlen, if_pos (hshort.mpr hlen)]
  have hroom : (extensions.drop pos).length - 4 = extensions.length - (pos + 4) := by
    rw [List.length_drop]
    omega
  rw [if_neg hlen, if_neg (mt hshort.mp hlen), readUint16_eq rfl (by omega),
    readUint16_eq (by omega) (by omega)]
  simp only [ok_bind, hroom, room_lt_iff hlen, uint16_drop, slice_drop, List.drop_drop,
    pure_eq_ok, Nat.add_zero]
  generalize uint16 extensions pos = typeID
  generalize uint16 extensions (pos + 2) = length
  by_cases hfits : extensions.length - (pos + 4) < length
  · left
    rw [if_pos hfits, if_pos hfits]
  rw [if_neg hfits, if_neg hfits]
  have hend : pos + 4 + length ≤ extensions.length := by omega
  by_cases hname : typeID = 0
  · rw [if_pos hname, if_pos hname]
    cases seenSNI with
    | true => exact Or.inl rfl
    | false =>
        have hdata : (slice extensions (pos + 4) length).length < rounds := by
          rw [length_slice _ (by omega)]
          omega
        rw [subslice_eq_slice hend, ok_bind, parseServerName_eq _ hdata, ok_bind]
        by_cases hdomain : Sniff.parseServerName (slice extensions (pos + 4) length) = []
        · left
          simp [hdomain]
        · right
          simp only [hdomain, Bool.false_eq_true, if_false]
          exact ⟨_, rfl, by simp only; omega, hend, by rw [Nat.add_assoc]⟩
  · rw [if_neg hname, if_neg hname]
    right
    by_cases hech : typeID = 0xFE0D
    · rw [if_pos hech, if_pos hech]
      exact ⟨_, rfl, by simp only; omega, hend, by rw [Nat.add_assoc]⟩
    · rw [if_neg hech, if_neg hech]
      exact ⟨_, rfl, by simp only; omega, hend, by rw [Nat.add_assoc]⟩

end Loops

/-! ## The parsers -/

theorem iterate_extensionStep {rounds : Nat} {extensions : Bytes}
    (h : extensions.length < rounds) (s : ExtensionLoop) :
    iterate (extensionStep rounds extensions) rounds s = .ok (s.value extensions) := by
  refine iterate_eq (ExtensionLoop.value extensions) (extensions.length - ·.pos) (fun s => ?_)
    (by omega)
  rcases extensionStep_cases extensions h s with hdone | ⟨s', hnext, hlt, hle, hvalue⟩
  · exact Or.inl hdone
  · exact Or.inr ⟨s', hnext, by omega, hvalue⟩

theorem parseBody_eq {rounds : Nat} {body : Bytes} (hbody : ¬ body.length < 34)
    (h : body.length < rounds) : parseBody rounds body = .ok (Sniff.parseBody body) := by
  simp only [parseBody, Sniff.parseBody, skipVector_eq, if_neg hbody, ok_bind]
  cases Sniff.skipVector body 34 1 with
  | none => rfl
  | some pos =>
      simp only
      cases Sniff.skipVector body pos 2 with
      | none => rfl
      | some pos =>
          simp only
          cases Sniff.skipVector body pos 1 with
          | none => rfl
          | some pos =>
              simp only
              by_cases hlen : body.length < pos + 2
              · simp only [if_pos hlen, pure_eq_ok]
              simp only [if_neg hlen, readUint16_eq rfl (Nat.not_lt.mp hlen), ok_bind,
                room_lt_iff hlen]
              by_cases hfits : body.length - (pos + 2) < uint16 body pos
              · simp only [if_pos hfits, pure_eq_ok]
              have hend : pos + 2 + uint16 body pos ≤ body.length := by omega
              have hrounds : (slice body (pos + 2) (uint16 body pos)).length < rounds := by
                rw [length_slice _ (by omega)]
                omega
              simp only [if_neg hfits, subslice_eq_slice hend, ok_bind]
              exact iterate_extensionStep hrounds _

theorem parseRecord_eq {rounds : Nat} {record : Bytes} (hrecord : ¬ record.length < 4)
    (h : record.length < rounds) : parseRecord rounds record = .ok (Sniff.parseRecord record) := by
  unfold parseRecord Sniff.parseRecord
  rw [index_eq (by omega) 0, index_eq (by omega) 0, index_eq (by omega) 0, index_eq (by omega) 0]
  simp only [ok_bind]
  by_cases hfirst : record.getD 0 0 ≠ 1 ∨ record.length < 4
  · rw [if_pos hfirst, if_pos hfirst]
    rfl
  rw [if_neg hfirst, if_neg hfirst]
  generalize (record.getD 1 0).toNat <<< 16 ||| (record.getD 2 0).toNat <<< 8 |||
    (record.getD 3 0).toNat = handshakeLength
  have hroom : (record.length : Int) - 4 < handshakeLength ↔ record.length - 4 < handshakeLength :=
    room_lt_iff hrecord handshakeLength
  by_cases hfits : record.length - 4 < handshakeLength
  · rw [if_pos (hroom.mpr hfits), if_pos hfits]
    rfl
  rw [if_neg (mt hroom.mp hfits), if_neg hfits]
  have hlength : (slice record 4 handshakeLength).length = handshakeLength :=
    length_slice _ (Nat.not_lt.mp hfits)
  by_cases hshort : handshakeLength < 34
  · rw [if_pos hshort, Sniff.parseBody, if_pos (by omega)]
    rfl
  · rw [if_neg hshort, subslice_eq_slice (by omega), ok_bind]
    exact parseBody_eq (by omega) (by omega)

theorem parseTLS_eq {rounds : Nat} {raw : Bytes} (h : raw.length < rounds) :
    parseTLS rounds raw = .ok (Sniff.parseTLS raw) := by
  unfold parseTLS Sniff.parseTLS
  by_cases hlen : raw.length < 5
  · rw [if_pos hlen, if_pos hlen]
  rw [if_neg hlen, if_neg hlen, index_eq (by omega) 0, ok_bind]
  by_cases hfirst : raw.getD 0 0 ≠ 22
  · rw [if_pos hfirst, if_pos hfirst]
    rfl
  rw [if_neg hfirst, if_neg hfirst, readUint16_eq rfl (by omega), ok_bind]
  by_cases hshort : uint16 raw 3 < 4
  · simp only [if_pos hshort, pure_eq_ok]
  by_cases hmissing : raw.length < 5 + uint16 raw 3
  · simp only [if_neg hshort, if_pos hmissing, pure_eq_ok]
  have hlength : (slice raw 5 (uint16 raw 3)).length = uint16 raw 3 := length_slice _ (by omega)
  simp only [if_neg hshort, if_neg hmissing, subslice_eq_slice (Nat.not_lt.mp hmissing), ok_bind]
  rw [parseRecord_eq (by omega) (by omega), ok_bind]
  cases Sniff.parseRecord (slice raw 5 (uint16 raw 3)) with
  | none => rfl
  | some result => rfl

theorem normalizedOrEmpty_eq (host : Bytes) :
    normalizedOrEmpty host = .ok (Sniff.normalizedOrEmpty host) := by
  rw [normalizedOrEmpty, normalizeDomain_eq, ok_bind, Sniff.normalizedOrEmpty]
  cases Policy.normalizeDomain host with
  | error err => rfl
  | ok domain => rfl

theorem normalizeHTTPHost_eq (host : Bytes) :
    normalizeHTTPHost host = .ok (Sniff.normalizeHTTPHost host) := by
  unfold normalizeHTTPHost Sniff.normalizeHTTPHost
  simp only [normalizedOrEmpty_eq]
  split_ifs
  · rfl
  · cases splitHostPort (trimSpace host) with
    | none => rfl
    | some pair =>
        simp only
        split_ifs <;> rfl

theorem findHost_eq (lines : List Bytes) (host : Bytes) :
    findHost lines host = .ok (Sniff.findHost lines host) := by
  induction lines generalizing host with
  | nil => rfl
  | cons line rest ih =>
      rw [findHost, Sniff.findHost]
      cases hcolon : indexByte line 0x3A with
      | none => rfl
      | some place =>
          have hlt := indexByte_lt hcolon
          cases place with
          | zero => rfl
          | succ colon =>
              simp only [subslice_zero (Nat.le_of_lt hlt), ok_bind, ih,
                subslice_to_end (show colon + 2 ≤ line.length from hlt)]
              split_ifs <;> rfl

theorem splitLines_ne_nil (raw : Bytes) : splitLines raw ≠ [] := by
  unfold splitLines
  split
  · simp
  · simp
  · split <;> simp

theorem parseHTTP_eq (raw : Bytes) : parseHTTP raw = .ok (Sniff.parseHTTP raw) := by
  unfold parseHTTP Sniff.parseHTTP
  cases hspace : indexByte raw 0x20 with
  | none => rfl
  | some place =>
      have hlt := indexByte_lt hspace
      cases place with
      | zero => rfl
      | succ space =>
          simp only [subslice_zero (Nat.le_of_lt hlt), ok_bind]
          split_ifs with hmethod
          · rfl
          · cases hend : indexOf [0x0D, 0x0A, 0x0D, 0x0A] raw with
            | none => rfl
            | some stop =>
                have hstop : stop ≤ raw.length := by
                  have hfits := indexOf_le hend
                  omega
                have hlines : 1 ≤ (splitLines (raw.take stop)).length :=
                  List.length_pos_iff.mpr (splitLines_ne_nil _)
                simp only [subslice_zero hstop, ok_bind, subslice_to_end hlines, findHost_eq,
                  List.drop_one, httpResult]
                cases Sniff.findHost (splitLines (raw.take stop)).tail [] with
                | none => rfl
                | some host =>
                    simp only [normalizeHTTPHost_eq, ok_bind, pure_eq_ok]

/-- The parsers are total. On every input no read is out of range and the loops end, so
the checked parsers return what the parsers return; the positions of both loops move
forward in each round, and not past the end. -/
theorem parsers_total :
    (∀ raw rounds, raw.length < rounds → parseTLS rounds raw = .ok (Sniff.parseTLS raw)) ∧
    (∀ raw, parseHTTP raw = .ok (Sniff.parseHTTP raw)) ∧
    (∀ raw pos width, skipVector raw pos width = .ok (Sniff.skipVector raw pos width)) ∧
    (∀ raw rounds, raw.length < rounds →
      parseServerName rounds raw = .ok (Sniff.parseServerName raw)) ∧
    (∀ extensions rounds, extensions.length < rounds → ∀ s,
      ∃ round, extensionStep rounds extensions s = .ok round ∧
        ∀ s', round = .next s' → s.pos < s'.pos ∧ s'.pos ≤ extensions.length) ∧
    ∀ raw pos, ∃ round, serverNameStep raw pos = .ok round ∧
      ∀ pos', round = .next pos' → pos < pos' ∧ pos' ≤ raw.length := by
  refine ⟨fun raw rounds h => parseTLS_eq h, parseHTTP_eq, skipVector_eq,
    fun raw rounds h => parseServerName_eq raw h, fun extensions rounds h s => ?_,
    fun raw pos => ?_⟩
  · rcases extensionStep_cases extensions h s with hdone | ⟨s', hnext, hlt, hle, -⟩
    · exact ⟨_, hdone, fun _ heq => by cases heq⟩
    · refine ⟨_, hnext, fun s'' heq => ?_⟩
      cases heq
      exact ⟨hlt, hle⟩
  · rcases serverNameStep_cases raw pos with hdone | ⟨pos', hnext, hlt, hle, -⟩
    · exact ⟨_, hdone, fun _ heq => by cases heq⟩
    · refine ⟨_, hnext, fun pos'' heq => ?_⟩
      cases heq
      exact ⟨hlt, hle⟩

/-- A message with a server name and an encrypted hello: 70 rounds are enough, and its
second extension is passed in one round. -/
theorem parsers_total_on_hello :
    let extensions : Bytes := [0, 0, 0, 9, 0, 7, 0, 0, 4] ++ ascii "a.cn" ++ [0xFE, 0x0D, 0, 0]
    let raw : Bytes := [22, 3, 1, 0, 64, 1, 0, 0, 60, 3, 3] ++ List.replicate 32 0 ++
      [0, 0, 2, 0x13, 1, 1, 0, 0, 17] ++ extensions
    let found : Result := ⟨ascii "a.cn", .tls, true, true⟩
    Sniff.parseTLS raw = (found, .complete) ∧
      ∃ s', extensionStep 70 extensions ⟨13, true, {}⟩ = .ok (.next s') ∧ 13 < s'.pos ∧
        s'.pos ≤ extensions.length := by
  intro extensions raw found
  obtain ⟨htls, -, -, -, hextension, -⟩ := parsers_total
  constructor
  · have hrun : parseTLS 70 raw = .ok (found, .complete) := by decide +kernel
    have hsame := htls raw 70 (by decide)
    rw [hrun] at hsame
    exact (Except.ok.inj hsame).symm
  · obtain ⟨round, hround, hbounds⟩ := hextension extensions 70 (by decide) ⟨13, true, {}⟩
    have hrun : extensionStep 70 extensions ⟨13, true, {}⟩ =
        .ok (.next ⟨17, true, { ech := true }⟩) := rfl
    rw [hrun] at hround
    exact ⟨_, hrun, hbounds _ (Except.ok.inj hround).symm⟩

end Hy2Route.Sniff.Checked
