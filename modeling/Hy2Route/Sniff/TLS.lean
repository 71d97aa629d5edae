import Hy2Route.Foundation.Binary
import Hy2Route.Policy.Domains

/-!
# Sniffing a TLS ClientHello

The parser walks one record, one handshake message, four vectors and a block of
extensions, and looks into the extension that names the server. Beside it stands
the grammar of the messages that it reads: a message is a structure whose fields
carry the bounds of their lengths.
-/

namespace Hy2Route.Sniff

open Foundation Policy

inductive Protocol where
  | unknown
  | http
  | tls
  deriving DecidableEq

structure Result where
  domain : Bytes := []
  protocol : Protocol := .unknown
  complete : Bool := false
  ech : Bool := false
  deriving DecidableEq

inductive ParseState where
  | invalid
  | incomplete
  | complete
  deriving DecidableEq

/-- The two bytes at a position as a number. -/
def uint16 (raw : Bytes) (pos : Nat) : Nat := ofBigEndian ((raw.drop pos).take 2)

/-- The bytes `raw[start:start+length]`. -/
def slice (raw : Bytes) (start length : Nat) : Bytes := (raw.drop start).take length

def skipVector (raw : Bytes) (pos width : Nat) : Option Nat :=
  if width ≠ 1 ∧ width ≠ 2 then none
  else if raw.length < pos + width then none
  else
    let length := if width = 2 then uint16 raw pos else (raw.getD pos 0).toNat
    let pos := pos + width
    if raw.length - pos < length then none else some (pos + length)

/-- The loop over the entries of a server name list; an empty domain is a failure. -/
def serverNameEntries (raw : Bytes) : Bytes :=
  if raw = [] then []
  else if raw.length < 3 then []
  else
    let nameType := raw.getD 0 0
    let length := uint16 raw 1
    if raw.length - 3 < length then []
    else if nameType = 0 then
      match normalizeDomain (slice raw 3 length) with
      | .ok domain => domain
      | .error _ => []
    else serverNameEntries (raw.drop (3 + length))
termination_by raw.length
decreasing_by
  rw [List.length_drop]
  omega

def parseServerName (raw : Bytes) : Bytes :=
  if raw.length < 2 then []
  else
    let listLength := uint16 raw 0
    if listLength ≠ raw.length - 2 then [] else serverNameEntries (raw.drop 2)

/-- The loop over the extensions; no result is an invalid message. -/
def parseExtensions (extensions : Bytes) (seenSNI : Bool) (result : Result) : Option Result :=
  if extensions = [] then some result
  else if extensions.length < 4 then none
  else
    let typeID := uint16 extensions 0
    let length := uint16 extensions 2
    if extensions.length - 4 < length then none
    else if typeID = 0 then
      if seenSNI then none
      else
        let domain := parseServerName (slice extensions 4 length)
        if domain = [] then none
        else parseExtensions (extensions.drop (4 + length)) true { result with domain := domain }
    else if typeID = 0xFE0D then
      parseExtensions (extensions.drop (4 + length)) seenSNI { result with ech := true }
    else parseExtensions (extensions.drop (4 + length)) seenSNI result
termination_by extensions.length
decreasing_by
  all_goals
    rw [List.length_drop]
    omega

/-- The body of the handshake message. -/
def parseBody (body : Bytes) : Option Result :=
  if body.length < 34 then none
  else match skipVector body 34 1 with
    | none => none
    | some pos => match skipVector body pos 2 with
      | none => none
      | some pos => match skipVector body pos 1 with
        | none => none
        | some pos =>
            if body.length < pos + 2 then none
            else
              let extensionsLength := uint16 body pos
              let pos := pos + 2
              if body.length - pos < extensionsLength then none
              else parseExtensions (slice body pos extensionsLength) false
                { protocol := .tls, complete := true }

/-- The handshake message at the start of the record. -/
def parseRecord (record : Bytes) : Option Result :=
  if record.getD 0 0 ≠ 1 ∨ record.length < 4 then none
  else
    let handshakeLength := (record.getD 1 0).toNat <<< 16 ||| (record.getD 2 0).toNat <<< 8 |||
      (record.getD 3 0).toNat
    if record.length - 4 < handshakeLength then none
    else parseBody (slice record 4 handshakeLength)

def parseTLS (raw : Bytes) : Result × ParseState :=
  if raw.length < 5 then ({}, .incomplete)
  else if raw.getD 0 0 ≠ 22 then ({}, .invalid)
  else
    let recordLength := uint16 raw 3
    if recordLength < 4 then ({}, .invalid)
    else if raw.length < 5 + recordLength then ({}, .incomplete)
    else match parseRecord (slice raw 5 recordLength) with
      | none => ({}, .invalid)
      | some result => (result, .complete)

/-! ## Messages -/

/-- An entry of a server name list. -/
def nameEntry (nameType : UInt8) (name : Bytes) : Bytes := nameType :: vector 2 name

/-- A server name list: entries of other types, then a host name that normalizes,
then anything. -/
structure ServerName where
  others : List (UInt8 × Bytes)
  name : Bytes
  tail : Bytes
  domain : Bytes
  others_ne : ∀ entry ∈ others, entry.1 ≠ 0
  others_lt : ∀ entry ∈ others, entry.2.length < 256 ^ 2
  name_lt : name.length < 256 ^ 2
  normal : normalizeDomain name = .ok domain

namespace ServerName

variable (sn : ServerName)

def list : Bytes :=
  sn.others.flatMap (fun entry => nameEntry entry.1 entry.2) ++ nameEntry 0 sn.name ++ sn.tail

def encode : Bytes := vector 2 sn.list

end ServerName

structure Extension where
  typeID : Nat
  data : Bytes
  typeID_lt : typeID < 256 ^ 2
  data_lt : data.length < 256 ^ 2

def Extension.encode (ext : Extension) : Bytes := bigEndian 2 ext.typeID ++ vector 2 ext.data

def encodeExtensions (list : List Extension) : Bytes := list.flatMap Extension.encode

/-- A block of extensions with at most one server name. -/
structure Extensions where
  before : List Extension
  sni : Option ServerName
  after : List Extension
  before_ne : ∀ ext ∈ before, ext.typeID ≠ 0
  sni_lt : ∀ sn ∈ sni, sn.encode.length < 256 ^ 2
  after_ne : ∀ ext ∈ after, ext.typeID ≠ 0

namespace Extensions

variable (exts : Extensions)

def encode : Bytes :=
  encodeExtensions exts.before ++
    (match exts.sni with
      | none => []
      | some sn => bigEndian 2 0 ++ vector 2 sn.encode) ++
    encodeExtensions exts.after

def domain : Bytes :=
  match exts.sni with
  | none => []
  | some sn => sn.domain

def ech : Bool := (exts.before ++ exts.after).any (·.typeID == 0xFE0D)

end Extensions

/-- The body of a ClientHello: version and random, three vectors, the extensions
and anything. -/
structure HelloBody where
  opening : Bytes
  sessionID : Bytes
  cipherSuites : Bytes
  compressionMethods : Bytes
  extensions : Extensions
  tail : Bytes
  opening_length : opening.length = 34
  sessionID_lt : sessionID.length < 256 ^ 1
  cipherSuites_lt : cipherSuites.length < 256 ^ 2
  compressionMethods_lt : compressionMethods.length < 256 ^ 1
  extensions_lt : extensions.encode.length < 256 ^ 2

def HelloBody.encode (body : HelloBody) : Bytes :=
  body.opening ++ (vector 1 body.sessionID ++ (vector 2 body.cipherSuites ++
    (vector 1 body.compressionMethods ++ (vector 2 body.extensions.encode ++ body.tail))))

/-- The record of a ClientHello: the whole message and anything. -/
structure ClientHello where
  version : Bytes
  body : HelloBody
  tail : Bytes
  version_length : version.length = 2
  record_lt : (1 :: (vector 3 body.encode ++ tail)).length < 256 ^ 2

namespace ClientHello

variable (hello : ClientHello)

def record : Bytes := 1 :: (vector 3 hello.body.encode ++ hello.tail)

def encode : Bytes := 22 :: (hello.version ++ vector 2 hello.record)

/-- What a parser should find in the message. -/
def result : Result where
  domain := hello.body.extensions.domain
  protocol := .tls
  complete := true
  ech := hello.body.extensions.ech

end ClientHello

/-! ## Reading vectors -/

/-- A vector is taken at a position when its length and its data are there. -/
theorem takeVector_drop_iff {raw data rest : Bytes} {pos width : Nat} (hwidth : 0 < width) :
    takeVector width (raw.drop pos) = some (data, rest) ↔
      ¬ raw.length < pos + width ∧
        ¬ raw.length - (pos + width) < ofBigEndian (slice raw pos width) ∧
        data = slice raw (pos + width) (ofBigEndian (slice raw pos width)) ∧
        rest = raw.drop (pos + width + ofBigEndian (slice raw pos width)) := by
  have hshort : (raw.drop pos).length < width ↔ raw.length < pos + width := by
    rw [List.length_drop]
    omega
  have hlength : (raw.drop pos).length - width = raw.length - (pos + width) := by
    rw [List.length_drop]
    omega
  simp only [takeVector, hshort, hlength, List.drop_drop, ← Nat.add_assoc, slice]
  by_cases hlen : raw.length < pos + width
  · simp [hlen]
  · by_cases hfits : raw.length - (pos + width) < ofBigEndian ((raw.drop pos).take width)
    · simp [hfits]
    · simp only [hlen, hfits, if_false, Option.some.injEq, Prod.mk.injEq, not_false_eq_true,
        true_and, eq_comm]

/-- The checks of a length that stands at a position are those of `takeVector`. -/
theorem match_takeVector_drop {α : Type} (raw : Bytes) (pos : Nat) {width : Nat}
    (hwidth : 0 < width) (fail : α) (next : Bytes → Bytes → α) :
    (if raw.length < pos + width then fail
      else if raw.length - (pos + width) < ofBigEndian (slice raw pos width) then fail
      else next (slice raw (pos + width) (ofBigEndian (slice raw pos width)))
        (raw.drop (pos + width + ofBigEndian (slice raw pos width)))) =
      match takeVector width (raw.drop pos) with
      | none => fail
      | some (data, rest) => next data rest := by
  have htaken : ∀ data rest, takeVector width (raw.drop pos) = some (data, rest) ↔ _ :=
    fun data rest => takeVector_drop_iff hwidth
  cases htake : takeVector width (raw.drop pos) with
  | none =>
      simp only [htake, reduceCtorEq, false_iff, not_and] at htaken
      split_ifs with hlen hfits
      · rfl
      · rfl
      · exact absurd rfl (htaken _ _ hlen hfits rfl)
  | some taken =>
      obtain ⟨hlen, hfits, hdata, hrest⟩ := (htaken taken.1 taken.2).mp htake
      rw [if_neg hlen, if_neg hfits, ← hdata, ← hrest]

theorem ofBigEndian_slice_one {raw : Bytes} {pos : Nat} (h : pos < raw.length) :
    ofBigEndian (slice raw pos 1) = (raw.getD pos 0).toNat := by
  have hdrop : raw.drop pos = raw[pos] :: raw.drop (pos + 1) := List.drop_eq_getElem_cons h
  rw [slice, hdrop, List.getD_eq_getElem?_getD, List.getElem?_eq_getElem h]
  simp only [List.take_succ_cons, List.take_zero, ofBigEndian, List.length_nil, pow_zero,
    Nat.mul_one, Nat.add_zero, Option.getD_some]

theorem length_slice {raw : Bytes} (start : Nat) {length : Nat} (h : length ≤ raw.length - start) :
    (slice raw start length).length = length := by
  rw [slice, List.length_take, List.length_drop]
  omega

/-- A skipped vector is one that can be taken, and its end is where the rest starts. -/
theorem skipVector_iff {raw : Bytes} {pos width next : Nat} (hwidth : width = 1 ∨ width = 2) :
    skipVector raw pos width = some next ↔
      ∃ data, takeVector width (raw.drop pos) = some (data, raw.drop next) ∧
        next = pos + width + data.length := by
  have hnumber : ¬ raw.length < pos + width →
      (if width = 2 then uint16 raw pos else (raw.getD pos 0).toNat) =
        ofBigEndian (slice raw pos width) := by
    intro hlen
    rcases hwidth with rfl | rfl
    · rw [if_neg (by decide), ofBigEndian_slice_one (by omega)]
    · rfl
  have hwidth' : ¬ (width ≠ 1 ∧ width ≠ 2) := by omega
  have hpos : 0 < width := by omega
  rw [skipVector, if_neg hwidth']
  by_cases hlen : raw.length < pos + width
  · simp only [if_pos hlen, reduceCtorEq, false_iff]
    rintro ⟨data, htake, -⟩
    exact ((takeVector_drop_iff hpos).mp htake).1 hlen
  · simp only [if_neg hlen, hnumber hlen]
    constructor
    · intro h
      split_ifs at h with hfits
      cases h
      refine ⟨_, (takeVector_drop_iff hpos).mpr ⟨hlen, hfits, rfl, rfl⟩, ?_⟩
      rw [length_slice _ (Nat.le_of_not_lt hfits)]
    · rintro ⟨data, htake, rfl⟩
      obtain ⟨-, hfits, hdata, -⟩ := (takeVector_drop_iff hpos).mp htake
      rw [if_neg hfits, hdata, length_slice _ (Nat.le_of_not_lt hfits)]

end Hy2Route.Sniff
