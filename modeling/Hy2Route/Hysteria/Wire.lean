import Hy2Route.Foundation.Varint

/-!
# The wire format of Hysteria

A UDP message is one datagram: its session, its packet and fragment numbers, an address
behind its length, and data that is never empty. The length is an integer of variable width,
which is written here, while a library reads it and computes its width.
-/

namespace Hy2Route.Hysteria

open Foundation

def maxMessageLength : Nat := 2048

def maxUDPSize : Nat := 4096

/-- The source panics above `maxVarInt8`; the lengths that are written have fewer bits. -/
def varintPut (i : Nat) : Bytes :=
  if i ≤ 63 then [UInt8.ofNat i]
  else if i ≤ 16383 then [UInt8.ofNat (i >>> 8) ||| 0x40, UInt8.ofNat i]
  else if i ≤ 1073741823 then
    [UInt8.ofNat (i >>> 24) ||| 0x80, UInt8.ofNat (i >>> 16), UInt8.ofNat (i >>> 8),
      UInt8.ofNat i]
  else
    [UInt8.ofNat (i >>> 56) ||| 0xc0, UInt8.ofNat (i >>> 48), UInt8.ofNat (i >>> 40),
      UInt8.ofNat (i >>> 32), UInt8.ofNat (i >>> 24), UInt8.ofNat (i >>> 16),
      UInt8.ofNat (i >>> 8), UInt8.ofNat i]

/-- The library of the integers of variable width. Above `maxVarInt8` its `Len` panics. -/
class Quicvarint where
  /-- `Read`, from what is left of the bytes. -/
  read : Bytes → Option (Nat × Bytes)
  len : Nat → Nat
  read_eq_some_iff : ∀ {s rest : Bytes} {n : Nat}, read s = some (n, rest) ↔
    ∃ size, size ≤ 3 ∧ n < varintBound size ∧ s = varintIn size n ++ rest
  len_eq : ∀ {n : Nat}, n < varintBound 3 → len n = 2 ^ varintSize n

instance : Quicvarint where
  read := takeVarint
  len n := 2 ^ varintSize n
  read_eq_some_iff := takeVarint_eq_some_iff
  len_eq _ := rfl

/-! ## Widths -/

theorem or_class (high size : Nat) (hhigh : high < 64) (hsize : size ≤ 3) :
    UInt8.ofNat high ||| UInt8.ofNat (size * 64) = UInt8.ofNat (size * 64 + high) := by
  refine UInt8.toNat_inj.mp ?_
  have hor : size * 64 ||| high = size * 64 + high := by
    rw [Nat.mul_comm]
    exact (Nat.two_pow_add_eq_or_of_lt (i := 6) hhigh size).symm
  rw [UInt8.toNat_or, UInt8.toNat_ofNat', UInt8.toNat_ofNat', UInt8.toNat_ofNat',
    Nat.mod_eq_of_lt (show high < 2 ^ 8 by omega),
    Nat.mod_eq_of_lt (show size * 64 < 2 ^ 8 by omega), Nat.or_comm, hor,
    Nat.mod_eq_of_lt (by omega)]

/-- What is put is the number in the least width. -/
theorem varintPut_eq {i : Nat} (hi : i < varintBound 3) : varintPut i = varint i := by
  have h₀ : varintBound 0 = 64 := by decide
  have h₁ : varintBound 1 = 16384 := by decide
  have h₂ : varintBound 2 = 1073741824 := by decide
  have h₃ : varintBound 3 = 4611686018427387904 := by decide
  unfold varintPut varint varintSize
  simp only [h₀, h₁, h₂, Nat.shiftRight_eq_div_pow, Nat.reducePow]
  rw [h₃] at hi
  split_ifs with a₀ b₀ a₁ b₁ a₂ b₂ <;> try omega
  · simp [varintIn, varintTail, bigEndian]
  · have hclass := or_class (i / 256) 1 (by omega) (by decide)
    simpa [varintIn, varintTail, bigEndian] using hclass
  · have hclass := or_class (i / 16777216) 2 (by omega) (by decide)
    simpa [varintIn, varintTail, bigEndian] using hclass
  · have hclass := or_class (i / 72057594037927936) 3 (by omega) (by decide)
    simpa [varintIn, varintTail, bigEndian] using hclass

theorem length_varintPut (i : Nat) : (varintPut i).length = 2 ^ varintSize i := by
  have h₀ : varintBound 0 = 64 := by decide
  have h₁ : varintBound 1 = 16384 := by decide
  have h₂ : varintBound 2 = 1073741824 := by decide
  unfold varintPut varintSize
  simp only [h₀, h₁, h₂]
  split_ifs <;> first | rfl | omega

/-! ## UDP -/

section Format

variable [Quicvarint]

structure UDPMessage where
  sessionID : UInt32
  packetID : UInt16
  fragID : UInt8
  fragCount : UInt8
  addr : Bytes
  data : Bytes
  deriving DecidableEq, Inhabited

namespace UDPMessage

def headerSize (m : UDPMessage) : Nat :=
  4 + 2 + 1 + 1 + Quicvarint.len m.addr.length + m.addr.length

def size (m : UDPMessage) : Nat := m.headerSize + m.data.length

def bytes (m : UDPMessage) : Bytes :=
  bigEndian 4 m.sessionID.toNat ++ bigEndian 2 m.packetID.toNat ++ [m.fragID, m.fragCount] ++
    varintPut m.addr.length ++ m.addr ++ m.data

/-- The message in a buffer of the given length, when there is room for it. -/
def serialize (m : UDPMessage) (buf : Nat) : Option Bytes :=
  if buf < m.size then none else some m.bytes

end UDPMessage

inductive ParseError where
  | read
  /-- invalid address length -/
  | addressLength
  /-- invalid message length -/
  | messageLength
  deriving DecidableEq

def parseUDPMessage (msg : Bytes) : Except ParseError UDPMessage := do
  let (sessionID, buf) ← takeNumber 4 .read msg
  let (packetID, buf) ← takeNumber 2 .read buf
  let (fragID, buf) ← takeNumber 1 .read buf
  let (fragCount, buf) ← takeNumber 1 .read buf
  let (lAddr, bs) ← (Quicvarint.read buf).elim (.error .read) .ok
  if lAddr = 0 ∨ maxMessageLength < lAddr then .error .addressLength
  else if bs.length ≤ lAddr then .error .messageLength
  else return {
    sessionID := UInt32.ofNat sessionID
    packetID := UInt16.ofNat packetID
    fragID := UInt8.ofNat fragID
    fragCount := UInt8.ofNat fragCount
    addr := bs.take lAddr
    data := bs.drop lAddr }

end Format

namespace UDPMessage

/-- What a receiver takes: an address that is not empty and not too long, and some data. -/
structure Valid (m : UDPMessage) : Prop where
  addr : m.addr ≠ []
  short : m.addr.length ≤ maxMessageLength
  data : m.data ≠ []

instance (m : UDPMessage) : Decidable m.Valid :=
  decidable_of_iff (m.addr ≠ [] ∧ m.addr.length ≤ maxMessageLength ∧ m.data ≠ [])
    ⟨fun ⟨haddr, hshort, hdata⟩ => ⟨haddr, hshort, hdata⟩, fun h => ⟨h.addr, h.short, h.data⟩⟩

/-- The message with the length of its address in the given width. -/
def bytesIn (m : UDPMessage) (width : Nat) : Bytes :=
  bigEndian 4 m.sessionID.toNat ++ (bigEndian 2 m.packetID.toNat ++
    (bigEndian 1 m.fragID.toNat ++ (bigEndian 1 m.fragCount.toNat ++
      (varintIn width m.addr.length ++ (m.addr ++ m.data)))))

theorem lt_varintBound {m : UDPMessage} (h : m.addr.length ≤ maxMessageLength) :
    m.addr.length < varintBound 3 :=
  Nat.lt_of_le_of_lt h (by decide)

theorem bytes_eq {m : UDPMessage} (h : m.addr.length < varintBound 3) :
    m.bytes = m.bytesIn (varintSize m.addr.length) := by
  have hbyte (b : UInt8) : bigEndian 1 b.toNat = [b] := by simp [bigEndian]
  rw [bytes, bytesIn, varintPut_eq h, hbyte, hbyte, varint]
  simp only [List.append_assoc, List.cons_append, List.nil_append]

end UDPMessage

section Parsing

variable [Quicvarint]

theorem UDPMessage.lt_varintBound_of_size {m : UDPMessage} (h : m.size ≤ maxUDPSize) :
    m.addr.length < varintBound 3 := by
  have hbound : maxUDPSize < varintBound 3 := by decide
  rw [size, headerSize] at h
  omega

/-- The size that is computed beforehand is the length. -/
theorem UDPMessage.length_bytes {m : UDPMessage} (h : m.size ≤ maxUDPSize) :
    m.bytes.length = m.size := by
  simp only [bytes, size, headerSize, List.length_append, length_bigEndian, List.length_cons,
    List.length_nil, length_varintPut, Quicvarint.len_eq (lt_varintBound_of_size h)]

/-- What the parser makes of a message with the length of its address in any width. -/
theorem parseUDPMessage_bytesIn {m : UDPMessage} {width : Nat} (hwidth : width ≤ 3)
    (hbound : m.addr.length < varintBound width) :
    parseUDPMessage (m.bytesIn width) =
      if m.addr = [] ∨ maxMessageLength < m.addr.length then .error .addressLength
      else if m.data = [] then .error .messageLength
      else .ok m := by
  have hok {α β : Type} (a : α) (f : α → Except ParseError β) : (Except.ok a >>= f) = f a := rfl
  have hsession : m.sessionID.toNat < 256 ^ 4 := m.sessionID.toNat_lt
  have hpacket : m.packetID.toNat < 256 ^ 2 := m.packetID.toNat_lt
  have hfrag : m.fragID.toNat < 256 ^ 1 := m.fragID.toNat_lt
  have hcount : m.fragCount.toNat < 256 ^ 1 := m.fragCount.toNat_lt
  have hdata : (m.addr ++ m.data).length ≤ m.addr.length ↔ m.data = [] := by
    rw [List.length_append, ← List.length_eq_zero_iff]
    omega
  have hlength : Quicvarint.read (varintIn width m.addr.length ++ (m.addr ++ m.data)) =
      some (m.addr.length, m.addr ++ m.data) :=
    Quicvarint.read_eq_some_iff.mpr ⟨width, hwidth, hbound, rfl⟩
  simp only [parseUDPMessage, UDPMessage.bytesIn, takeNumber_bigEndian hsession,
    takeNumber_bigEndian hpacket, takeNumber_bigEndian hfrag, takeNumber_bigEndian hcount,
    hlength, Option.elim_some, hok, List.length_eq_zero_iff, hdata,
    List.take_left, List.drop_left, UInt32.ofNat_toNat, UInt16.ofNat_toNat, UInt8.ofNat_toNat]
  rfl

/-- What is parsed is a message in one of the widths for the length of its address. -/
theorem parseUDPMessage_eq_ok_iff {s : Bytes} {m : UDPMessage} :
    parseUDPMessage s = .ok m ↔
      m.Valid ∧ ∃ width, width ≤ 3 ∧ m.addr.length < varintBound width ∧ s = m.bytesIn width := by
  have helim {x : Option (Nat × Bytes)} {p : Nat × Bytes} :
      x.elim (Except.error ParseError.read) Except.ok = Except.ok p ↔ x = some p := by
    cases x <;> simp
  constructor
  · unfold parseUDPMessage
    simp only [bind_eq_ok_iff, Prod.exists, takeNumber_eq_ok_iff, helim,
      Quicvarint.read_eq_some_iff]
    rintro ⟨session, _, ⟨hsession, rfl⟩, packet, _, ⟨hpacket, rfl⟩, frag, _, ⟨hfrag, rfl⟩, count, _,
      ⟨hcount, rfl⟩, length, bs, ⟨width, hwidth, hbound, rfl⟩, h⟩
    split_ifs at h with hlength hshort
    obtain rfl := Except.ok.inj h
    rw [not_or, Nat.not_lt] at hlength
    rw [Nat.not_le] at hshort
    have htake : (bs.take length).length = length := List.length_take_of_le (Nat.le_of_lt hshort)
    refine ⟨⟨?_, ?_, ?_⟩, width, hwidth, ?_, ?_⟩
    · rw [← List.length_pos_iff_ne_nil, htake]
      omega
    · rw [htake]
      exact hlength.2
    · rw [← List.length_pos_iff_ne_nil, List.length_drop]
      omega
    · rwa [htake]
    · rw [UDPMessage.bytesIn, htake, List.take_append_drop,
        UInt32.toNat_ofNat_of_lt' hsession, UInt16.toNat_ofNat_of_lt' hpacket,
        UInt8.toNat_ofNat_of_lt' hfrag, UInt8.toNat_ofNat_of_lt' hcount]
  · rintro ⟨⟨haddr, hshort, hdata⟩, width, hwidth, hbound, rfl⟩
    rw [parseUDPMessage_bytesIn hwidth hbound,
      if_neg (not_or.mpr ⟨haddr, Nat.not_lt.mpr hshort⟩), if_neg hdata]

/-- A message that is written is read back as itself, or not at all. -/
theorem parseUDPMessage_bytes_eq_ok_iff {m m' : UDPMessage}
    (haddr : m.addr.length < varintBound 3) :
    parseUDPMessage m.bytes = .ok m' ↔ m' = m ∧ m.Valid := by
  rw [UDPMessage.bytes_eq haddr,
    parseUDPMessage_bytesIn (varintSize_le _) (lt_varintBound_varintSize haddr)]
  constructor
  · intro h
    split_ifs at h with hlength hempty
    rw [not_or, Nat.not_lt] at hlength
    exact ⟨(Except.ok.inj h).symm, hlength.1, hlength.2, hempty⟩
  · rintro ⟨rfl, hvalid⟩
    rw [if_neg (not_or.mpr ⟨hvalid.addr, Nat.not_lt.mpr hvalid.short⟩), if_neg hvalid.data]

theorem parseUDPMessage_bytes {m : UDPMessage} (h : m.Valid) :
    parseUDPMessage m.bytes = .ok m :=
  (parseUDPMessage_bytes_eq_ok_iff (UDPMessage.lt_varintBound h.short)).mpr ⟨rfl, h⟩

/-- A message and its datagram. -/
structure UDPMessage.Format (m : UDPMessage) (buf : Nat) : Prop where
  /-- The size that is computed beforehand is the length. -/
  length : ∀ s, m.serialize buf = some s → s.length = m.size
  back : ∀ s, m.serialize buf = some s → ∀ m', parseUDPMessage s = .ok m' ↔ m' = m ∧ m.Valid
  /-- What is parsed is a valid message, in this width for its length or another one. -/
  parsed : ∀ s, parseUDPMessage s = .ok m ↔ m.Valid ∧
    ∃ width, width ≤ 3 ∧ m.addr.length < varintBound width ∧ s = m.bytesIn width

theorem udpMessage_format (m : UDPMessage) {buf : Nat} (hbuf : buf ≤ maxUDPSize) :
    m.Format buf := by
  have hserialize {s : Bytes} : m.serialize buf = some s ↔ m.size ≤ buf ∧ s = m.bytes := by
    rw [UDPMessage.serialize]
    split_ifs with hlarge
    · simp [Nat.not_le.mpr hlarge]
    · simp [Nat.not_lt.mp hlarge, eq_comm]
  refine ⟨fun s hs => ?_, fun s hs m' => ?_, fun s => parseUDPMessage_eq_ok_iff⟩
  · obtain ⟨hsize, rfl⟩ := hserialize.mp hs
    exact UDPMessage.length_bytes (hsize.trans hbuf)
  · obtain ⟨hsize, rfl⟩ := hserialize.mp hs
    exact parseUDPMessage_bytes_eq_ok_iff (UDPMessage.lt_varintBound_of_size (hsize.trans hbuf))

end Parsing

theorem udpMessage_format_small :
    UDPMessage.Format ⟨1, 2, 0, 1, [0x61], [0x62]⟩ 64 :=
  udpMessage_format _ (by decide)

end Hy2Route.Hysteria
