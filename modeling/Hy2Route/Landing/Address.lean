import Hy2Route.Foundation.Binary
import Hy2Route.Foundation.HostPort

/-!
# Addresses in a SOCKS5 datagram

A datagram carries three zero bytes, the type of the address, the address with its port,
and the payload. The address has four or sixteen bytes, or is a name behind its length;
the payload is what the reader of the address leaves.
-/

namespace Hy2Route.Landing

open Foundation

inductive AddressError where
  | read
  | emptyDomain
  | unknownType
  deriving DecidableEq

inductive EncodeError where
  | hostPort
  | invalidPort
  | invalidDomain
  deriving DecidableEq

/-- Exactly the given number of bytes from the front. -/
def readBytes (n : Nat) (raw : Bytes) : Except AddressError (Bytes × Bytes) :=
  if raw.length < n then .error .read else .ok (raw.take n, raw.drop n)

@[simp] theorem readBytes_append {n : Nat} {first : Bytes} (h : first.length = n) (rest : Bytes) :
    readBytes n (first ++ rest) = .ok (first, rest) := by
  have hlong : ¬ (first ++ rest).length < n := by
    rw [List.length_append]
    omega
  rw [readBytes, if_neg hlong, List.take_left' h, List.drop_left' h]

section Address

variable (text : AddressText)

/-- The host of an address of the given type. -/
def readHost (typ : UInt8) (raw : Bytes) : Except AddressError (Bytes × Bytes) :=
  if typ = 1 then (readBytes 4 raw).map fun (b, rest) => (text.ipString b, rest)
  else if typ = 4 then (readBytes 16 raw).map fun (b, rest) => (text.ipString b, rest)
  else if typ = 3 then do
    let (n, rest) ← readBytes 1 raw
    let length := ofBigEndian n
    if length = 0 then .error .emptyDomain else readBytes length rest
  else .error .unknownType

def readAddress (typ : UInt8) (raw : Bytes) : Except AddressError (Bytes × Bytes) := do
  let (host, rest) ← readHost text typ raw
  let (port, rest) ← readBytes 2 rest
  .ok (joinHostPort host (Json.numeral (ofBigEndian port)), rest)

/-- The number of a port that can be dialled. -/
def targetPort (port : Bytes) : Option Nat :=
  match atoi port with
  | none => none
  | some p => if p < 1 ∨ 65535 < p then none else some p.toNat

/-- The type of the address and the address. -/
def encodeHost (host : Bytes) : Option (UInt8 × Bytes) :=
  match text.parseIP host with
  | some ip =>
      match to4 ip with
      | some v4 => some (1, v4)
      | none => some (4, ip)
  | none =>
      if host.length = 0 ∨ 255 < host.length then none
      else some (3, UInt8.ofNat host.length :: host)

def encodeUDP (payload target : Bytes) : Except EncodeError Bytes :=
  match splitHostPort target with
  | none => .error .hostPort
  | some (host, port) =>
      match targetPort port with
      | none => .error .invalidPort
      | some p =>
          match encodeHost text host with
          | none => .error .invalidDomain
          | some (typ, address) => .ok ([0, 0, 0, typ] ++ address ++ bigEndian 2 p ++ payload)

/-! ## Canonical targets -/

/-- Hosts that are written as they are read back. -/
inductive CanonicalHost (host : Bytes) : Prop where
  | ipv4 (ip v4 : Bytes) (parsed : text.parseIP host = some ip) (short : to4 ip = some v4)
      (written : text.ipString v4 = host)
  | ipv6 (ip : Bytes) (parsed : text.parseIP host = some ip) (long : to4 ip = none)
      (written : text.ipString ip = host)
  | name (unparsed : text.parseIP host = none) (nonempty : host ≠ []) (fits : host.length ≤ 255)

/-- A target that splits into a canonical host and a canonical port. -/
structure CanonicalTarget (target host : Bytes) (port : Nat) : Prop where
  split : splitHostPort target = some (host, Json.numeral port)
  host : CanonicalHost text host
  port_pos : 1 ≤ port
  port_le : port ≤ 65535

end Address

section RoundTrip

variable {text : AddressText} {host target payload : Bytes} {port : Nat}

theorem targetPort_numeral (hpos : 1 ≤ port) (hle : port ≤ 65535) :
    targetPort (Json.numeral port) = some port := by
  have hrange : ¬ ((port : Int) < 1 ∨ 65535 < (port : Int)) := by omega
  rw [targetPort, atoi_numeral (by omega)]
  simp only [if_neg hrange, Int.toNat_natCast]

theorem toNat_lengthByte {name : Bytes} (h : name.length ≤ 255) :
    (UInt8.ofNat name.length).toNat = name.length := by
  rw [UInt8.toNat_ofNat', Nat.mod_eq_of_lt (by omega)]

/-- A canonical host comes back, with whatever follows. -/
theorem readHost_encodeHost (h : CanonicalHost text host) :
    ∃ typ address, encodeHost text host = some (typ, address) ∧
      ∀ rest, readHost text typ (address ++ rest) = .ok (host, rest) := by
  cases h with
  | ipv4 ip v4 parsed short written =>
      refine ⟨1, v4, by simp only [encodeHost, parsed, short], fun rest => ?_⟩
      simp only [readHost, if_true, readBytes_append (length_to4 short), Except.map, written]
  | ipv6 ip parsed long written =>
      refine ⟨4, ip, by simp only [encodeHost, parsed, long], fun rest => ?_⟩
      have hne : (4 : UInt8) ≠ 1 := by decide
      simp only [readHost, if_neg hne, if_true, readBytes_append (text.length_parseIP parsed),
        Except.map, written]
  | name unparsed nonempty fits =>
      have hpos : host.length ≠ 0 := fun hzero => nonempty (List.length_eq_zero_iff.mp hzero)
      have hbad : ¬ (host.length = 0 ∨ 255 < host.length) := by omega
      refine ⟨3, UInt8.ofNat host.length :: host, by simp only [encodeHost, unparsed, if_neg hbad],
        fun rest => ?_⟩
      have hne : (3 : UInt8) ≠ 1 := by decide
      have hne' : (3 : UInt8) ≠ 4 := by decide
      have hbyte : ofBigEndian [UInt8.ofNat host.length] = host.length := by
        simp [ofBigEndian, toNat_lengthByte fits]
      have hone : readBytes 1 ([UInt8.ofNat host.length] ++ (host ++ rest)) =
          .ok ([UInt8.ofNat host.length], host ++ rest) := readBytes_append rfl _
      rw [List.singleton_append] at hone
      simp only [readHost, if_neg hne, if_neg hne', if_true, List.cons_append, hone, bind,
        Except.bind, hbyte, if_neg hpos, readBytes_append rfl]

/-- An encoded datagram is read back as its target in the written form, and the reader
leaves the payload. -/
theorem readAddress_encodeUDP (h : CanonicalTarget text target host port) (payload : Bytes) :
    ∃ typ body, encodeUDP text payload target = .ok ([0, 0, 0, typ] ++ body) ∧
      readAddress text typ body = .ok (joinHostPort host (Json.numeral port), payload) := by
  obtain ⟨typ, address, hencode, hread⟩ := readHost_encodeHost h.host
  have hport := targetPort_numeral h.port_pos h.port_le
  have hnumber : ofBigEndian (bigEndian 2 port) = port := by
    rw [ofBigEndian_bigEndian, Nat.mod_eq_of_lt (by have := h.port_le; omega)]
  refine ⟨typ, address ++ (bigEndian 2 port ++ payload), ?_, ?_⟩
  · simp only [encodeUDP, h.split, hport, hencode, List.append_assoc]
  · simp only [readAddress, hread, bind, Except.bind, readBytes_append (length_bigEndian 2 port),
      hnumber]

/-- Two canonical targets with the same written form have the same host and port. -/
theorem joinHostPort_inj {target' host' : Bytes} {port' : Nat}
    (h : CanonicalTarget text target host port) (h' : CanonicalTarget text target' host' port')
    (heq : joinHostPort host (Json.numeral port) = joinHostPort host' (Json.numeral port')) :
    host = host' ∧ port = port' := by
  have hsplit := (splitHostPort_join h.split).symm.trans (heq ▸ splitHostPort_join h'.split)
  obtain ⟨hhost, hnumeral⟩ := Prod.mk.injEq _ _ _ _ ▸ Option.some.inj hsplit
  have hvalue := congrArg targetPort hnumeral
  rw [targetPort_numeral h.port_pos h.port_le, targetPort_numeral h'.port_pos h'.port_le] at hvalue
  exact ⟨hhost, Option.some.inj hvalue⟩

/-- Every datagram for a canonical target comes back as the target and the payload, the
target in its written form, and only one host, port and payload have this datagram. -/
theorem encodeUDP_roundTrip (h : CanonicalTarget text target host port) (payload : Bytes) :
    (∃ typ body, encodeUDP text payload target = .ok ([0, 0, 0, typ] ++ body) ∧
      readAddress text typ body = .ok (joinHostPort host (Json.numeral port), payload)) ∧
    (target = joinHostPort host (Json.numeral port) ∨
      (0x3A : UInt8) ∉ host ∧ target = bracketed host (Json.numeral port)) ∧
    ∀ target' host' port' payload', CanonicalTarget text target' host' port' →
      encodeUDP text payload target = encodeUDP text payload' target' →
      host = host' ∧ port = port' ∧ payload = payload' ∧
        (target = joinHostPort host (Json.numeral port) →
          target' = joinHostPort host' (Json.numeral port') → target = target') := by
  obtain ⟨typ, body, hencode, hread⟩ := readAddress_encodeUDP h payload
  refine ⟨⟨typ, body, hencode, hread⟩, ?_, ?_⟩
  · rcases (splitHostPort_eq_some_iff.mp h.split).2 with hjoin | hbracketed
    · exact Or.inl hjoin
    · by_cases hcolon : (0x3A : UInt8) ∈ host
      · refine Or.inl (hbracketed.trans ?_)
        rw [joinHostPort, if_pos hcolon]
      · exact Or.inr ⟨hcolon, hbracketed⟩
  · intro target' host' port' payload' h' heq
    obtain ⟨typ', body', hencode', hread'⟩ := readAddress_encodeUDP h' payload'
    rw [hencode, hencode', Except.ok.injEq] at heq
    obtain ⟨rfl, rfl⟩ : typ = typ' ∧ body = body' := by simpa using heq
    obtain ⟨hjoin, rfl⟩ := Prod.mk.injEq _ _ _ _ ▸ Except.ok.inj (hread.symm.trans hread')
    obtain ⟨rfl, rfl⟩ := joinHostPort_inj h h' hjoin
    exact ⟨rfl, rfl, rfl, fun hwritten hwritten' => hwritten.trans hwritten'.symm⟩

end RoundTrip

theorem encodeUDP_roundTrip_ipv4 :
    CanonicalTarget .dotted (ascii "203.0.113.8:53") (ascii "203.0.113.8") 53 ∧
      ∃ typ body, encodeUDP .dotted [1, 2] (ascii "203.0.113.8:53") =
          .ok ([0, 0, 0, typ] ++ body) ∧
        readAddress .dotted typ body = .ok (ascii "203.0.113.8:53", [1, 2]) := by
  have hhost : CanonicalHost .dotted (ascii "203.0.113.8") :=
    .ipv4 (v4InV6Prefix ++ [203, 0, 113, 8]) [203, 0, 113, 8] (by decide) (by decide) (by decide)
  have htarget : CanonicalTarget .dotted (ascii "203.0.113.8:53") (ascii "203.0.113.8") 53 :=
    ⟨by decide, hhost, by decide, by decide⟩
  have hwritten : joinHostPort (ascii "203.0.113.8") (Json.numeral 53) =
      ascii "203.0.113.8:53" := by decide
  obtain ⟨hround, -⟩ := encodeUDP_roundTrip htarget [1, 2]
  rw [hwritten] at hround
  exact ⟨htarget, hround⟩

/-- Brackets around a name are not written back, and the datagram is that of the target
without them. -/
theorem encodeUDP_drops_brackets :
    let target := ascii "[dns.example]:53"
    let plain := ascii "dns.example:53"
    let body := 11 :: ascii "dns.example" ++ [0, 53]
    CanonicalTarget .dotted target (ascii "dns.example") 53 ∧
      CanonicalTarget .dotted plain (ascii "dns.example") 53 ∧
      encodeUDP .dotted [] target = .ok ([0, 0, 0, 3] ++ body) ∧
      encodeUDP .dotted [] plain = .ok ([0, 0, 0, 3] ++ body) ∧
      readAddress .dotted 3 body = .ok (plain, []) ∧ target ≠ plain := by
  have hhost : CanonicalHost .dotted (ascii "dns.example") :=
    .name (by decide) (by decide) (by decide)
  exact ⟨⟨by decide, hhost, by decide, by decide⟩, ⟨by decide, hhost, by decide, by decide⟩,
    by decide, by decide, by decide, by decide⟩

end Hy2Route.Landing
