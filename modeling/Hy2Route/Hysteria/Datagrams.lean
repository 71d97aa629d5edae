import Hy2Route.Hysteria.Fragments

/-!
# UDP messages over datagrams

A session sends a message as one datagram and cuts it only when the link finds it too
large. A message that does not fit the buffer is dropped without an error. The receiver
skips what cannot be parsed. Datagrams may be lost, repeated and reordered.
-/

namespace Hy2Route.Hysteria

open Foundation Defragger

/-! ## Sending -/

inductive SendError where
  /-- The largest payload that would have been taken. -/
  | tooLarge (maxDatagramPayloadSize : Nat)
  | closed
  deriving DecidableEq

/-- The connection below: what it answers to each attempt and what it has taken. -/
structure Link where
  answer : Nat → Bytes → Option SendError
  honest : ∀ n b max, answer n b = some (.tooLarge max) → max < b.length
  attempts : Nat
  sent : List Bytes

def Link.sendDatagram (l : Link) (b : Bytes) : Option SendError × Link :=
  match l.answer l.attempts b with
  | none => (none, { l with attempts := l.attempts + 1, sent := l.sent ++ [b] })
  | some err => (some err, { l with attempts := l.attempts + 1 })

section Sending

variable [Quicvarint]

/-- A message that is larger than the buffer is dropped. -/
def sendMessage (m : UDPMessage) (l : Link) : Option SendError × Link :=
  match m.serialize maxUDPSize with
  | none => (none, l)
  | some b => l.sendDatagram b

def sendMessages : List UDPMessage → Link → Option SendError × Link
  | [], l => (none, l)
  | m :: rest, l =>
      match sendMessage m l with
      | (none, l) => sendMessages rest l
      | (some err, l) => (some err, l)

/-- A message of the session that has not been cut. -/
def message (id : UInt32) (packetID : UInt16) (data addr : Bytes) : UDPMessage :=
  ⟨id, packetID, 0, 1, addr, data⟩

/-- The packet number for a random number below 65535. -/
def packetNumber (random : Nat) : UInt16 := UInt16.ofNat random + 1

/-- `udpConn.Send`; a fault is a panic of the source. -/
def send (rounds : Nat) (id : UInt32) (random : Nat) (data addr : Bytes) (l : Link) :
    Except Fault (Option SendError × Link) :=
  match sendMessage (message id 0 data addr) l with
  | (some (.tooLarge maxSize), l) => do
      let frags ← fragUDPMessage rounds (message id (packetNumber random) data addr) maxSize
      return sendMessages frags l
  | (result, l) => .ok (result, l)

/-- The messages that the session manager gets to see; `ReceiveMessage` skips the rest. -/
def parsed (arrival : List Bytes) : List UDPMessage :=
  arrival.filterMap fun b => (parseUDPMessage b).toOption

/-! ## What is sent -/

variable {m : UDPMessage} {l : Link}

theorem sendMessage_spec (m : UDPMessage) (l : Link) :
    ∃ packets, (sendMessage m l).2.sent = l.sent ++ packets ∧
      (packets = [] ∨ packets = [m.bytes] ∧ m.size ≤ maxUDPSize) ∧
      ((sendMessage m l).1 = none → m.size ≤ maxUDPSize → packets = [m.bytes]) ∧
      ∀ max, (sendMessage m l).1 = some (.tooLarge max) →
        packets = [] ∧ max < m.size ∧ m.size ≤ maxUDPSize := by
  by_cases hsize : maxUDPSize < m.size
  · have hdrop : sendMessage m l = (none, l) := by
      rw [sendMessage, UDPMessage.serialize, if_pos hsize]
    rw [hdrop]
    refine ⟨[], (List.append_nil _).symm, Or.inl rfl, fun _ hfits => ?_, fun max h => by cases h⟩
    omega
  · have hsend : sendMessage m l = l.sendDatagram m.bytes := by
      rw [sendMessage, UDPMessage.serialize, if_neg hsize]
    rw [hsend, Link.sendDatagram]
    have hfits := Nat.not_lt.mp hsize
    cases hanswer : l.answer l.attempts m.bytes with
    | none => exact ⟨[m.bytes], rfl, Or.inr ⟨rfl, hfits⟩, fun _ _ => rfl, fun max h => by cases h⟩
    | some err =>
        refine ⟨[], (List.append_nil _).symm, Or.inl rfl, fun h => (by cases h), fun max h => ?_⟩
        have hlarge := l.honest _ _ max (hanswer.trans h)
        rw [UDPMessage.length_bytes hfits] at hlarge
        exact ⟨rfl, hlarge, hfits⟩

theorem sendMessages_spec (ms : List UDPMessage) (l : Link)
    (hfits : ∀ m ∈ ms, m.size ≤ maxUDPSize) :
    ∃ packets, (sendMessages ms l).2.sent = l.sent ++ packets ∧
      packets ⊆ ms.map UDPMessage.bytes ∧
      ((sendMessages ms l).1 = none → packets = ms.map UDPMessage.bytes) := by
  induction ms generalizing l with
  | nil => exact ⟨[], (List.append_nil _).symm, List.nil_subset _, fun _ => rfl⟩
  | cons m rest ih =>
      obtain ⟨first, hsent, hfirst, hok, -⟩ := sendMessage_spec m l
      have hsub : first ⊆ [m.bytes] := by
        rcases hfirst with rfl | ⟨rfl, -⟩
        · exact List.nil_subset _
        · exact List.Subset.refl _
      cases hresult : sendMessage m l with
      | mk result after =>
          rw [hresult] at hsent hok
          cases result with
          | some err =>
              have hall : sendMessages (m :: rest) l = (some err, after) := by
                simp only [sendMessages, hresult]
              rw [hall]
              refine ⟨first, hsent, fun b hb => ?_, fun h => by cases h⟩
              exact List.mem_cons.mpr (Or.inl (List.mem_singleton.mp (hsub hb)))
          | none =>
              have hall : sendMessages (m :: rest) l = sendMessages rest after := by
                simp only [sendMessages, hresult]
              have hm := hok rfl (hfits m List.mem_cons_self)
              obtain ⟨others, hrest, hothers, hdone⟩ :=
                ih after fun m hm => hfits m (List.mem_cons_of_mem _ hm)
              rw [hall]
              refine ⟨first ++ others, ?_, ?_, fun h => ?_⟩
              · rw [hrest, hsent, List.append_assoc]
              · rw [hm]
                exact List.cons_subset_cons _ hothers
              · rw [hm, hdone h]
                rfl

/-- How a message goes out: not at all, in one piece, or as fragments. -/
inductive Packets (id : UInt32) (random : Nat) (data addr : Bytes) (err : Option SendError) :
    List Bytes → Prop
  | nothing : Packets id random data addr err []
  | whole (hfits : (message id 0 data addr).size ≤ maxUDPSize) :
      Packets id random data addr err [(message id 0 data addr).bytes]
  | fragments {max : Nat} {packets : List Bytes}
      (hfits : (message id 0 data addr).size ≤ maxUDPSize)
      (hcuts : Cuts (message id (packetNumber random) data addr) max)
      (hsub : packets ⊆ (cut (message id (packetNumber random) data addr) max).map
        UDPMessage.bytes)
      (hall : err = none → packets =
        (cut (message id (packetNumber random) data addr) max).map UDPMessage.bytes) :
      Packets id random data addr err packets

/-- Whatever the link answers, what has been sent is one of these. -/
theorem send_packets {rounds : Nat} (hrounds : 256 ≤ rounds) {id : UInt32} {random : Nat}
    {data addr : Bytes} {err : Option SendError} {after : Link}
    (h : send rounds id random data addr l = .ok (err, after)) :
    ∃ packets, after.sent = l.sent ++ packets ∧ Packets id random data addr err packets := by
  obtain ⟨first, hsent, hfirst, -, hlarge⟩ := sendMessage_spec (message id 0 data addr) l
  cases hresult : sendMessage (message id 0 data addr) l with
  | mk result middle =>
      rw [hresult] at hsent hlarge
      -- anything but a message that is too large is the result
      have hwhole (hsend : send rounds id random data addr l = .ok (result, middle)) :
          ∃ packets, after.sent = l.sent ++ packets ∧ Packets id random data addr err packets := by
        obtain ⟨rfl, rfl⟩ := Prod.mk.inj (Except.ok.inj (hsend.symm.trans h))
        refine ⟨first, hsent, ?_⟩
        rcases hfirst with rfl | ⟨rfl, hfits⟩
        · exact .nothing
        · exact .whole hfits
      match result with
      | none => exact hwhole (by simp only [send, hresult])
      | some .closed => exact hwhole (by simp only [send, hresult])
      | some (.tooLarge maxSize) =>
          obtain ⟨rfl, hless, hfits⟩ := hlarge maxSize rfl
          rw [List.append_nil] at hsent
          have hsize : (message id (packetNumber random) data addr).size =
            (message id 0 data addr).size := rfl
          rw [← hsize] at hless
          simp only [send, hresult] at h
          obtain ⟨frags, hfrags, hdone⟩ := bind_eq_ok_iff.mp h
          have hdone : sendMessages frags middle = (err, after) := Except.ok.inj hdone
          rcases Nat.lt_or_ge (message id (packetNumber random) data addr).headerSize maxSize
            with hheader | hheader
          · rw [fragUDPMessage_eq hless hheader hrounds] at hfrags
            split_ifs at hfrags with hfew
            obtain rfl := Except.ok.inj hfrags
            have hcuts : Cuts (message id (packetNumber random) data addr)
                (maxSize - (message id (packetNumber random) data addr).headerSize) := by
              refine ⟨by omega, ?_, hfew⟩
              rw [UDPMessage.size] at hless
              omega
            have hsmall : ∀ a ∈ cut (message id (packetNumber random) data addr)
                (maxSize - (message id (packetNumber random) data addr).headerSize),
                a.size ≤ maxUDPSize := by
              intro a ha
              obtain ⟨i, hi, rfl⟩ := exists_of_mem_cut ha
              have := (fragment_fits hcuts.pos hi).2
              omega
            obtain ⟨packets, hpackets, hsub, hall⟩ := sendMessages_spec _ middle hsmall
            rw [hdone] at hpackets hall
            exact ⟨packets, by rw [hpackets, hsent], .fragments hfits hcuts hsub hall⟩
          · rw [fragUDPMessage, if_neg (Nat.not_le.mpr hless), if_pos hheader] at hfrags
            obtain rfl := Except.ok.inj hfrags
            obtain ⟨-, rfl⟩ := Prod.mk.inj hdone
            exact ⟨[], by rw [hsent, List.append_nil], .nothing⟩

/-- The link takes everything up to a length that does not change. -/
def Link.Limited (l : Link) (limit : Nat) : Prop :=
  ∀ n b, l.answer n b = if limit < b.length then some (.tooLarge limit) else none

/-- What a message goes out as. -/
def pieces (limit : Nat) (id : UInt32) (random : Nat) (data addr : Bytes) : List UDPMessage :=
  if maxUDPSize < (message id 0 data addr).size then []
  else if (message id 0 data addr).size ≤ limit then [message id 0 data addr]
  else if limit ≤ (message id 0 data addr).headerSize then []
  else cut (message id (packetNumber random) data addr)
    (limit - (message id 0 data addr).headerSize)

/-- More fragments than can be counted. -/
def Crowded (limit : Nat) (m : UDPMessage) : Prop :=
  m.size ≤ maxUDPSize ∧ limit < m.size ∧ m.headerSize < limit ∧
    256 ≤ fragments m.data.length (limit - m.headerSize)

theorem sendMessage_limited {limit : Nat} (hl : l.Limited limit) (hsize : m.size ≤ maxUDPSize) :
    sendMessage m l =
      if limit < m.size then (some (.tooLarge limit), { l with attempts := l.attempts + 1 })
      else (none, { l with attempts := l.attempts + 1, sent := l.sent ++ [m.bytes] }) := by
  rw [sendMessage, UDPMessage.serialize, if_neg (Nat.not_lt.mpr hsize)]
  change l.sendDatagram m.bytes = _
  rw [Link.sendDatagram, hl, UDPMessage.length_bytes hsize]
  by_cases hlarge : limit < m.size
  · rw [if_pos hlarge, if_pos hlarge]
  · rw [if_neg hlarge, if_neg hlarge]

theorem sendMessages_limited {limit : Nat} {ms : List UDPMessage} (hl : l.Limited limit)
    (hms : ∀ m ∈ ms, m.size ≤ maxUDPSize ∧ m.size ≤ limit) :
    ∃ after, sendMessages ms l = (none, after) ∧
      after.sent = l.sent ++ ms.map UDPMessage.bytes := by
  induction ms generalizing l with
  | nil => exact ⟨l, rfl, (List.append_nil _).symm⟩
  | cons m rest ih =>
      obtain ⟨hbuf, hlimit⟩ := hms m List.mem_cons_self
      have hfirst := sendMessage_limited hl hbuf
      rw [if_neg (Nat.not_lt.mpr hlimit)] at hfirst
      have hrest : Link.Limited { l with
          attempts := l.attempts + 1, sent := l.sent ++ [m.bytes] } limit := hl
      obtain ⟨after, hafter, hsent⟩ := ih hrest fun a ha => hms a (List.mem_cons_of_mem m ha)
      refine ⟨after, by simp only [sendMessages, hfirst, hafter], ?_⟩
      rw [hsent, List.map_cons, List.append_assoc]
      rfl

theorem send_of_tooLarge {limit : Nat} (hl : l.Limited limit) {id : UInt32} {data addr : Bytes}
    (hfits : (message id 0 data addr).size ≤ maxUDPSize)
    (hlarge : limit < (message id 0 data addr).size) (rounds random : Nat) :
    send rounds id random data addr l =
      (fragUDPMessage rounds (message id (packetNumber random) data addr) limit).map fun frags =>
        sendMessages frags { l with attempts := l.attempts + 1 } := by
  have hsend := sendMessage_limited hl hfits
  rw [if_pos hlarge] at hsend
  simp only [send, hsend]
  cases fragUDPMessage rounds (message id (packetNumber random) data addr) limit <;> rfl

/-- The fragments of a message are within the limit and all go out. -/
theorem sendMessages_cut {limit : Nat} (hl : l.Limited limit) (hfits : m.size ≤ maxUDPSize)
    (hlarge : limit < m.size) (hheader : m.headerSize < limit) :
    (∀ a ∈ cut m (limit - m.headerSize), a.size ≤ limit) ∧
    ∃ after, sendMessages (cut m (limit - m.headerSize)) l = (none, after) ∧
      after.sent = l.sent ++ (cut m (limit - m.headerSize)).map UDPMessage.bytes := by
  have hsmall : ∀ a ∈ cut m (limit - m.headerSize), a.size ≤ limit := by
    intro a ha
    obtain ⟨i, hi, rfl⟩ := exists_of_mem_cut ha
    have hle := (fragment_fits (Nat.sub_pos_of_lt hheader) hi).2
    omega
  refine ⟨hsmall, sendMessages_limited hl fun a ha => ⟨?_, hsmall a ha⟩⟩
  have := hsmall a ha
  omega

/-- Over a link with a limit, a message goes out as pieces within it that make up its data,
or as nothing, without an error; cutting it into too many fragments is a panic. -/
theorem send_limited {limit rounds : Nat} (hl : l.Limited limit) (hrounds : 256 ≤ rounds)
    (id : UInt32) (random : Nat) (data addr : Bytes) :
    (Crowded limit (message id 0 data addr) →
      send rounds id random data addr l = .error .outOfRange) ∧
    (¬ Crowded limit (message id 0 data addr) →
      ∃ after, send rounds id random data addr l = .ok (none, after) ∧
        after.sent = l.sent ++ (pieces limit id random data addr).map UDPMessage.bytes ∧
        (∀ a ∈ pieces limit id random data addr, a.size ≤ limit) ∧
        (pieces limit id random data addr ≠ [] →
          ((pieces limit id random data addr).map UDPMessage.data).flatten = data)) := by
  by_cases hbuf : maxUDPSize < (message id 0 data addr).size
  · have hdrop : sendMessage (message id 0 data addr) l = (none, l) := by
      rw [sendMessage, UDPMessage.serialize, if_pos hbuf]
    refine ⟨fun h => absurd h.1 (Nat.not_le.mpr hbuf), fun _ => ⟨l, by simp only [send, hdrop], ?_⟩⟩
    simp [pieces, if_pos hbuf]
  have hfits := Nat.not_lt.mp hbuf
  by_cases hlarge : limit < (message id 0 data addr).size
  · have hlarge' : limit < (message id (packetNumber random) data addr).size := hlarge
    rw [send_of_tooLarge hl hfits hlarge]
    by_cases hheader : limit ≤ (message id 0 data addr).headerSize
    · have hnone : fragUDPMessage rounds (message id (packetNumber random) data addr) limit =
          .ok [] := by
        rw [fragUDPMessage, if_neg (Nat.not_le.mpr hlarge')]
        exact if_pos hheader
      refine ⟨fun h => absurd h.2.2.1 (Nat.not_lt.mpr hheader), fun _ => ?_⟩
      refine ⟨{ l with attempts := l.attempts + 1 }, by rw [hnone]; rfl, ?_⟩
      simp [pieces, if_neg (Nat.not_le.mpr hlarge), if_pos hheader]
    · have hpieces : pieces limit id random data addr =
          cut (message id (packetNumber random) data addr)
            (limit - (message id (packetNumber random) data addr).headerSize) := by
        rw [pieces, if_neg hbuf, if_neg (Nat.not_le.mpr hlarge), if_neg hheader]
        rfl
      have hheader' : (message id (packetNumber random) data addr).headerSize < limit :=
        Nat.not_le.mp hheader
      rw [fragUDPMessage_eq hlarge' hheader' hrounds, hpieces]
      constructor
      · intro hcrowded
        have hmany : ¬ fragments (message id (packetNumber random) data addr).data.length
            (limit - (message id (packetNumber random) data addr).headerSize) < 256 :=
          Nat.not_lt.mpr hcrowded.2.2.2
        rw [if_neg hmany]
        rfl
      · intro hfew
        have hcount : fragments (message id (packetNumber random) data addr).data.length
            (limit - (message id (packetNumber random) data addr).headerSize) < 256 :=
          Nat.lt_of_not_le fun hmany => hfew ⟨hfits, hlarge, hheader', hmany⟩
        have hsame : Link.Limited { l with attempts := l.attempts + 1 } limit := hl
        have hfits' : (message id (packetNumber random) data addr).size ≤ maxUDPSize := hfits
        obtain ⟨hsmall, after, hafter, hsent⟩ := sendMessages_cut hsame hfits' hlarge' hheader'
        rw [if_pos hcount]
        exact ⟨after, congrArg Except.ok hafter, hsent, hsmall,
          fun _ => flatten_cut (Nat.sub_pos_of_lt hheader')⟩
  · have hsend := sendMessage_limited hl hfits
    rw [if_neg hlarge] at hsend
    have hpieces : pieces limit id random data addr = [message id 0 data addr] := by
      rw [pieces, if_neg hbuf, if_pos (Nat.not_lt.mp hlarge)]
    rw [hpieces]
    refine ⟨fun h => absurd h.2.1 hlarge, fun _ => ?_⟩
    refine ⟨{ l with
      attempts := l.attempts + 1
      sent := l.sent ++ [(message id 0 data addr).bytes] }, by simp only [send, hsend], rfl, ?_, ?_⟩
    · simpa using hlarge
    · simp [message]

end Sending

/-- A link that takes datagrams up to the given length. -/
def limitedTo (limit : Nat) : Link where
  answer _ b := if limit < b.length then some (.tooLarge limit) else none
  honest n b max h := by
    split_ifs at h with hlarge
    cases h
    exact hlarge
  attempts := 0
  sent := []

theorem send_limited_to_twelve : ∃ after,
    send 256 1 7 [1, 2, 3] [97] (limitedTo 12) = .ok (none, after) ∧
      after.sent = [] ++ (pieces 12 1 7 [1, 2, 3] [97]).map UDPMessage.bytes ∧
      (∀ a ∈ pieces 12 1 7 [1, 2, 3] [97], a.size ≤ 12) ∧
      (pieces 12 1 7 [1, 2, 3] [97] ≠ [] →
        ((pieces 12 1 7 [1, 2, 3] [97]).map UDPMessage.data).flatten = [1, 2, 3]) :=
  (send_limited (fun _ _ => rfl) (Nat.le_refl 256) 1 7 [1, 2, 3] [97]).2
    (by unfold Crowded; decide)

/-! ## One message -/

theorem delivered_replicate {m : UDPMessage} (hone : m.fragCount = 1) (held : List UDPMessage)
    (n : Nat) : delivered held (List.replicate n m) = List.replicate n m := by
  have hwhole : ¬ IsFragment m := by
    rintro ⟨hmany, -⟩
    rw [hone] at hmany
    exact absurd hmany (by decide)
  induction n with
  | zero => rfl
  | succ n ih =>
      have hle : m.fragCount ≤ 1 := by
        rw [hone]
        decide
      rw [List.replicate_succ, delivered, if_neg hwhole, if_pos hle, ih]

section Receiving

variable [Quicvarint]

theorem bytes_inj {a b : UDPMessage} (ha : a.Valid) (hb : b.addr.length < varintBound 3)
    (h : a.bytes = b.bytes) : a = b := by
  have hparse := parseUDPMessage_bytes ha
  rw [h] at hparse
  exact ((parseUDPMessage_bytes_eq_ok_iff hb).mp hparse).1

theorem valid_of_mem_cut {m a : UDPMessage} {max : Nat} (hm : m.Valid) (hcuts : Cuts m max)
    (ha : a ∈ cut m max) : a.Valid := by
  obtain ⟨i, hi, rfl⟩ := exists_of_mem_cut ha
  exact ⟨hm.addr, hm.short, (fragment_fits hcuts.pos hi).1⟩

/-- Datagrams of valid messages are parsed to them. -/
theorem parsed_of_subset {ms : List UDPMessage} (hvalid : ∀ m ∈ ms, m.Valid)
    {arrival : List Bytes} (harrival : arrival ⊆ ms.map UDPMessage.bytes) :
    parsed arrival ⊆ ms ∧ (parsed arrival).map UDPMessage.bytes = arrival := by
  induction arrival with
  | nil => exact ⟨List.nil_subset _, rfl⟩
  | cons b rest ih =>
      obtain ⟨hsub, hmap⟩ := ih fun c hc => harrival (List.mem_cons_of_mem b hc)
      obtain ⟨m, hm, rfl⟩ := List.mem_map.mp (harrival List.mem_cons_self)
      have hcons : parsed (m.bytes :: rest) = m :: parsed rest := by
        simp [parsed, parseUDPMessage_bytes (hvalid m hm), Except.toOption]
      rw [hcons]
      exact ⟨List.cons_subset.mpr ⟨hm, hsub⟩, by rw [List.map_cons, hmap]⟩

/-- Fragments of one message that arrive at a session that does not hold its packet. -/
theorem delivered_cut {m : UDPMessage} {max : Nat} (hm : m.Valid) (hcuts : Cuts m max)
    {held : List UDPMessage} (hother : ∀ k, held.head?.map key = some k → k.1 ≠ m.packetID)
    {arrival : List Bytes} (harrival : arrival ⊆ (cut m max).map UDPMessage.bytes) :
    delivered held (parsed arrival) =
      if (cut m max).map UDPMessage.bytes ⊆ arrival then [merged m (cut m max)] else [] := by
  have hvalids : ∀ a ∈ cut m max, a.Valid := fun a ha => valid_of_mem_cut hm hcuts ha
  obtain ⟨hparsed, hmap⟩ := parsed_of_subset hvalids harrival
  have hdelivered : delivered held (parsed arrival) =
      (wholes key number total held (parsed arrival)).map (merged m) :=
    delivered_eq_wholes fun a ha => ⟨hcuts.isFragment (hparsed ha), merged_of_mem_cut (hparsed ha)⟩
  have hiff : cut m max ⊆ parsed arrival ↔ (cut m max).map UDPMessage.bytes ⊆ arrival := by
    constructor
    · intro hsubset b hb
      obtain ⟨a, ha, rfl⟩ := List.mem_map.mp hb
      rw [← hmap]
      exact List.mem_map_of_mem (hsubset ha)
    · intro hsubset a ha
      have hb := hsubset (List.mem_map_of_mem ha)
      rw [← hmap] at hb
      obtain ⟨a', ha', heq⟩ := List.mem_map.mp hb
      have hshort := UDPMessage.lt_varintBound (hvalids a ha).short
      rwa [← bytes_inj (hvalids a' (hparsed ha')) hshort heq]
  rw [hdelivered, hcuts.parts.wholes_eq (fun hkey => hother _ hkey rfl) hparsed]
  simp only [hiff]
  split_ifs <;> rfl

end Receiving

end Hy2Route.Hysteria
