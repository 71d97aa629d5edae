import Hy2Route.Foundation.Checked
import Hy2Route.Foundation.Reassembly
import Hy2Route.Hysteria.Wire

/-!
# Fragments of UDP messages

A message that is too large for a datagram is cut into fragments of equal size, but for
the last one. The number of fragments is a byte. The receiver holds the fragments of one
packet at a time and drops them when a fragment of another one comes.
-/

namespace Hy2Route.Hysteria

open Foundation

/-! ## Cutting -/

structure FragLoop where
  off : Nat
  fragID : UInt8
  frags : List UDPMessage

def fragStep (m : UDPMessage) (maxPayloadSize : Nat) (fragCount : UInt8) (s : FragLoop) :
    Except Fault (LoopStep FragLoop (List UDPMessage)) :=
  if s.off < m.data.length then do
    let payloadSize := min (m.data.length - s.off) maxPayloadSize
    let data ← subslice m.data s.off (s.off + payloadSize)
    let frags ← store s.frags s.fragID.toNat
      { m with fragID := s.fragID, fragCount := fragCount, data := data }
    return .next ⟨s.off + payloadSize, s.fragID + 1, frags⟩
  else .ok (.done s.frags)

/-- The number of fragments before it is made a byte. -/
def fragments (length maxPayloadSize : Nat) : Nat :=
  (length + maxPayloadSize - 1) / maxPayloadSize

def fragUDPMessage [Quicvarint] (rounds : Nat) (m : UDPMessage) (maxSize : Nat) :
    Except Fault (List UDPMessage) :=
  if m.size ≤ maxSize then .ok [m]
  else if maxSize ≤ m.headerSize then .ok []
  else
    let maxPayloadSize := maxSize - m.headerSize
    let fragCount := UInt8.ofNat (fragments m.data.length maxPayloadSize)
    iterate (fragStep m maxPayloadSize fragCount) rounds
      ⟨0, 0, List.replicate fragCount.toNat default⟩

section Cutting

variable {m : UDPMessage} {max : Nat}

/-- The fragment with the given number. -/
def fragment (m : UDPMessage) (max i : Nat) : UDPMessage :=
  { m with
    fragID := UInt8.ofNat i
    fragCount := UInt8.ofNat (fragments m.data.length max)
    data := (m.data.drop (i * max)).take max }

def cut (m : UDPMessage) (max : Nat) : List UDPMessage :=
  (List.range (fragments m.data.length max)).map (fragment m max)

theorem lt_fragments_iff (hmax : 0 < max) {length i : Nat} :
    i < fragments length max ↔ i * max < length := by
  rw [fragments, ← Nat.succ_le_iff, Nat.le_div_iff_mul_le hmax, Nat.succ_mul]
  omega

/-- The loop after `i` rounds, with room for `n` fragments. -/
def cutState (m : UDPMessage) (max n i : Nat) : FragLoop where
  off := min (i * max) m.data.length
  fragID := UInt8.ofNat i
  frags := (List.range n).map fun k => if k < i then fragment m max k else default

theorem store_cutState {n i : Nat} (hi : i < n) :
    store (cutState m max n i).frags i (fragment m max i) =
      .ok (cutState m max n (i + 1)).frags := by
  have hlen : i < (cutState m max n i).frags.length := by simpa [cutState] using hi
  rw [store, if_pos hlen]
  congr 1
  refine List.ext_getElem? fun k => ?_
  by_cases hk : k < n
  · by_cases heq : i = k
    · subst heq
      rw [List.getElem?_set_self hlen]
      simp [cutState, hk]
    · have hiff : k < i ↔ k < i + 1 := by omega
      rw [List.getElem?_set_ne heq]
      simp [cutState, hk, hiff]
  · rw [List.getElem?_eq_none (by simpa [cutState] using hk),
      List.getElem?_eq_none (by simpa [cutState] using hk)]

/-- A round that has data left cuts a fragment and stores it under its number. -/
theorem fragStep_eq (hmax : 0 < max) {n i : Nat} (hi : i < fragments m.data.length max)
    (hbyte : i < 256) :
    fragStep m max (UInt8.ofNat (fragments m.data.length max)) (cutState m max n i) =
      (store (cutState m max n i).frags i (fragment m max i)).map fun frags =>
        .next ⟨min ((i + 1) * max) m.data.length, UInt8.ofNat (i + 1), frags⟩ := by
  have hoff : i * max < m.data.length := (lt_fragments_iff hmax).mp hi
  have hmin : (cutState m max n i).off = i * max := Nat.min_eq_left (Nat.le_of_lt hoff)
  have hid : (cutState m max n i).fragID.toNat = i := by
    change (UInt8.ofNat i).toNat = i
    rw [UInt8.toNat_ofNat', Nat.mod_eq_of_lt hbyte]
  have hend : i * max + min (m.data.length - i * max) max = min ((i + 1) * max) m.data.length := by
    rw [Nat.succ_mul]
    omega
  have hslice : subslice m.data (i * max) (min ((i + 1) * max) m.data.length) =
      .ok ((m.data.drop (i * max)).take max) := by
    rw [← hend, subslice_eq (Nat.le_add_right _ _) (by omega), Nat.add_sub_cancel_left]
    congr 1
    rw [Nat.min_comm, ← List.length_drop, ← List.take_take, List.take_length]
  rw [fragStep, hmin, if_pos hoff]
  simp only [hslice, ok_bind, hid, hend]
  have hnext : (cutState m max n i).fragID + 1 = UInt8.ofNat (i + 1) := by
    change UInt8.ofNat i + 1 = UInt8.ofNat (i + 1)
    rw [UInt8.ofNat_add]
    rfl
  rw [hnext]
  change (store _ i (fragment m max i) >>= _) = _
  cases store (cutState m max n i).frags i (fragment m max i) <;> rfl

theorem fragStep_next (hmax : 0 < max) {n i : Nat} (hi : i < n) (hbyte : n ≤ 256)
    (hn : n ≤ fragments m.data.length max) :
    fragStep m max (UInt8.ofNat (fragments m.data.length max)) (cutState m max n i) =
      .ok (.next (cutState m max n (i + 1))) := by
  rw [fragStep_eq hmax (by omega) (by omega), store_cutState hi]
  rfl

/-- The loop runs through as many fragments as there is room for, and then ends or stores
a fragment that there is no room for. -/
theorem iterate_fragStep (hmax : 0 < max) {n rounds : Nat} (hbyte : n < 256)
    (hn : n ≤ fragments m.data.length max) (hrounds : n < rounds) :
    iterate (fragStep m max (UInt8.ofNat (fragments m.data.length max))) rounds
        ⟨0, 0, List.replicate n default⟩ =
      if n = fragments m.data.length max then .ok (cut m max) else .error .outOfRange := by
  have hstart : (⟨0, 0, List.replicate n default⟩ : FragLoop) = cutState m max n 0 := by
    simp [cutState]
  obtain ⟨more, rfl⟩ := Nat.exists_eq_add_of_lt hrounds
  rw [hstart, Nat.add_assoc,
    iterate_of_next (cutState m max n) fun i hi => fragStep_next hmax hi (Nat.le_of_lt hbyte) hn]
  rw [iterate]
  split_ifs with heq
  · have hdone : ¬ (cutState m max n n).off < m.data.length := by
      have hlast := (lt_fragments_iff hmax).not.mp (Nat.lt_irrefl (fragments m.data.length max))
      rw [← heq] at hlast
      simp only [cutState]
      omega
    have hfrags : (cutState m max n n).frags = cut m max := by
      rw [cut, ← heq]
      refine List.map_congr_left fun k hk => ?_
      rw [if_pos (List.mem_range.mp hk)]
    rw [fragStep, if_neg hdone, hfrags]
  · have hroom : store (cutState m max n n).frags n (fragment m max n) = .error .outOfRange := by
      rw [store, if_neg (by simp [cutState])]
    rw [fragStep_eq hmax (by omega) hbyte, hroom]
    rfl

/-- A message that has to be cut is cut, unless the fragments are too many to be counted
in a byte. -/
theorem fragUDPMessage_eq [Quicvarint] {maxSize rounds : Nat} (hlarge : maxSize < m.size)
    (hheader : m.headerSize < maxSize) (hrounds : 256 ≤ rounds) :
    fragUDPMessage rounds m maxSize =
      if fragments m.data.length (maxSize - m.headerSize) < 256 then
        .ok (cut m (maxSize - m.headerSize))
      else .error .outOfRange := by
  have hmax : 0 < maxSize - m.headerSize := by omega
  rw [fragUDPMessage, if_neg (Nat.not_le.mpr hlarge), if_neg (Nat.not_le.mpr hheader)]
  generalize hcount : fragments m.data.length (maxSize - m.headerSize) = count
  have hroom : (UInt8.ofNat count).toNat = count % 256 := UInt8.toNat_ofNat'
  simp only [hcount, hroom]
  have hloop : iterate (fragStep m (maxSize - m.headerSize) (UInt8.ofNat count)) rounds
      ⟨0, 0, List.replicate (count % 256) default⟩ =
      if count % 256 = count then .ok (cut m (maxSize - m.headerSize))
      else .error .outOfRange := by
    subst hcount
    exact iterate_fragStep hmax (Nat.mod_lt _ (by decide)) (Nat.mod_le _ _) (by omega)
  rw [hloop]
  have hiff : count % 256 = count ↔ count < 256 := by omega
  simp only [hiff]

/-! ## What the fragments are -/

theorem flatten_pieces (data : Bytes) (n : Nat) (hn : data.length ≤ n * max) :
    ((List.range n).map fun i => (data.drop (i * max)).take max).flatten = data := by
  induction n generalizing data with
  | zero =>
      rw [Nat.zero_mul] at hn
      rw [List.length_eq_zero_iff.mp (Nat.le_zero.mp hn)]
      rfl
  | succ n ih =>
      have hrest : ((List.range n).map fun i => (data.drop ((i + 1) * max)).take max) =
          (List.range n).map fun i => ((data.drop max).drop (i * max)).take max := by
        refine List.map_congr_left fun i _ => ?_
        rw [List.drop_drop, Nat.succ_mul, Nat.add_comm]
      rw [List.range_succ_eq_map, List.map_cons, List.map_map, List.flatten_cons, Nat.zero_mul,
        List.drop_zero]
      change data.take max ++ ((List.range n).map fun i =>
        (data.drop ((i + 1) * max)).take max).flatten = data
      rw [hrest, ih (data.drop max) (by rw [List.length_drop, Nat.succ_mul] at *; omega),
        List.take_append_drop]

theorem flatten_cut (hmax : 0 < max) : ((cut m max).map UDPMessage.data).flatten = m.data := by
  have hlast := (lt_fragments_iff hmax).not.mp (Nat.lt_irrefl (fragments m.data.length max))
  rw [cut, List.map_map]
  exact flatten_pieces m.data _ (Nat.not_lt.mp hlast)

theorem getElem?_cut {i : Nat} {frag : UDPMessage} (h : (cut m max)[i]? = some frag) :
    i < fragments m.data.length max ∧ frag = fragment m max i := by
  rw [cut, List.getElem?_map, Option.map_eq_some_iff] at h
  obtain ⟨j, hj, rfl⟩ := h
  obtain ⟨hlt, rfl⟩ := List.getElem?_eq_some_iff.mp hj
  rw [List.length_range] at hlt
  rw [List.getElem_range]
  exact ⟨hlt, rfl⟩

/-- A fragment is not empty and no larger than what was asked for. -/
theorem fragment_fits [Quicvarint] (hmax : 0 < max) {i : Nat}
    (hi : i < fragments m.data.length max) :
    (fragment m max i).data ≠ [] ∧ (fragment m max i).size ≤ m.headerSize + max := by
  have hoff := (lt_fragments_iff hmax).mp hi
  constructor
  · rw [← List.length_pos_iff_ne_nil]
    simp only [fragment, List.length_take, List.length_drop]
    omega
  · have hdata : (fragment m max i).data.length ≤ max := by
      simp only [fragment, List.length_take]
      omega
    change m.headerSize + (fragment m max i).data.length ≤ _
    omega

end Cutting

/-! ## Putting together -/

structure Defragger where
  pktID : UInt16
  frags : List (Option UDPMessage)
  count : UInt8
  size : Nat

namespace Defragger

def new : Defragger := ⟨0, [], 0, 0⟩

/-- A buffer of the given size that the data is copied into. -/
def copied (size : Nat) (data : Bytes) : Bytes :=
  data.take size ++ List.replicate (size - data.length) 0

/-- Without a result when a fragment is missing, which is a panic in the source. -/
def assemble (size : Nat) (frags : List (Option UDPMessage)) : Option Bytes :=
  (frags.mapM id).map fun frags => copied size (frags.map UDPMessage.data).flatten

/-- Without a result where the source panics. The message that is returned is the last
fragment itself, which stays among the others. -/
def feed (d : Defragger) (m : UDPMessage) : Option (Defragger × Option UDPMessage) :=
  if m.fragCount ≤ 1 then some (d, some m)
  else if m.fragCount ≤ m.fragID then some (d, none)
  else if m.packetID ≠ d.pktID ∨ m.fragCount ≠ UInt8.ofNat d.frags.length then
    let frags := (List.replicate m.fragCount.toNat none).set m.fragID.toNat (some m)
    some (⟨m.packetID, frags, 1, m.data.length⟩, none)
  else
    match d.frags[m.fragID.toNat]? with
    | none => none
    | some (some _) => some (d, none)
    | some none =>
        let frags := d.frags.set m.fragID.toNat (some m)
        let count := d.count + 1
        let size := d.size + m.data.length
        if count.toNat = frags.length then
          (assemble size frags).map fun data =>
            let whole := { m with data := data, fragID := 0, fragCount := 1 }
            (⟨d.pktID, frags.set m.fragID.toNat (some whole), count, size⟩, some whole)
        else some (⟨d.pktID, frags, count, size⟩, none)

/-- The messages that come out when the given ones are fed. -/
def feedAll : Defragger → List UDPMessage → Option (Defragger × List UDPMessage)
  | d, [] => some (d, [])
  | d, m :: rest => do
      let (d, out) ← d.feed m
      let (d, more) ← feedAll d rest
      return (d, out.toList ++ more)

/-! ## The fragments that are held -/

def key (m : UDPMessage) : UInt16 × UInt8 := (m.packetID, m.fragCount)

def number (m : UDPMessage) : Nat := m.fragID.toNat

def total (k : UInt16 × UInt8) : Nat := k.2.toNat

/-- The message that comes out when a fragment completes its packet. -/
def merged (m : UDPMessage) (parts : List UDPMessage) : UDPMessage :=
  { m with data := (parts.map UDPMessage.data).flatten, fragID := 0, fragCount := 1 }

/-- The defragger holds the given fragments. After the last of them the slots are filled,
one of them by the whole message. -/
structure Gathers (d : Defragger) (held : List UDPMessage) : Prop where
  together : Together key number total held
  empty : held = [] → d.frags = []
  packet : ∀ k, held.head?.map key = some k →
    d.pktID = k.1 ∧ d.frags.length = total k ∧ 2 ≤ total k
  waits : held.length < d.frags.length → d.frags = slots number d.frags.length held ∧
    d.count.toNat = held.length ∧ d.size = (held.map fun m => m.data.length).sum
  full : held.length = d.frags.length → ∀ frag ∈ d.frags, frag ≠ none

/-- A fragment that is taken at all. -/
def IsFragment (m : UDPMessage) : Prop := 1 < m.fragCount ∧ m.fragID < m.fragCount

instance (m : UDPMessage) : Decidable (IsFragment m) := inferInstanceAs (Decidable (_ ∧ _))

theorem gathers_new : Gathers new [] :=
  ⟨together_nil, fun _ => rfl, by simp, by simp [new], by simp [new]⟩

section Feed

variable {d : Defragger} {held : List UDPMessage} {m : UDPMessage}

theorem IsFragment.number_lt (hm : IsFragment m) : number m < total (key m) :=
  UInt8.lt_iff_toNat_lt.mp hm.2

theorem IsFragment.two_le (hm : IsFragment m) : 2 ≤ total (key m) :=
  UInt8.lt_iff_toNat_lt.mp hm.1

/-- The packet that is held is told by its number and the number of slots. -/
theorem Gathers.same_iff (h : Gathers d held) (hm : IsFragment m) :
    (m.packetID ≠ d.pktID ∨ m.fragCount ≠ UInt8.ofNat d.frags.length) ↔
      held.head?.map key ≠ some (key m) := by
  rw [← not_and_or, not_iff_not]
  cases held with
  | nil =>
      have hcount : m.fragCount ≠ 0 := by
        have htwo := hm.two_le
        intro hzero
        simp [total, key, hzero] at htwo
      rw [h.empty rfl]
      simpa using fun _ => hcount
  | cons a rest =>
      obtain ⟨hid, hlen, -⟩ := h.packet (key a) rfl
      have hcount : UInt8.ofNat d.frags.length = a.fragCount := by
        rw [hlen]
        exact UInt8.ofNat_toNat
      rw [hcount, hid]
      change _ ↔ some (key a) = some (key m)
      rw [Option.some_inj, eq_comm, key, key, Prod.mk.injEq]
      exact and_congr Iff.rfl eq_comm

theorem Gathers.first (hm : IsFragment m) :
    Gathers ⟨m.packetID, (List.replicate m.fragCount.toNat none).set m.fragID.toNat (some m), 1,
      m.data.length⟩ [m] := by
  have hslots : slots number m.fragCount.toNat [m] =
      (List.replicate m.fragCount.toNat none).set m.fragID.toNat (some m) := by
    have happend : slots number m.fragCount.toNat ([] ++ [m]) = _ := slots_append (by simp)
    rw [List.nil_append, slots_nil] at happend
    exact happend
  have htwo := hm.two_le
  refine ⟨together_singleton hm.number_lt, by simp, ?_, ?_, ?_⟩
  · intro k hk
    obtain rfl : key m = k := Option.some.inj hk
    exact ⟨rfl, by simp [total, key], htwo⟩
  · intro _
    refine ⟨?_, rfl, by simp⟩
    simp only [List.length_set, List.length_replicate]
    exact hslots.symm
  · intro hlen
    simp only [List.length_singleton, List.length_set, List.length_replicate] at hlen
    change 2 ≤ m.fragCount.toNat at htwo
    omega

theorem length_le_total (h : Together key number total held) {k : UInt16 × UInt8}
    (hk : held.head?.map key = some k) : held.length ≤ total k := by
  have hsubset : held.map number ⊆ List.range (total k) := by
    intro j hj
    obtain ⟨b, hb, rfl⟩ := List.mem_map.mp hj
    exact List.mem_range.mpr (h.number_lt hk b hb)
  simpa using (List.subperm_of_subset h.distinct hsubset).length_le

/-- A fragment whose slot is filled is dropped. -/
theorem Gathers.filled_iff (h : Gathers d held) (hm : IsFragment m)
    (hsame : held.head?.map key = some (key m)) :
    d.frags[m.fragID.toNat]? = some none ↔ Missing key number held m := by
  obtain ⟨-, hlen, -⟩ := h.packet _ hsame
  have hlt : m.fragID.toNat < d.frags.length := by
    rw [hlen]
    exact hm.number_lt
  rcases Nat.lt_or_ge held.length d.frags.length with hless | hge
  · rw [(h.waits hless).1, getElem?_slots hlt, Option.some_inj, List.find?_eq_none]
    constructor
    · intro hnone
      exact ⟨hsame, fun b hb hnumber => hnone b hb (decide_eq_true hnumber)⟩
    · intro hmissing b hb hnumber
      exact hmissing.2 b hb (of_decide_eq_true hnumber)
  · have hfull : held.length = d.frags.length :=
      Nat.le_antisymm (hlen ▸ length_le_total h.together hsame) hge
    constructor
    · intro hnone
      exact absurd rfl (h.full hfull _ (List.mem_of_getElem? hnone))
    · intro hmissing
      have hless := h.together.length_lt hmissing hm.number_lt
      omega

theorem assemble_slots {n : Nat} (htogether : (held.map number).Nodup)
    (hbound : ∀ a ∈ held, number a < n) (hlen : held.length = n) :
    assemble (held.map fun m => m.data.length).sum (slots number n held) =
      some ((inOrder number n held).map UDPMessage.data).flatten := by
  have hmap (parts : List UDPMessage) : (parts.map some).mapM id = some parts := by
    rw [List.mapM_map]
    simpa using List.mapM_pure (m := Option) (l := parts) (f := id)
  have hsize : (held.map fun m => m.data.length).sum =
      ((inOrder number n held).map UDPMessage.data).flatten.length := by
    rw [List.length_flatten, List.map_map]
    exact ((inOrder_perm htogether hbound hlen).map _).sum_nat.symm
  rw [assemble, slots_eq_map_some htogether hbound hlen, hmap, Option.map_some, hsize, copied,
    List.take_length, Nat.sub_self, List.replicate_zero, List.append_nil]

theorem feed_of_slot (hm : IsFragment m)
    (hold : ¬ (m.packetID ≠ d.pktID ∨ m.fragCount ≠ UInt8.ofNat d.frags.length))
    (hslot : d.frags[m.fragID.toNat]? = some none) {frags : List (Option UDPMessage)}
    (hfrags : d.frags.set m.fragID.toNat (some m) = frags) {size : Nat}
    (hsize : d.size + m.data.length = size) :
    d.feed m =
      if (d.count + 1).toNat = frags.length then
        (assemble size frags).map fun data =>
          (⟨d.pktID, frags.set m.fragID.toNat
            (some { m with data := data, fragID := 0, fragCount := 1 }), d.count + 1, size⟩,
            some { m with data := data, fragID := 0, fragCount := 1 })
      else some (⟨d.pktID, frags, d.count + 1, size⟩, none) := by
  subst hfrags hsize
  rw [feed, if_neg (UInt8.not_le.mpr hm.1), if_neg (UInt8.not_le.mpr hm.2), if_neg hold, hslot]

/-- A fragment that was missing fills its slot, and the last one gives the message. -/
theorem Gathers.feed_missing (h : Gathers d held) (hm : IsFragment m)
    (hmissing : Missing key number held m) :
    ∃ d', d.feed m = some (d', (completed key number total held m).map (merged m)) ∧
      Gathers d' (held ++ [m]) := by
  obtain ⟨hid, hlen, htwo⟩ := h.packet _ hmissing.1
  have hless : held.length < total (key m) := h.together.length_lt hmissing hm.number_lt
  obtain ⟨hslots, hcount, hsize⟩ := h.waits (hlen ▸ hless)
  have happend := h.together.append hmissing hm.number_lt
  have hhead : (held ++ [m]).head?.map key = some (key m) := by
    rw [hmissing.head?_append]
    exact hmissing.1
  have hfrags :
      d.frags.set m.fragID.toNat (some m) = slots number (total (key m)) (held ++ [m]) := by
    rw [hslots, hlen]
    exact (slots_append hmissing.2).symm
  have hbyte : total (key m) < 256 := m.fragCount.toNat_lt
  have hnext : (d.count + 1).toNat = held.length + 1 := by
    rw [UInt8.toNat_add, hcount]
    change (held.length + 1) % 256 = held.length + 1
    exact Nat.mod_eq_of_lt (by omega)
  have hsum : d.size + m.data.length = ((held ++ [m]).map fun m => m.data.length).sum := by
    simp [hsize]
  have hold : ¬ (m.packetID ≠ d.pktID ∨ m.fragCount ≠ UInt8.ofNat d.frags.length) := by
    rw [h.same_iff hm, not_not]
    exact hmissing.1
  have hslot := (h.filled_iff hm hmissing.1).mpr hmissing
  have hfeed := feed_of_slot hm hold hslot hfrags hsum
  rw [length_slots, hnext] at hfeed
  by_cases hlast : held.length + 1 = total (key m)
  · have hall : (held ++ [m]).length = total (key m) := by simpa using hlast
    have hwhole : completed key number total held m =
        some (inOrder number (total (key m)) (held ++ [m])) := if_pos ⟨hmissing, hlast⟩
    rw [if_pos hlast, assemble_slots happend.distinct (happend.number_lt hhead) hall] at hfeed
    refine ⟨_, by rw [hwhole]; exact hfeed, happend, by simp, ?_, ?_, ?_⟩
    · intro k hk
      obtain rfl := Option.some.inj (hhead.symm.trans hk)
      exact ⟨hid, by simp, htwo⟩
    · simp only [List.length_set, length_slots, hall, Nat.lt_irrefl, false_implies]
    · intro _ frag hfrag
      rcases List.mem_or_eq_of_mem_set hfrag with hfrag | rfl
      · rw [slots_eq_map_some happend.distinct (happend.number_lt hhead) hall] at hfrag
        obtain ⟨_, _, rfl⟩ := List.mem_map.mp hfrag
        exact Option.some_ne_none _
      · exact Option.some_ne_none _
  · have hnone : completed key number total held m = none := if_neg fun hboth => hlast hboth.2
    rw [if_neg hlast] at hfeed
    refine ⟨_, by rw [hnone]; exact hfeed, happend, by simp, ?_, ?_, ?_⟩
    · intro k hk
      obtain rfl := Option.some.inj (hhead.symm.trans hk)
      exact ⟨hid, by simp, htwo⟩
    · intro _
      exact ⟨by simp, by simpa using hnext, rfl⟩
    · intro hfull
      simp only [length_slots, List.length_append, List.length_singleton] at hfull
      exact absurd hfull hlast

/-- The defragger gathers as the fragments of one packet at a time are gathered. -/
theorem Gathers.feed (h : Gathers d held) (hm : IsFragment m) :
    ∃ d', d.feed m = some (d', (completed key number total held m).map (merged m)) ∧
      Gathers d' (gather key number held m) := by
  have hmany : ¬ m.fragCount ≤ 1 := UInt8.not_le.mpr hm.1
  have hplace : ¬ m.fragCount ≤ m.fragID := UInt8.not_le.mpr hm.2
  by_cases hmissing : Missing key number held m
  · rw [gather, if_pos hmissing]
    exact h.feed_missing hm hmissing
  · have hnone : completed key number total held m = none := if_neg fun hboth => hmissing hboth.1
    rw [gather, if_neg hmissing, hnone]
    by_cases hsame : held.head?.map key = some (key m)
    · have hold := (h.same_iff hm).not.mpr (not_not.mpr hsame)
      obtain ⟨-, hlen, -⟩ := h.packet _ hsame
      have hlt : m.fragID.toNat < d.frags.length := by
        rw [hlen]
        exact hm.number_lt
      have hfilled := (h.filled_iff hm hsame).not.mpr hmissing
      rw [if_pos hsame]
      refine ⟨d, ?_, h⟩
      obtain ⟨frag, hfrag⟩ : ∃ frag, d.frags[m.fragID.toNat]? = some frag :=
        ⟨_, List.getElem?_eq_getElem hlt⟩
      cases frag with
      | none => exact absurd hfrag hfilled
      | some _ => simp only [Defragger.feed, if_neg hmany, if_neg hplace, if_neg hold, hfrag,
          Option.map_none]
    · have hnew := (h.same_iff hm).mpr hsame
      rw [if_neg hsame]
      exact ⟨_, by simp only [Defragger.feed, if_neg hmany, if_neg hplace, if_pos hnew,
        Option.map_none], Gathers.first hm⟩

end Feed

/-! ## Runs -/

/-- What comes out while the given fragments are held. -/
def delivered : List UDPMessage → List UDPMessage → List UDPMessage
  | _, [] => []
  | held, m :: rest =>
      if IsFragment m then
        ((completed key number total held m).map (merged m)).toList ++
          delivered (gather key number held m) rest
      else if m.fragCount ≤ 1 then m :: delivered held rest
      else delivered held rest

/-- Whatever is fed, the defragger never fails. -/
theorem Gathers.feedAll {d : Defragger} {held : List UDPMessage} (h : Gathers d held)
    (arrival : List UDPMessage) :
    ∃ d' held', d.feedAll arrival = some (d', delivered held arrival) ∧ Gathers d' held' := by
  induction arrival generalizing d held with
  | nil => exact ⟨d, held, rfl, h⟩
  | cons m rest ih =>
      by_cases hm : IsFragment m
      · obtain ⟨d₁, hfeed, h₁⟩ := h.feed hm
        obtain ⟨d₂, held₂, hrest, h₂⟩ := ih h₁
        refine ⟨d₂, held₂, ?_, h₂⟩
        simp only [Defragger.feedAll, hfeed, Option.bind_eq_bind, Option.bind_some, hrest,
          delivered, if_pos hm, Option.pure_def]
      · obtain ⟨d₂, held₂, hrest, h₂⟩ := ih h
        refine ⟨d₂, held₂, ?_, h₂⟩
        by_cases hone : m.fragCount ≤ 1
        · have hfeed : d.feed m = some (d, some m) := if_pos hone
          simp only [Defragger.feedAll, hfeed, Option.bind_eq_bind, Option.bind_some, hrest,
            delivered, if_neg hm, if_pos hone, Option.pure_def, Option.toList_some,
            List.singleton_append]
        · have hplace : m.fragCount ≤ m.fragID := by
            rw [IsFragment, not_and_or] at hm
            rcases hm with hm | hm
            · exact absurd (UInt8.not_lt.mp hm) hone
            · exact UInt8.not_lt.mp hm
          have hfeed : d.feed m = some (d, none) := by
            rw [Defragger.feed, if_neg hone, if_pos hplace]
          simp only [Defragger.feedAll, hfeed, Option.bind_eq_bind, Option.bind_some, hrest,
            delivered, if_neg hm, if_neg hone, Option.pure_def, Option.toList_none,
            List.nil_append]

/-- Fragments of one message give it as often as they are put together. -/
theorem delivered_eq_wholes {held arrival : List UDPMessage} {m : UDPMessage}
    (harrival : ∀ a ∈ arrival, IsFragment a ∧ ∀ parts, merged a parts = merged m parts) :
    delivered held arrival = (wholes key number total held arrival).map (merged m) := by
  induction arrival generalizing held with
  | nil => rfl
  | cons a rest ih =>
      obtain ⟨ha, hmerged⟩ := harrival a List.mem_cons_self
      have hrest : delivered (gather key number held a) rest = _ :=
        ih fun b hb => harrival b (List.mem_cons_of_mem a hb)
      rw [delivered, if_pos ha, wholes, List.map_append, hrest]
      cases completed key number total held a with
      | none => rfl
      | some whole => simp [hmerged whole]

/-! ## The fragments of one message -/

/-- The message is larger than a payload and has few enough fragments. -/
structure Cuts (m : UDPMessage) (max : Nat) : Prop where
  pos : 0 < max
  large : max < m.data.length
  few : fragments m.data.length max < 256

namespace Cuts

variable {m : UDPMessage} {max : Nat} (h : Cuts m max)

include h

theorem two_le : 2 ≤ fragments m.data.length max :=
  (lt_fragments_iff h.pos).mpr (by rw [Nat.one_mul]; exact h.large)

theorem toNat_count : (UInt8.ofNat (fragments m.data.length max)).toNat =
    fragments m.data.length max := by
  rw [UInt8.toNat_ofNat', Nat.mod_eq_of_lt h.few]

theorem number_fragment {i : Nat} (hi : i < fragments m.data.length max) :
    number (fragment m max i) = i := by
  change (UInt8.ofNat i).toNat = i
  rw [UInt8.toNat_ofNat', Nat.mod_eq_of_lt (Nat.lt_trans hi h.few)]

theorem parts : Parts key number total (m.packetID, UInt8.ofNat (fragments m.data.length max))
    (cut m max) := by
  refine ⟨?_, ?_, fun hi => ?_⟩
  · rw [total, h.toNat_count, cut, List.length_map, List.length_range]
  · rw [total, h.toNat_count]
    exact h.two_le
  · obtain ⟨hlt, rfl⟩ := getElem?_cut hi
    exact ⟨h.number_fragment hlt, rfl⟩

theorem isFragment {a : UDPMessage} (ha : a ∈ cut m max) : IsFragment a := by
  obtain ⟨hkey, hbound⟩ := h.parts.of_mem ha
  have hcount : a.fragCount.toNat = fragments m.data.length max := by
    have hsnd : a.fragCount = _ := congrArg Prod.snd hkey
    rw [hsnd, h.toNat_count]
  have htwo := h.two_le
  rw [← hcount] at htwo
  refine ⟨UInt8.lt_iff_toNat_lt.mpr htwo, UInt8.lt_iff_toNat_lt.mpr ?_⟩
  rw [total, h.toNat_count, ← hcount] at hbound
  exact hbound

theorem merged_cut (hid : m.fragID = 0) (hcount : m.fragCount = 1) :
    merged m (cut m max) = m := by
  cases m
  simp only at hid hcount
  subst hid hcount
  rw [merged, flatten_cut h.pos]

end Cuts

theorem exists_of_mem_cut {m a : UDPMessage} {max : Nat} (ha : a ∈ cut m max) :
    ∃ i < fragments m.data.length max, a = fragment m max i := by
  obtain ⟨i, hi⟩ := List.mem_iff_getElem?.mp ha
  obtain ⟨hlt, rfl⟩ := getElem?_cut hi
  exact ⟨i, hlt, rfl⟩

theorem merged_of_mem_cut {m a : UDPMessage} {max : Nat} (ha : a ∈ cut m max)
    (parts : List UDPMessage) : merged a parts = merged m parts := by
  obtain ⟨i, -, rfl⟩ := exists_of_mem_cut ha
  rfl

end Defragger

end Hy2Route.Hysteria
