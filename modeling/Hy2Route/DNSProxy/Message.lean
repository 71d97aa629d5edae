import Hy2Route.Foundation.NetIP
import Hy2Route.Policy.Types

/-!
# DNS messages

The parts of a message that the resolver reads or sets. An address record
counts when its data are four bytes, and the least of the counted lifetimes is
kept, where a lifetime of zero so far is replaced by the next one.
-/

namespace Hy2Route.DNSProxy

open Foundation Policy

def classINET : Nat := 1

def typeA : Nat := 1

def typeAAAA : Nat := 28

def opcodeQuery : Nat := 0

def rcodeSuccess : Nat := 0

def rcodeFormatError : Nat := 1

def rcodeNotImplemented : Nat := 4

structure Question where
  name : Bytes
  qtype : Nat
  qclass : Nat
  deriving DecidableEq

structure RRHeader where
  name : Bytes
  ttl : UInt32
  deriving DecidableEq

inductive RR where
  | a (hdr : RRHeader) (addr : Bytes)
  | other (hdr : RRHeader) (rrtype : Nat) (rdata : Bytes)
  deriving DecidableEq

structure Msg where
  id : Nat := 0
  response : Bool := false
  opcode : Nat := 0
  recursionDesired : Bool := false
  checkingDisabled : Bool := false
  rcode : Nat := 0
  question : List Question := []
  answer : List RR := []
  deriving DecidableEq

/-- Make a message the reply to a request. -/
def Msg.setReply (request : Msg) (m : Msg) : Msg :=
  { m with
    id := request.id
    response := true
    opcode := request.opcode
    recursionDesired :=
      if request.opcode = opcodeQuery then request.recursionDesired else m.recursionDesired
    checkingDisabled :=
      if request.opcode = opcodeQuery then request.checkingDisabled else m.checkingDisabled
    rcode := rcodeSuccess
    question :=
      match request.question with
      | [] => m.question
      | first :: _ => [first] }

def errorReply (request : Option Msg) (rcode : Nat) : Msg :=
  match request with
  | none => { rcode := rcode }
  | some request => { Msg.setReply request {} with rcode := rcode }

theorem answer_errorReply (request : Option Msg) (rcode : Nat) :
    (errorReply request rcode).answer = [] := by
  cases request <;> rfl

/-- A stored or received message as the answer to a request. -/
def Msg.answerTo (m request : Msg) : Msg :=
  { m with
    id := request.id
    question := request.question }

/-- The loop over the answer section. -/
def collectA : List RR → List Addr → UInt32 → List Addr × UInt32
  | [], addresses, minimum => (addresses, minimum)
  | .other _ _ _ :: rest, addresses, minimum => collectA rest addresses minimum
  | .a hdr raw :: rest, addresses, minimum =>
      match Addr.fromSlice raw with
      | none => collectA rest addresses minimum
      | some addr =>
          if !addr.is4 then collectA rest addresses minimum
          else
            collectA rest (addresses ++ [addr])
              (if minimum = 0 ∨ hdr.ttl < minimum then hdr.ttl else minimum)

def responseARecords (response : Msg) : List Addr × Int :=
  let (addresses, minimum) := collectA response.answer [] 0
  (addresses, minimum.toNat * second)

def clampDuration (value minimum maximum : Int) : Int :=
  if value < minimum then minimum
  else if maximum < value then maximum
  else value

theorem le_clampDuration {value minimum maximum : Int} (h : minimum ≤ maximum) :
    minimum ≤ clampDuration value minimum maximum := by
  unfold clampDuration
  split_ifs <;> omega

/-- The answer section has an address record of four bytes for the address. -/
def Msg.HasA (m : Msg) (ip : Addr) : Prop :=
  ∃ hdr raw, RR.a hdr raw ∈ m.answer ∧ raw.length = 4 ∧ Addr.fromSlice raw = some ip

theorem exists_a_cons {P : Bytes → Prop} {hdr : RRHeader} {raw : Bytes} {rest : List RR} :
    (∃ hdr' raw', RR.a hdr' raw' ∈ RR.a hdr raw :: rest ∧ P raw') ↔
      P raw ∨ ∃ hdr' raw', RR.a hdr' raw' ∈ rest ∧ P raw' := by
  constructor
  · rintro ⟨hdr', raw', hmem, hp⟩
    rcases List.mem_cons.mp hmem with heq | hrest
    · cases heq
      exact Or.inl hp
    · exact Or.inr ⟨hdr', raw', hrest, hp⟩
  · rintro (hp | ⟨hdr', raw', hrest, hp⟩)
    · exact ⟨hdr, raw, List.mem_cons_self, hp⟩
    · exact ⟨hdr', raw', List.mem_cons_of_mem _ hrest, hp⟩

theorem mem_collectA {ip : Addr} (answer : List RR) (addresses : List Addr) (minimum : UInt32) :
    ip ∈ (collectA answer addresses minimum).1 ↔
      ip ∈ addresses ∨
        ∃ hdr raw, RR.a hdr raw ∈ answer ∧ raw.length = 4 ∧ Addr.fromSlice raw = some ip := by
  induction answer generalizing addresses minimum with
  | nil => simp [collectA]
  | cons record rest ih =>
      cases record with
      | other hdr rrtype rdata => simp [collectA, ih]
      | a hdr raw =>
          rw [exists_a_cons (P := fun raw => raw.length = 4 ∧ Addr.fromSlice raw = some ip)]
          unfold collectA
          cases hraw : Addr.fromSlice raw with
          | none => simp [ih]
          | some addr =>
              have h4 := Addr.is4_fromSlice hraw
              by_cases hlen : raw.length = 4
              · simp [h4.mpr hlen, ih, hlen, or_assoc, eq_comm]
              · simp [Bool.eq_false_iff.mpr (mt h4.mp hlen), ih, hlen]

/-- The collected addresses are those of the four-byte address records. -/
theorem mem_responseARecords {response : Msg} {ip : Addr} :
    ip ∈ (responseARecords response).1 ↔ response.HasA ip := by
  calc ip ∈ (responseARecords response).1
      ↔ ip ∈ [] ∨ response.HasA ip := mem_collectA response.answer [] 0
    _ ↔ response.HasA ip := by simp

theorem Msg.HasA.is4 {m : Msg} {ip : Addr} (h : m.HasA ip) : ip.is4 = true := by
  obtain ⟨hdr, raw, -, hlen, hraw⟩ := h
  exact (Addr.is4_fromSlice hraw).mpr hlen

@[simp] theorem responseARecords_answerTo (m request : Msg) :
    responseARecords (m.answerTo request) = responseARecords m := rfl

@[simp] theorem answer_answerTo (m request : Msg) : (m.answerTo request).answer = m.answer := rfl

end Hy2Route.DNSProxy
