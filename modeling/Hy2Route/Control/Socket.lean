import Hy2Route.Foundation.Json

/-!
# The control socket

A client writes a request, the server answers with a response, and the client reads
at most 4096 bytes of it. The client gets the server's snapshot back exactly when the
response is within that limit and its texts are valid.

## Implementation notes

The fields of a response are named by an enumeration, in the order in which they are
written. The connection delivers what is written to it; counts are natural numbers.
Keys are compared as they are, and an unknown key is passed over.
-/

namespace Hy2Route.Control

open Foundation Foundation.Json

def maxRequestBytes : Nat := 4096

structure Snapshot where
  udpViaLanding : Bool
  tcpTransport : Bytes
  udpTransport : Bytes
  mode : Bytes
  hy2Connected : Bool
  hy2State : Bytes
  hy2LastSuccess : Bytes
  hy2LastError : Bytes
  hy2LastErrorReason : Bytes
  hy2LastErrorStage : Bytes
  dnsCache : Nat
  learnedIPs : Nat
  udpSessions : Nat
  activeTCP : Nat
  rssBytes : UInt64
  deriving DecidableEq

def Snapshot.zero : Snapshot := ⟨false, [], [], [], false, [], [], [], [], [], 0, 0, 0, 0, 0⟩

structure Response where
  ok : Bool
  snapshot : Snapshot
  error : Bytes
  deriving DecidableEq

def Response.zero : Response := ⟨false, .zero, []⟩

inductive Field where
  | ok
  | udpViaLanding
  | tcpTransport
  | udpTransport
  | mode
  | hy2Connected
  | hy2State
  | hy2LastSuccess
  | hy2LastError
  | hy2LastErrorReason
  | hy2LastErrorStage
  | dnsCache
  | learnedIPs
  | udpSessions
  | activeTCP
  | rssBytes
  | error
  deriving DecidableEq

namespace Field

def all : List Field :=
  [ok, udpViaLanding, tcpTransport, udpTransport, mode, hy2Connected, hy2State, hy2LastSuccess,
    hy2LastError, hy2LastErrorReason, hy2LastErrorStage, dnsCache, learnedIPs, udpSessions,
    activeTCP, rssBytes, error]

def key : Field → Bytes
  | ok => ascii "ok"
  | udpViaLanding => ascii "udp_via_landing"
  | tcpTransport => ascii "tcp_transport"
  | udpTransport => ascii "udp_transport"
  | mode => ascii "mode"
  | hy2Connected => ascii "hy2_connected"
  | hy2State => ascii "hy2_state"
  | hy2LastSuccess => ascii "hy2_last_success"
  | hy2LastError => ascii "hy2_last_error"
  | hy2LastErrorReason => ascii "hy2_last_error_reason"
  | hy2LastErrorStage => ascii "hy2_last_error_stage"
  | dnsCache => ascii "dns_cache"
  | learnedIPs => ascii "learned_ips"
  | udpSessions => ascii "udp_sessions"
  | activeTCP => ascii "active_tcp"
  | rssBytes => ascii "rss_bytes"
  | error => ascii "error"

def omitEmpty : Field → Bool
  | udpViaLanding | tcpTransport | udpTransport | hy2LastSuccess | hy2LastError
  | hy2LastErrorReason | hy2LastErrorStage | error => true
  | _ => false

def ofKey (key : Bytes) : Option Field := all.find? fun f => f.key == key

theorem mem_all (f : Field) : f ∈ all := by
  cases f <;> decide

theorem ofKey_key (f : Field) : ofKey f.key = some f := by
  cases f <;> decide

theorem recode_key (f : Field) : recode f.key = f.key := by
  refine recode_of_all ?_
  cases f <;> rfl

end Field

namespace Response

def get (r : Response) : Field → Value
  | .ok => .bool r.ok
  | .udpViaLanding => .bool r.snapshot.udpViaLanding
  | .tcpTransport => .text r.snapshot.tcpTransport
  | .udpTransport => .text r.snapshot.udpTransport
  | .mode => .text r.snapshot.mode
  | .hy2Connected => .bool r.snapshot.hy2Connected
  | .hy2State => .text r.snapshot.hy2State
  | .hy2LastSuccess => .text r.snapshot.hy2LastSuccess
  | .hy2LastError => .text r.snapshot.hy2LastError
  | .hy2LastErrorReason => .text r.snapshot.hy2LastErrorReason
  | .hy2LastErrorStage => .text r.snapshot.hy2LastErrorStage
  | .dnsCache => .number r.snapshot.dnsCache
  | .learnedIPs => .number r.snapshot.learnedIPs
  | .udpSessions => .number r.snapshot.udpSessions
  | .activeTCP => .number r.snapshot.activeTCP
  | .rssBytes => .number r.snapshot.rssBytes.toNat
  | .error => .text r.error

/-- Store a value of the field's type. -/
def set (r : Response) : Field → Value → Option Response
  | .ok, .bool b => some { r with ok := b }
  | .udpViaLanding, .bool b => some { r with snapshot := { r.snapshot with udpViaLanding := b } }
  | .tcpTransport, .text s => some { r with snapshot := { r.snapshot with tcpTransport := s } }
  | .udpTransport, .text s => some { r with snapshot := { r.snapshot with udpTransport := s } }
  | .mode, .text s => some { r with snapshot := { r.snapshot with mode := s } }
  | .hy2Connected, .bool b => some { r with snapshot := { r.snapshot with hy2Connected := b } }
  | .hy2State, .text s => some { r with snapshot := { r.snapshot with hy2State := s } }
  | .hy2LastSuccess, .text s =>
      some { r with snapshot := { r.snapshot with hy2LastSuccess := s } }
  | .hy2LastError, .text s => some { r with snapshot := { r.snapshot with hy2LastError := s } }
  | .hy2LastErrorReason, .text s =>
      some { r with snapshot := { r.snapshot with hy2LastErrorReason := s } }
  | .hy2LastErrorStage, .text s =>
      some { r with snapshot := { r.snapshot with hy2LastErrorStage := s } }
  | .dnsCache, .number n => some { r with snapshot := { r.snapshot with dnsCache := n } }
  | .learnedIPs, .number n => some { r with snapshot := { r.snapshot with learnedIPs := n } }
  | .udpSessions, .number n => some { r with snapshot := { r.snapshot with udpSessions := n } }
  | .activeTCP, .number n => some { r with snapshot := { r.snapshot with activeTCP := n } }
  | .rssBytes, .number n =>
      if n < 2 ^ 64 then
        some { r with snapshot := { r.snapshot with rssBytes := UInt64.ofNat n } }
      else none
  | .error, .text s => some { r with error := s }
  | _, _ => none

/-- Whether a field is written. -/
def writes (r : Response) (f : Field) : Bool := !(f.omitEmpty && (r.get f).isEmpty)

def members (r : Response) : List Member :=
  (Field.all.filter r.writes).map fun f => (f.key, r.get f)

/-- The response as the encoder writes it, with a newline. -/
def encode (r : Response) : Bytes := encodeObject r.members ++ [0x0A]

def assign (r : Response) (m : Member) : Option Response :=
  match Field.ofKey m.1 with
  | none => some r
  | some f => r.set f m.2

def ofMembers (ms : List Member) : Option Response := ms.foldlM assign zero

end Response

/-- The operation of a request. -/
def decodeRequest (ms : List Member) : Option Bytes :=
  ms.foldlM (fun operation m =>
    if m.1 = ascii "op" then
      match m.2 with
      | .text s => some s
      | _ => none
    else some operation) []

/-- The server's answer to a request. -/
def respond (snapshot : Snapshot) (input : Bytes) : Response :=
  match (decode (input.take maxRequestBytes)).bind decodeRequest with
  | none => { Response.zero with error := ascii "invalid request" }
  | some operation =>
      if operation ≠ ascii "status" then
        { Response.zero with error := ascii "unsupported operation" }
      else { Response.zero with ok := true, snapshot := snapshot }

def handle (snapshot : Snapshot) (input : Bytes) : Bytes := (respond snapshot input).encode

inductive RequestError where
  | decode
  | refused (message : Bytes)
  deriving DecidableEq

def requestMessage (operation : Bytes) : Bytes :=
  encodeObject [(ascii "op", .text operation)] ++ [0x0A]

/-- Ask a server that answers a message with the given bytes. -/
def request (serve : Bytes → Bytes) (operation : Bytes) : Except RequestError Snapshot :=
  match (decode ((serve (requestMessage operation)).take maxRequestBytes)).bind
      Response.ofMembers with
  | none => .error .decode
  | some r => if r.ok then .ok r.snapshot else .error (.refused r.error)

/-! ## Round trips -/

namespace Response

theorem get_set {r r' : Response} {f : Field} {v : Value} (h : r.set f v = some r')
    (f' : Field) : r'.get f' = if f' = f then v else r.get f' := by
  by_cases hf : f = .rssBytes
  · subst hf
    cases v with
    | number n =>
        simp only [set] at h
        split_ifs at h with hn
        cases h
        cases f' <;> first | rfl | exact congrArg _ (UInt64.toNat_ofNat_of_lt' hn)
    | text s => cases h
    | bool b => cases h
  · cases f <;> cases v <;> first | cases h | exact absurd rfl hf
    all_goals cases f' <;> rfl

/-- A field takes the recoded value of the same field. -/
theorem exists_set (r r₀ : Response) (f : Field) : ∃ r', r₀.set f (r.get f).recode = some r' := by
  cases f with
  | rssBytes => exact ⟨_, if_pos r.snapshot.rssBytes.toNat_lt⟩
  | _ => exact ⟨_, rfl⟩

/-- Members of fields, read one after the other. -/
theorem exists_foldlM_assign (r r₀ : Response) (fs : List Field) :
    ∃ r', (fs.map fun f => recodeMember (f.key, r.get f)).foldlM assign r₀ = some r' ∧
      ∀ f, r'.get f = if f ∈ fs then (r.get f).recode else r₀.get f := by
  induction fs generalizing r₀ with
  | nil => exact ⟨r₀, rfl, fun _ => rfl⟩
  | cons f fs ih =>
      obtain ⟨r₁, hset⟩ := r.exists_set r₀ f
      obtain ⟨r', hfold, hget⟩ := ih r₁
      have hassign : r₀.assign (recodeMember (f.key, r.get f)) = some r₁ := by
        rw [assign, recodeMember, Field.recode_key, Field.ofKey_key]
        exact hset
      refine ⟨r', ?_, fun f' => ?_⟩
      · rw [List.map_cons, List.foldlM_cons, hassign]
        exact hfold
      · rw [hget, get_set hset]
        by_cases hmem : f' ∈ fs
        · rw [if_pos hmem, if_pos (List.mem_cons_of_mem f hmem)]
        · by_cases hf : f' = f
          · rw [if_neg hmem, if_pos hf, hf, if_pos List.mem_cons_self]
          · rw [if_neg hmem, if_neg hf, if_neg (by simp [hf, hmem])]

/-- A field that is left out has the value it has in the beginning. -/
theorem recode_of_not_writes {r : Response} {f : Field} (h : r.writes f = false) :
    (r.get f).recode = zero.get f := by
  have hempty : (r.get f).isEmpty = true := by
    simp only [writes, Bool.not_eq_false', Bool.and_eq_true] at h
    exact h.2
  cases f <;> exact Value.recode_of_isEmpty hempty

/-- What the client makes of a response that it has read completely. -/
theorem exists_ofMembers (r : Response) :
    ∃ r', ofMembers (r.members.map recodeMember) = some r' ∧ ∀ f, r'.get f = (r.get f).recode := by
  obtain ⟨r', hfold, hget⟩ := r.exists_foldlM_assign zero (Field.all.filter r.writes)
  refine ⟨r', ?_, fun f => ?_⟩
  · rw [ofMembers, members, List.map_map]
    exact hfold
  · rw [hget]
    split_ifs with hmem
    · rfl
    · rw [List.mem_filter, not_and] at hmem
      exact (recode_of_not_writes (Bool.eq_false_iff.mpr (hmem f.mem_all))).symm

theorem ext_get {r r' : Response} (h : ∀ f, r.get f = r'.get f) : r = r' := by
  obtain ⟨ok, s, error⟩ := r
  obtain ⟨ok', s', error'⟩ := r'
  have hsnapshot : s = s' := by
    cases s
    cases s'
    simp only [Snapshot.mk.injEq]
    exact ⟨Value.bool.inj (h .udpViaLanding), Value.text.inj (h .tcpTransport),
      Value.text.inj (h .udpTransport), Value.text.inj (h .mode),
      Value.bool.inj (h .hy2Connected), Value.text.inj (h .hy2State),
      Value.text.inj (h .hy2LastSuccess), Value.text.inj (h .hy2LastError),
      Value.text.inj (h .hy2LastErrorReason), Value.text.inj (h .hy2LastErrorStage),
      Value.number.inj (h .dnsCache), Value.number.inj (h .learnedIPs),
      Value.number.inj (h .udpSessions), Value.number.inj (h .activeTCP),
      UInt64.toNat.inj (Value.number.inj (h .rssBytes))⟩
  have hok : ok = ok' := Value.bool.inj (h .ok)
  have herror : error = error' := Value.text.inj (h .error)
  rw [hok, hsnapshot, herror]

end Response

/-! ## Status requests -/

/-- The response to a status request. -/
def Snapshot.response (s : Snapshot) : Response := { Response.zero with ok := true, snapshot := s }

/-- The bytes that a field takes in a response. -/
def Response.fieldWidth (r : Response) (f : Field) : Nat :=
  if r.writes f then memberWidth (f.key, r.get f) else 0

/-- The bytes of the response to a status request, with its last bracket and newline. -/
def Snapshot.width (s : Snapshot) : Nat := (Field.all.map s.response.fieldWidth).sum + 2

theorem respond_status (s : Snapshot) :
    respond s (requestMessage (ascii "status")) = s.response := by
  have hread : decode ((requestMessage (ascii "status")).take maxRequestBytes) =
      some [(ascii "op", .text (ascii "status"))] := by
    rw [requestMessage, decode_take_encodeObject]
    decide +kernel
  rw [respond, hread]
  rfl

theorem sum_filter_map {α : Type} (p : α → Bool) (g : α → Nat) (l : List α) :
    ((l.filter p).map g).sum = (l.map fun a => if p a then g a else 0).sum := by
  induction l with
  | nil => rfl
  | cons a l ih =>
      by_cases ha : p a = true
      · simp [ha, ih]
      · simp [ha, ih]

theorem length_encode_response (s : Snapshot) : s.response.encode.length = s.width := by
  have hne : s.response.members ≠ [] :=
    List.ne_nil_of_mem (List.mem_map_of_mem (List.mem_filter.mpr ⟨Field.ok.mem_all, rfl⟩))
  rw [Response.encode, List.length_append, length_encodeObject hne, objectWidth,
    Response.members, List.map_map]
  exact congrArg (· + 2) (sum_filter_map _ _ _)

/-- The answer to a status request: within the limit, the snapshot with its texts
recoded, and an error otherwise. -/
theorem request_status (s : Snapshot) :
    ∃ r : Response, (∀ f, r.get f = (s.response.get f).recode) ∧
      request (handle s) (ascii "status") =
        if s.width ≤ maxRequestBytes + 1 then .ok r.snapshot else .error .decode := by
  obtain ⟨r, hr, hget⟩ := s.response.exists_ofMembers
  have hok : r.ok = true := Value.bool.inj (hget .ok)
  have hwidth : (encodeObject s.response.members).length + 1 = s.width := by
    rw [← length_encode_response, Response.encode, List.length_append, List.length_singleton]
  refine ⟨r, hget, ?_⟩
  rw [request, handle, respond_status, Response.encode, decode_take_encodeObject, ← hwidth]
  by_cases hfits : (encodeObject s.response.members).length ≤ maxRequestBytes
  · rw [if_pos hfits, if_pos (Nat.succ_le_succ hfits), Option.bind_some, hr]
    exact if_pos hok
  · rw [if_neg hfits, if_neg (fun h => hfits (Nat.le_of_succ_le_succ h))]
    rfl

/-- A status request gets the snapshot exactly when it is within the limit and its
texts are valid. -/
theorem request_status_eq_ok_iff (s : Snapshot) :
    request (handle s) (ascii "status") = .ok s ↔
      s.width ≤ maxRequestBytes + 1 ∧ ∀ f, (s.response.get f).recode = s.response.get f := by
  obtain ⟨r, hget, hrequest⟩ := request_status s
  rw [hrequest]
  constructor
  · intro heq
    split_ifs at heq with hfits
    have hsnapshot : r.snapshot = s := Except.ok.inj heq
    have hresponse : r = s.response := by
      have hok : r.ok = true := Value.bool.inj (hget .ok)
      have herror : r.error = [] := Value.text.inj (hget .error)
      rw [Snapshot.response, ← hsnapshot, ← hok, Response.zero, ← herror]
    refine ⟨hfits, fun f => ?_⟩
    rw [← hget, hresponse]
  · rintro ⟨hfits, hvalid⟩
    have hresponse : r = s.response := Response.ext_get fun f => (hget f).trans (hvalid f)
    rw [if_pos hfits, hresponse]
    rfl

end Hy2Route.Control
