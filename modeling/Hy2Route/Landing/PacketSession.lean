import Hy2Route.Foundation.Threads
import Hy2Route.Landing.Address

/-!
# A SOCKS5 UDP association

A session sends datagrams to the relay that was negotiated for it. The first target binds
it, and later targets are refused. What arrives is taken from the underlying session, and
everything that is not a reply from the relay for the bound target is skipped.

## Implementation notes

Calls are threads over the session. A section under `mu` is one step; `sendMu` is held
over several. The underlying session answers with its inputs: whether a send failed, and
the next datagram of a receive. The session records what it handed over, and what it
took with what became of it.
-/

namespace Hy2Route.Landing

open Foundation

inductive SendError where
  | tooLarge
  | encode (err : EncodeError)
  | closed
  | bound
  | network
  deriving DecidableEq

inductive ReceiveError where
  | network
  | closed
  deriving DecidableEq

/-- What became of a datagram that was taken. -/
inductive Outcome where
  | pending
  | skipped
  | delivered (payload target : Bytes)
  | refused
  deriving DecidableEq

/-- A datagram that the call with the given number took. -/
structure Arrival where
  raw : Bytes
  source : Bytes
  receiver : Nat
  outcome : Outcome
  deriving DecidableEq

/-- A datagram that the call with the given number handed over. -/
structure Handed where
  sender : Nat
  raw : Bytes
  address : Bytes
  deriving DecidableEq

inductive Once where
  | fresh
  | running
  | done
  deriving DecidableEq

/-- What is fixed when the association is opened. -/
structure Association where
  relay : Bytes
  maxPayload : Int

structure PacketState where
  sendMu : Option Nat
  target : Bytes
  closed : Bool
  once : Once
  sent : List Handed
  arrivals : List Arrival

def PacketState.new : PacketState := ⟨none, [], false, .fresh, [], []⟩

inductive PacketCall where
  | send (payload target : Bytes)
  | receive
  | close

inductive PacketPoint where
  | lock (payload target : Bytes)
  | encode (payload target : Bytes)
  | bind (raw target : Bytes)
  | hand (raw : Bytes)
  | unlock (err : Option SendError)
  | sendReturned (err : Option SendError)
  | receive
  | compare (k : Nat) (target payload : Bytes)
  | received (payload target : Bytes)
  | receiveFailed (err : ReceiveError)
  | once
  | setClosed
  | closeConns
  | closeReturned
  deriving DecidableEq

def PacketCall.start : PacketCall → PacketPoint
  | .send payload target => .lock payload target
  | .receive => .receive
  | .close => .once

inductive PacketInput where
  | ok
  | failed
  | datagram (raw source : Bytes)
  deriving DecidableEq

section Steps

variable (text : AddressText) (assoc : Association)

/-- The host of an address, empty when it does not split. -/
def hostOf (address : Bytes) : Bytes :=
  match splitHostPort address with
  | some (host, _) => host
  | none => []

def numeric (address : Bytes) : Bool := (text.parseIP (hostOf address)).isSome

/-- The payload is larger than the landing takes. -/
def Association.TooLarge (payload : Bytes) : Prop :=
  0 < assoc.maxPayload ∧ assoc.maxPayload < payload.length

instance (payload : Bytes) : Decidable (assoc.TooLarge payload) :=
  inferInstanceAs (Decidable (_ ∧ _))

/-- The target and the payload of a reply, when it may come from the relay. -/
def Association.decode (source raw : Bytes) : Option (Bytes × Bytes) :=
  if numeric text assoc.relay ∧ source ≠ assoc.relay then none
  else if raw.length < 4 ∨ raw.take 3 ≠ [0, 0, 0] then none
  else (readAddress text (raw.getD 3 0) (raw.drop 4)).toOption

/-- Record what became of a datagram. -/
def PacketState.settle (s : PacketState) (k : Nat) (outcome : Outcome) : PacketState :=
  { s with arrivals := s.arrivals.modify k fun a => { a with outcome := outcome } }

def PacketState.take (s : PacketState) (a : Arrival) : PacketState :=
  { s with arrivals := s.arrivals ++ [a] }

def packetExec (s : PacketState) (i : Nat) (point : PacketPoint) (input : PacketInput) :
    Option (PacketState × PacketPoint) :=
  match point with
  | .lock payload target =>
      if s.sendMu = none then some ({ s with sendMu := some i }, .encode payload target) else none
  | .encode payload target =>
      if assoc.TooLarge payload then some (s, .unlock (some .tooLarge))
      else
        match encodeUDP text payload target with
        | .error err => some (s, .unlock (some (.encode err)))
        | .ok raw => some (s, .bind raw target)
  | .bind raw target =>
      if s.closed then some (s, .unlock (some .closed))
      else if s.target ≠ [] ∧ s.target ≠ target then some (s, .unlock (some .bound))
      else some ({ s with target := target }, .hand raw)
  | .hand raw =>
      some ({ s with sent := s.sent ++ [⟨i, raw, assoc.relay⟩] },
        .unlock (if input = .failed then some .network else none))
  | .unlock err => some ({ s with sendMu := none }, .sendReturned err)
  | .sendReturned _ => none
  | .receive =>
      match input with
      | .ok => none
      | .failed => some (s, .receiveFailed .network)
      | .datagram raw source =>
          match assoc.decode text source raw with
          | none => some (s.take ⟨raw, source, i, .skipped⟩, .receive)
          | some (target, payload) =>
              some (s.take ⟨raw, source, i, .pending⟩, .compare s.arrivals.length target payload)
  | .compare k target payload =>
      if s.closed then some (s.settle k .refused, .receiveFailed .closed)
      else if numeric text s.target ∧ target ≠ s.target then some (s.settle k .skipped, .receive)
      else some (s.settle k (.delivered payload target), .received payload target)
  | .received _ _ => none
  | .receiveFailed _ => none
  | .once =>
      match s.once with
      | .fresh => some ({ s with once := .running }, .setClosed)
      | .running => none
      | .done => some (s, .closeReturned)
  | .setClosed => some ({ s with closed := true }, .closeConns)
  | .closeConns => some ({ s with once := .done }, .closeReturned)
  | .closeReturned => none

def packetMachine : Machine PacketState PacketPoint PacketCall PacketInput where
  start := PacketCall.start
  exec s i point input :=
    (packetExec text assoc s i point input).map fun (s, point) => (s, point, [])

/-- The session after the moves. -/
def runPackets (moves : List (Move PacketCall PacketInput)) : Threads PacketState PacketPoint :=
  moves.foldl (packetMachine text assoc).step ⟨.new, []⟩

/-- The datagram that a move gives to a receive, with the number of the call. -/
def takenBy (state : Threads PacketState PacketPoint) :
    Move PacketCall PacketInput → Option (Nat × Bytes × Bytes)
  | .run i (.datagram raw source) =>
      if state.threads[i]? = some .receive then some (i, raw, source) else none
  | _ => none

/-- The datagrams that moves give to receives, in order. -/
def incoming : Threads PacketState PacketPoint → List (Move PacketCall PacketInput) →
    List (Nat × Bytes × Bytes)
  | _, [] => []
  | state, move :: rest =>
      (takenBy state move).toList ++ incoming ((packetMachine text assoc).step state move) rest

/-- The datagram is within the limit and has the target. -/
def Association.Carries (target raw : Bytes) : Prop :=
  ∃ payload, encodeUDP text payload target = .ok raw ∧ ¬ assoc.TooLarge payload

/-- What a step can do. -/
inductive PacketStep (s : PacketState) (i : Nat) : PacketPoint → PacketState → PacketPoint → Prop
  | lock (payload target : Bytes) : PacketStep s i (.lock payload target)
      { s with sendMu := some i } (.encode payload target)
  | refuseEncode (payload target : Bytes) (err : SendError) :
      PacketStep s i (.encode payload target) s (.unlock (some err))
  | encode {payload target raw : Bytes} (carries : assoc.Carries text target raw) :
      PacketStep s i (.encode payload target) s (.bind raw target)
  | refuseBind (raw target : Bytes) (err : SendError) :
      PacketStep s i (.bind raw target) s (.unlock (some err))
  | bind (raw : Bytes) {target : Bytes} (live : s.closed = false)
      (same : s.target = [] ∨ s.target = target) :
      PacketStep s i (.bind raw target) { s with target := target } (.hand raw)
  | hand (raw : Bytes) (err : Option SendError) : PacketStep s i (.hand raw)
      { s with sent := s.sent ++ [⟨i, raw, assoc.relay⟩] } (.unlock err)
  | unlock (err : Option SendError) :
      PacketStep s i (.unlock err) { s with sendMu := none } (.sendReturned err)
  | failReceive : PacketStep s i .receive s (.receiveFailed .network)
  | skip {raw source : Bytes} (malformed : assoc.decode text source raw = none) :
      PacketStep s i .receive (s.take ⟨raw, source, i, .skipped⟩) .receive
  | take {raw source target payload : Bytes}
      (decoded : assoc.decode text source raw = some (target, payload)) :
      PacketStep s i .receive (s.take ⟨raw, source, i, .pending⟩)
        (.compare s.arrivals.length target payload)
  | refuse (k : Nat) (target payload : Bytes) (closed : s.closed = true) :
      PacketStep s i (.compare k target payload) (s.settle k .refused) (.receiveFailed .closed)
  | drop (k : Nat) {target : Bytes} (payload : Bytes) (bound : numeric text s.target = true)
      (other : target ≠ s.target) :
      PacketStep s i (.compare k target payload) (s.settle k .skipped) .receive
  | deliver (k : Nat) {target : Bytes} (payload : Bytes)
      (same : numeric text s.target = true → target = s.target) :
      PacketStep s i (.compare k target payload) (s.settle k (.delivered payload target))
        (.received payload target)
  | beginClose : PacketStep s i .once { s with once := .running } .setClosed
  | closedBefore (done : s.once = .done) : PacketStep s i .once s .closeReturned
  | setClosed : PacketStep s i .setClosed { s with closed := true } .closeConns
  | endClose : PacketStep s i .closeConns { s with once := .done } .closeReturned

end Steps

section Runs

variable {text : AddressText} {assoc : Association} {s s' : PacketState} {i : Nat}
  {point point' : PacketPoint}

theorem packetExec_step {input : PacketInput}
    (h : packetExec text assoc s i point input = some (s', point')) :
    PacketStep text assoc s i point s' point' := by
  cases point with
  | lock payload target =>
      simp only [packetExec] at h
      split_ifs at h
      cases h
      exact .lock payload target
  | encode payload target =>
      simp only [packetExec] at h
      split_ifs at h with hlarge
      · cases h
        exact .refuseEncode payload target _
      · split at h
        · cases h
          exact .refuseEncode payload target _
        · rename_i raw hencode
          cases h
          exact .encode ⟨payload, hencode, hlarge⟩
  | bind raw target =>
      simp only [packetExec] at h
      split_ifs at h with hclosed hother
      · cases h
        exact .refuseBind raw target _
      · cases h
        exact .refuseBind raw target _
      · cases h
        refine .bind raw (Bool.not_eq_true _ ▸ hclosed) ?_
        by_cases hempty : s.target = []
        · exact Or.inl hempty
        · exact Or.inr (by_contra fun hne => hother ⟨hempty, hne⟩)
  | hand raw =>
      cases h
      exact .hand raw _
  | unlock err =>
      cases h
      exact .unlock err
  | receive =>
      simp only [packetExec] at h
      split at h
      · cases h
      · cases h
        exact .failReceive
      · split at h
        · rename_i hdecode
          cases h
          exact .skip hdecode
        · rename_i hdecode
          cases h
          exact .take hdecode
  | compare k target payload =>
      simp only [packetExec] at h
      split_ifs at h with hclosed hother
      · cases h
        exact .refuse k target payload hclosed
      · cases h
        exact .drop k payload hother.1 hother.2
      · cases h
        exact .deliver k payload fun hnumeric => by_contra fun hne => hother ⟨hnumeric, hne⟩
  | once =>
      simp only [packetExec] at h
      split at h
      · cases h
        exact .beginClose
      · cases h
      · rename_i hdone
        cases h
        exact .closedBefore hdone
  | setClosed =>
      cases h
      exact .setClosed
  | closeConns =>
      cases h
      exact .endClose
  | sendReturned err => cases h
  | received payload target => cases h
  | receiveFailed err => cases h
  | closeReturned => cases h

theorem packetMachine_step {input : PacketInput} {calls : List PacketCall}
    (h : (packetMachine text assoc).exec s i point input = some (s', point', calls)) :
    PacketStep text assoc s i point s' point' := by
  obtain ⟨⟨after, next⟩, hexec, heq⟩ := Option.map_eq_some_iff.mp h
  cases heq
  exact packetExec_step hexec

/-! ## One destination -/

theorem Association.Carries.ne_nil {target raw : Bytes} (h : assoc.Carries text target raw) :
    target ≠ [] := by
  rintro rfl
  obtain ⟨payload, hencode, -⟩ := h
  cases hencode

namespace PacketStep

variable (h : PacketStep text assoc s i point s' point')

include h

theorem closed_mono (hclosed : s.closed = true) : s'.closed = true := by
  cases h <;> first | exact hclosed | rfl

/-- Once a target is bound it stays. -/
theorem target_eq (hbound : s.target ≠ []) : s'.target = s.target := by
  cases h with
  | bind raw live same => exact (same.resolve_left hbound).symm
  | _ => rfl

theorem carries {raw : Bytes} (hraw : assoc.Carries text s.target raw) :
    assoc.Carries text s'.target raw :=
  (h.target_eq hraw.ne_nil).symm ▸ hraw

end PacketStep

/-- Everything was handed over to the relay for the bound target. -/
structure Pinned (text : AddressText) (assoc : Association) (s : PacketState) (n : Nat) : Prop where
  sent : ∀ d ∈ s.sent, d.sender < n ∧ d.address = assoc.relay ∧ assoc.Carries text s.target d.raw
  done : s.once = .done → s.closed = true

def PinnedPoint (text : AddressText) (assoc : Association) (s : PacketState) (_ : Nat) :
    PacketPoint → Prop
  | .bind raw target => assoc.Carries text target raw
  | .hand raw => assoc.Carries text s.target raw
  | .closeConns => s.closed = true
  | .closeReturned => s.closed = true
  | _ => True

theorem pinned_keeps (text : AddressText) (assoc : Association) :
    (packetMachine text assoc).Keeps (fun _ _ _ _ => True) (Pinned text assoc)
      (PinnedPoint text assoc) where
  start c h := by
    refine ⟨⟨fun d hd => ?_, h.done⟩, by cases c <;> trivial⟩
    obtain ⟨hsender, hrest⟩ := h.sent d hd
    exact ⟨Nat.lt_succ_of_lt hsender, hrest⟩
  exec := by
    intro s n i point input s' point' calls h hi hpoint _ hexec
    have hstep := packetMachine_step hexec
    have hsent (hsame : s'.sent = s.sent) : ∀ d ∈ s'.sent, d.sender < n ∧
        d.address = assoc.relay ∧ assoc.Carries text s'.target d.raw := by
      intro d hd
      obtain ⟨hsender, haddress, hcarries⟩ := h.sent d (hsame ▸ hd)
      exact ⟨hsender, haddress, hstep.carries hcarries⟩
    cases hstep with
    | encode carries => exact ⟨h, carries⟩
    | bind raw live same => exact ⟨⟨hsent rfl, h.done⟩, hpoint⟩
    | hand raw err =>
        refine ⟨⟨fun d hd => ?_, h.done⟩, trivial⟩
        rcases List.mem_append.mp hd with hold | hnew
        · exact h.sent d hold
        · obtain rfl := List.mem_singleton.mp hnew
          exact ⟨hi, rfl, hpoint⟩
    | beginClose => exact ⟨⟨h.sent, fun hdone => by cases hdone⟩, trivial⟩
    | closedBefore done => exact ⟨h, h.done done⟩
    | setClosed => exact ⟨⟨h.sent, fun _ => rfl⟩, rfl⟩
    | endClose => exact ⟨⟨h.sent, fun _ => hpoint⟩, hpoint⟩
    | _ => exact ⟨⟨hsent rfl, h.done⟩, trivial⟩
  other := by
    intro s n i point input s' point' calls j other h hi hpoint _ hexec hj hother
    have hstep := packetMachine_step hexec
    cases other with
    | hand raw => exact hstep.carries hother
    | closeConns => exact hstep.closed_mono hother
    | closeReturned => exact hstep.closed_mono hother
    | _ => exact hother

/-! ## Sends after the close -/

/-- The call with the given number has handed nothing over. -/
structure Silent (m : Nat) (s : PacketState) (n : Nat) : Prop where
  closed : s.closed = true
  started : m < n
  sent : ∀ d ∈ s.sent, d.sender ≠ m

/-- The call with the given number is not about to hand over. -/
def SilentPoint (m : Nat) (_ : PacketState) (i : Nat) (point : PacketPoint) : Prop :=
  i = m → ∀ raw, point ≠ .hand raw

theorem silent_keeps (text : AddressText) (assoc : Association) (m : Nat) :
    (packetMachine text assoc).Keeps (fun _ _ _ _ => True) (Silent m) (SilentPoint m) where
  start c h := ⟨⟨h.closed, Nat.lt_succ_of_lt h.started, h.sent⟩,
    fun heq => absurd h.started (heq ▸ Nat.lt_irrefl _)⟩
  exec := by
    intro s n i point input s' point' calls h hi hpoint _ hexec
    have hstep := packetMachine_step hexec
    have hclosed := hstep.closed_mono h.closed
    cases hstep with
    | bind raw live same =>
        rw [h.closed] at live
        cases live
    | hand raw err =>
        refine ⟨⟨hclosed, h.started, fun d hd => ?_⟩, fun _ _ heq => by cases heq⟩
        rcases List.mem_append.mp hd with hold | hnew
        · exact h.sent d hold
        · obtain rfl := List.mem_singleton.mp hnew
          exact fun heq => hpoint heq raw rfl
    | _ => exact ⟨⟨hclosed, h.started, h.sent⟩, fun _ _ heq => by cases heq⟩
  other := by
    intro s n i point input s' point' calls j other h hi hpoint _ hexec hj hother
    exact hother

/-! ## What is taken -/

theorem getElem?_settle {k j : Nat} {outcome : Outcome} {a : Arrival}
    (h : (s.settle k outcome).arrivals[j]? = some a) :
    j ≠ k ∧ s.arrivals[j]? = some a ∨
      j = k ∧ ∃ old, s.arrivals[k]? = some old ∧ a = { old with outcome := outcome } := by
  simp only [PacketState.settle, List.getElem?_modify] at h
  by_cases hj : k = j
  · subst hj
    simp only [if_true] at h
    obtain ⟨old, hold, rfl⟩ := Option.map_eq_some_iff.mp h
    exact Or.inr ⟨rfl, old, hold, rfl⟩
  · simp only [if_neg hj] at h
    exact Or.inl ⟨Ne.symm hj, by simpa using h⟩

theorem getElem?_take {j : Nat} {a new : Arrival}
    (h : (s.take new).arrivals[j]? = some a) :
    s.arrivals[j]? = some a ∨ j = s.arrivals.length ∧ a = new := by
  simp only [PacketState.take] at h
  by_cases hj : j < s.arrivals.length
  · rw [List.getElem?_append_left hj] at h
    exact Or.inl h
  · rw [List.getElem?_append_right (Nat.not_lt.mp hj), List.getElem?_singleton] at h
    split_ifs at h with hzero
    exact Or.inr ⟨by omega, (Option.some.inj h).symm⟩

/-- What holds of the arrivals still holds when one is added for which it holds. -/
theorem forall_take {P : Nat → Arrival → Prop} {new : Arrival}
    (h : ∀ (k : Nat) (a : Arrival), s.arrivals[k]? = some a → P k a)
    (hnew : P s.arrivals.length new) :
    ∀ (k : Nat) (a : Arrival), (s.take new).arrivals[k]? = some a → P k a := by
  intro k a hget
  rcases getElem?_take hget with hold | ⟨rfl, rfl⟩
  · exact h k a hold
  · exact hnew

/-- The same when one is settled. -/
theorem forall_settle {P : Nat → Arrival → Prop} {j : Nat} {outcome : Outcome}
    (h : ∀ (k : Nat) (a : Arrival), s.arrivals[k]? = some a → P k a)
    (hnew : ∀ a, s.arrivals[j]? = some a → P j { a with outcome := outcome }) :
    ∀ (k : Nat) (a : Arrival), (s.settle j outcome).arrivals[k]? = some a → P k a := by
  intro k a hget
  rcases getElem?_settle hget with ⟨-, hold⟩ | ⟨rfl, old, hold, rfl⟩
  · exact h k a hold
  · exact hnew old hold

/-- What a call did with the datagrams that it took. -/
structure Takes (text : AddressText) (assoc : Association) (s : PacketState) (i : Nat)
    (point : PacketPoint) : Prop where
  compare : ∀ {k target payload}, point = .compare k target payload →
    ∃ a : Arrival, s.arrivals[k]? = some a ∧ a.receiver = i ∧ a.outcome = .pending ∧
      assoc.decode text a.source a.raw = some (target, payload)
  pending : ∀ {k : Nat} {a : Arrival}, s.arrivals[k]? = some a → a.receiver = i →
    a.outcome = .pending → ∃ target payload, point = .compare k target payload
  delivered : ∀ {k : Nat} {a : Arrival} {payload target}, s.arrivals[k]? = some a → a.receiver = i →
    a.outcome = .delivered payload target → point = .received payload target
  received : ∀ {payload target}, point = .received payload target →
    ∃ (k : Nat) (a : Arrival), s.arrivals[k]? = some a ∧ a.receiver = i ∧
      a.outcome = .delivered payload target ∧
      ∀ (m : Nat) (b : Arrival), m ≠ k → s.arrivals[m]? = some b → b.receiver = i →
        ∀ payload target, b.outcome ≠ .delivered payload target

/-- Every datagram was taken by a call. -/
def Taken (s : PacketState) (n : Nat) : Prop :=
  ∀ (k : Nat) (a : Arrival), s.arrivals[k]? = some a → a.receiver < n

/-- The call holds no datagram and has returned none. -/
def PacketPoint.Empty : PacketPoint → Prop
  | .compare _ _ _ => False
  | .received _ _ => False
  | _ => True

namespace Takes

variable (h : Takes text assoc s i point)

include h

theorem quiet (hsame : s'.arrivals = s.arrivals) (hbefore : point.Empty) (hafter : point'.Empty) :
    Takes text assoc s' i point' where
  compare heq := by
    rw [heq] at hafter
    exact hafter.elim
  pending hget hreceiver hpending := by
    obtain ⟨target, payload, rfl⟩ := h.pending (hsame ▸ hget) hreceiver hpending
    exact hbefore.elim
  delivered hget hreceiver hdelivered := by
    obtain rfl := h.delivered (hsame ▸ hget) hreceiver hdelivered
    exact hbefore.elim
  received heq := by
    rw [heq] at hafter
    exact hafter.elim

/-- The call settles the datagram that it holds. -/
theorem settle {k : Nat} {target payload : Bytes} (hpoint : point = .compare k target payload)
    {outcome : Outcome} (hsettled : outcome ≠ .pending)
    (hafter : ∀ k target payload, point' ≠ .compare k target payload)
    (hdelivered : ∀ payload target, outcome = .delivered payload target ↔
      point' = .received payload target) :
    Takes text assoc (s.settle k outcome) i point' where
  compare heq := absurd heq (hafter _ _ _)
  pending hget hreceiver hpending := by
    rcases getElem?_settle hget with ⟨hne, hold⟩ | ⟨-, old, -, rfl⟩
    · obtain ⟨target', payload', hcompare⟩ := h.pending hold hreceiver hpending
      rw [hpoint] at hcompare
      cases hcompare
      exact absurd rfl hne
    · exact absurd hpending hsettled
  delivered hget hreceiver hout := by
    rcases getElem?_settle hget with ⟨-, hold⟩ | ⟨-, old, -, rfl⟩
    · have hreceived := h.delivered hold hreceiver hout
      rw [hpoint] at hreceived
      cases hreceived
    · exact (hdelivered _ _).mp hout
  received heq := by
    obtain ⟨a, hget, hreceiver, -⟩ := h.compare hpoint
    refine ⟨k, { a with outcome := outcome }, ?_, hreceiver, (hdelivered _ _).mpr heq,
      fun m b hne hb hreceiver payload target hout => ?_⟩
    · simp [PacketState.settle, hget]
    · rcases getElem?_settle hb with ⟨-, hold⟩ | ⟨rfl, -⟩
      · -- what was delivered before would have ended the call
        have hreceived := h.delivered hold hreceiver hout
        rw [hpoint] at hreceived
        cases hreceived
      · exact hne rfl

/-- The call takes a datagram. -/
theorem take (hbefore : point.Empty) (raw source : Bytes) {outcome : Outcome}
    (hcompare : ∀ {k target payload}, point' = .compare k target payload →
      k = s.arrivals.length ∧ outcome = .pending ∧
        assoc.decode text source raw = some (target, payload))
    (hpending : outcome = .pending →
      ∃ target payload, point' = .compare s.arrivals.length target payload)
    (hdelivered : ∀ payload target, outcome ≠ .delivered payload target)
    (hafter : ∀ payload target, point' ≠ .received payload target) :
    Takes text assoc (s.take ⟨raw, source, i, outcome⟩) i point' where
  compare heq := by
    obtain ⟨rfl, hout, hdecode⟩ := hcompare heq
    refine ⟨⟨raw, source, i, outcome⟩, ?_, rfl, hout, hdecode⟩
    simp [PacketState.take]
  pending hget hreceiver hout := by
    rcases getElem?_take hget with hold | ⟨rfl, rfl⟩
    · obtain ⟨target, payload, rfl⟩ := h.pending hold hreceiver hout
      exact hbefore.elim
    · exact hpending hout
  delivered hget hreceiver hout := by
    rcases getElem?_take hget with hold | ⟨rfl, rfl⟩
    · obtain rfl := h.delivered hold hreceiver hout
      exact hbefore.elim
    · exact absurd hout (hdelivered _ _)
  received heq := absurd heq (hafter _ _)

/-- A call is not concerned by what happens to the datagrams of others. -/
theorem unchanged
    (hforward : ∀ {k : Nat} {a : Arrival}, s.arrivals[k]? = some a → a.receiver = i →
      s'.arrivals[k]? = some a)
    (hback : ∀ {k : Nat} {a : Arrival}, s'.arrivals[k]? = some a → a.receiver = i →
      s.arrivals[k]? = some a) : Takes text assoc s' i point where
  compare heq := by
    obtain ⟨a, hget, hreceiver, hrest⟩ := h.compare heq
    exact ⟨a, hforward hget hreceiver, hreceiver, hrest⟩
  pending hget hreceiver := h.pending (hback hget hreceiver) hreceiver
  delivered hget hreceiver := h.delivered (hback hget hreceiver) hreceiver
  received heq := by
    obtain ⟨k, a, hget, hreceiver, hout, honly⟩ := h.received heq
    exact ⟨k, a, hforward hget hreceiver, hreceiver, hout,
      fun m b hne hb hother => honly m b hne (hback hb hother) hother⟩

theorem other_take {a : Arrival} (hother : a.receiver ≠ i) :
    Takes text assoc (s.take a) i point := by
  refine h.unchanged (fun hget _ => ?_) fun hget hreceiver => ?_
  · have hlt := (List.getElem?_eq_some_iff.mp hget).1
    rw [PacketState.take, List.getElem?_append_left hlt]
    exact hget
  · rcases getElem?_take hget with hold | ⟨-, rfl⟩
    · exact hold
    · exact absurd hreceiver hother

theorem other_settle {k : Nat} {a : Arrival} (hget : s.arrivals[k]? = some a)
    (hother : a.receiver ≠ i) (outcome : Outcome) :
    Takes text assoc (s.settle k outcome) i point := by
  refine h.unchanged (fun {m b} hb hreceiver => ?_) fun hb hreceiver => ?_
  · have hne : k ≠ m := by
      rintro rfl
      rw [hget] at hb
      exact hother (Option.some.inj hb ▸ hreceiver)
    simpa [PacketState.settle, List.getElem?_modify, hne] using hb
  · rcases getElem?_settle hb with ⟨-, hold⟩ | ⟨-, old, hold, rfl⟩
    · exact hold
    · rw [hget] at hold
      exact absurd (Option.some.inj hold ▸ hreceiver) hother

end Takes

theorem Taken.settle {n : Nat} (h : Taken s n) (k : Nat) (outcome : Outcome) :
    Taken (s.settle k outcome) n :=
  forall_settle h fun a hget => h k a hget

theorem Taken.take {n : Nat} (h : Taken s n) {a : Arrival} (hreceiver : a.receiver < n) :
    Taken (s.take a) n :=
  forall_take h hreceiver

theorem takes_keeps (text : AddressText) (assoc : Association) :
    (packetMachine text assoc).Keeps (fun _ _ _ _ => True) Taken (Takes text assoc) where
  start := by
    intro s n c h
    have hnone : ∀ {k : Nat} {a : Arrival}, s.arrivals[k]? = some a → a.receiver ≠ n :=
      fun hget heq => absurd (h _ _ hget) (heq ▸ Nat.lt_irrefl _)
    refine ⟨fun k a hget => Nat.lt_succ_of_lt (h k a hget), ?_, ?_, ?_, ?_⟩
    · intro k target payload heq
      cases c <;> cases heq
    · exact fun hget hreceiver => absurd hreceiver (hnone hget)
    · exact fun hget hreceiver => absurd hreceiver (hnone hget)
    · intro payload target heq
      cases c <;> cases heq
  exec := by
    intro s n i point input s' point' calls h hi hpoint _ hexec
    cases packetMachine_step hexec with
    | skip malformed =>
        exact ⟨h.take hi, hpoint.take trivial _ _ (fun heq => by cases heq)
          (fun heq => by cases heq) (fun _ _ heq => by cases heq) fun _ _ heq => by cases heq⟩
    | take decoded =>
        refine ⟨h.take hi, hpoint.take trivial _ _ ?_ (fun _ => ⟨_, _, rfl⟩)
          (fun _ _ heq => by cases heq) fun _ _ heq => by cases heq⟩
        intro k target payload heq
        cases heq
        exact ⟨rfl, rfl, decoded⟩
    | refuse k target payload closed =>
        exact ⟨h.settle _ _, hpoint.settle rfl (by decide) (fun _ _ _ heq => by cases heq)
          fun _ _ => iff_of_false (by simp) (by simp)⟩
    | drop k payload bound other =>
        exact ⟨h.settle _ _, hpoint.settle rfl (by decide) (fun _ _ _ heq => by cases heq)
          fun _ _ => iff_of_false (by simp) (by simp)⟩
    | deliver k payload same =>
        exact ⟨h.settle _ _, hpoint.settle rfl (fun heq => by cases heq)
          (fun _ _ _ heq => by cases heq) fun _ _ => by simp⟩
    | _ => exact ⟨h, hpoint.quiet rfl trivial trivial⟩
  other := by
    intro s n i point input s' point' calls j other h hi hpoint _ hexec hj hother
    -- the datagram that is settled belongs to the call that settles it
    have hsettle {k : Nat} {target payload : Bytes} (outcome : Outcome)
        (hcompare : point = .compare k target payload) :
        Takes text assoc (s.settle k outcome) j other := by
      obtain ⟨a, hget, hreceiver, -⟩ := hpoint.compare hcompare
      exact hother.other_settle hget (hreceiver ▸ hj.symm) outcome
    cases packetMachine_step hexec with
    | skip malformed => exact hother.other_take hj.symm
    | take decoded => exact hother.other_take hj.symm
    | refuse k target payload closed => exact hsettle _ rfl
    | drop k payload bound other => exact hsettle _ rfl
    | deliver k payload same => exact hsettle _ rfl
    | _ => exact hother.unchanged (fun hget _ => hget) fun hget _ => hget

/-- The datagram of an entry, with the number of the call that took it. -/
def Arrival.datagram (a : Arrival) : Nat × Bytes × Bytes := (a.receiver, a.raw, a.source)

theorem datagrams_settle (s : PacketState) (k : Nat) (outcome : Outcome) :
    (s.settle k outcome).arrivals.map Arrival.datagram = s.arrivals.map Arrival.datagram := by
  refine List.ext_getElem? fun j => ?_
  simp only [PacketState.settle, List.getElem?_map, List.getElem?_modify]
  split_ifs <;> cases s.arrivals[j]? <;> rfl

/-- A move adds the datagram that it gives to a receive. -/
theorem datagrams_step (state : Threads PacketState PacketPoint)
    (move : Move PacketCall PacketInput) :
    ((packetMachine text assoc).step state move).shared.arrivals.map Arrival.datagram =
      state.shared.arrivals.map Arrival.datagram ++ (takenBy state move).toList := by
  cases move with
  | call c => exact (List.append_nil _).symm
  | run i input =>
      cases hthread : state.threads[i]? with
      | none =>
          have hnone : takenBy state (.run i input) = none := by
            cases input <;> simp [takenBy, hthread]
          simp [Machine.step, hthread, hnone]
      | some point =>
          by_cases hreceive : point = .receive
          · subst hreceive
            cases input with
            | ok => simp [Machine.step, hthread, packetMachine, packetExec, takenBy]
            | failed => simp [Machine.step, hthread, packetMachine, packetExec, takenBy]
            | datagram raw source =>
                simp only [Machine.step, hthread, packetMachine, packetExec, takenBy, if_true]
                cases assoc.decode text source raw <;>
                  simp [PacketState.take, Arrival.datagram]
          · -- no other point takes a datagram
            have hnone : takenBy state (.run i input) = none := by
              cases input <;> simp [takenBy, hthread, hreceive]
            rw [hnone, Option.toList_none, List.append_nil]
            rcases (packetMachine text assoc).step_run_cases state i input with
              hsame | ⟨t, s', t', calls, ht, hexec, hstep⟩
            · rw [hsame]
            · rw [hthread] at ht
              cases ht
              rw [hstep]
              cases packetMachine_step hexec with
              | skip | take => exact absurd rfl hreceive
              | refuse | drop | deliver => exact datagrams_settle _ _ _
              | _ => rfl

theorem datagrams_run (state : Threads PacketState PacketPoint)
    (moves : List (Move PacketCall PacketInput)) :
    (moves.foldl (packetMachine text assoc).step state).shared.arrivals.map Arrival.datagram =
      state.shared.arrivals.map Arrival.datagram ++ incoming text assoc state moves := by
  induction moves generalizing state with
  | nil => exact (List.append_nil _).symm
  | cons move rest ih =>
      rw [List.foldl_cons, ih, datagrams_step, incoming, List.append_assoc]

/-! ## What is delivered -/

/-- The payload of a reply from the relay for the target, with zero reserved and fragment
bytes. -/
def Association.accepted (text : AddressText) (assoc : Association) (target : Bytes)
    (a : Arrival) : Option Bytes :=
  if a.source ≠ assoc.relay then none
  else
    match a.raw with
    | r₀ :: r₁ :: frag :: typ :: body =>
        if r₀ = 0 ∧ r₁ = 0 ∧ frag = 0 then
          match readAddress text typ body with
          | .ok (decoded, payload) => if decoded = target then some payload else none
          | .error _ => none
        else none
    | _ => none

def Arrival.deliveredPayload (a : Arrival) : Option Bytes :=
  match a.outcome with
  | .delivered payload _ => some payload
  | _ => none

theorem accepted_eq_decode (hrelay : numeric text assoc.relay = true) (target : Bytes)
    (a : Arrival) : assoc.accepted text target a =
      (assoc.decode text a.source a.raw).bind fun (decoded, payload) =>
        if decoded = target then some payload else none := by
  obtain ⟨raw, source, receiver, outcome⟩ := a
  simp only [Association.accepted, Association.decode, hrelay, true_and]
  by_cases hsource : source = assoc.relay
  · simp only [hsource, ne_eq, not_true_eq_false, if_false]
    rcases raw with _ | ⟨r₀, _ | ⟨r₁, _ | ⟨frag, _ | ⟨typ, body⟩⟩⟩⟩
    case cons.cons.cons.cons =>
      have hlong : ¬ (r₀ :: r₁ :: frag :: typ :: body).length < 4 := by simp
      by_cases hzero : r₀ = 0 ∧ r₁ = 0 ∧ frag = 0
      · obtain ⟨rfl, rfl, rfl⟩ := hzero
        have hgood : ¬ ((0 :: 0 :: 0 :: typ :: body : Bytes).length < 4 ∨
            (0 :: 0 :: 0 :: typ :: body : Bytes).take 3 ≠ [0, 0, 0]) := by simp
        simp only [and_self, if_true, if_neg hgood, List.getD_cons_succ, List.getD_cons_zero,
          List.drop_succ_cons, List.drop_zero]
        cases readAddress text typ body <;> rfl
      · have hbad : (r₀ :: r₁ :: frag :: typ :: body).length < 4 ∨
            (r₀ :: r₁ :: frag :: typ :: body).take 3 ≠ [0, 0, 0] :=
          Or.inr fun heq => hzero (by simpa using heq)
        simp only [if_neg hzero]
        rw [if_pos hbad]
        rfl
    all_goals rfl
  · simp only [hsource, ne_eq, not_false_eq_true, if_true]
    rfl

/-- What became of the datagram is right for the target. -/
def Judged (text : AddressText) (assoc : Association) (target : Bytes) (closed : Bool)
    (a : Arrival) : Prop :=
  match a.outcome with
  | .pending => True
  | .skipped => assoc.accepted text target a = none
  | .delivered payload decoded => decoded = target ∧ assoc.accepted text target a = some payload
  | .refused => closed = true

/-- The session is bound to the target, and everything taken from the given place on was
judged by it. -/
structure Filtered (text : AddressText) (assoc : Association) (target : Bytes) (base : Nat)
    (s : PacketState) (_ : Nat) : Prop where
  bound : s.target = target
  judged : ∀ (k : Nat) (a : Arrival), base ≤ k → s.arrivals[k]? = some a →
    Judged text assoc target s.closed a

theorem Judged.mono {target : Bytes} {closed closed' : Bool} {a : Arrival}
    (h : Judged text assoc target closed a) (hclosed : closed = true → closed' = true) :
    Judged text assoc target closed' a := by
  unfold Judged at h ⊢
  split at h
  · trivial
  · exact h
  · exact h
  · exact hclosed h

theorem filtered_keeps {target : Bytes} (hrelay : numeric text assoc.relay = true)
    (hnumeric : numeric text target = true) (hbound : target ≠ []) (base : Nat) :
    (packetMachine text assoc).Keeps (fun _ _ _ _ => True)
      (fun s n => Taken s n ∧ Filtered text assoc target base s n)
      (fun s i point => Takes text assoc s i point ∧ True) := by
  refine (takes_keeps text assoc).extend (fun _ _ h => ⟨⟨h.bound, h.judged⟩, trivial⟩) ?_
    fun _ _ _ _ _ _ _ => trivial
  rintro s n i point input s' point' calls ⟨-, h⟩ hi ⟨htakes, -⟩ - hexec
  have hstep := packetMachine_step hexec
  have htarget : s'.target = target :=
    (hstep.target_eq (h.bound.symm ▸ hbound)).trans h.bound
  refine ⟨⟨htarget, ?_⟩, trivial⟩
  have hjudged : ∀ (k : Nat) (a : Arrival), s.arrivals[k]? = some a → base ≤ k →
      Judged text assoc target s.closed a := fun k a hget hk => h.judged k a hk hget
  have hsettle {k : Nat} {outcome : Outcome}
      (hnew : ∀ a, s.arrivals[k]? = some a →
        Judged text assoc target s.closed { a with outcome := outcome }) :
      ∀ (j : Nat) (a : Arrival), base ≤ j → (s.settle k outcome).arrivals[j]? = some a →
        Judged text assoc target s.closed a := fun j a hj hget =>
    forall_settle hjudged (fun a hget _ => hnew a hget) j a hget hj
  -- the accepted payload of what a call compares
  have haccepted {k : Nat} {decoded payload : Bytes}
      (hpoint : point = .compare k decoded payload) {a : Arrival}
      (hget : s.arrivals[k]? = some a) (outcome : Outcome) :
      assoc.accepted text target { a with outcome := outcome } =
        if decoded = target then some payload else none := by
    obtain ⟨a', hget', -, -, hdecode⟩ := htakes.compare hpoint
    rw [hget] at hget'
    cases hget'
    rw [accepted_eq_decode hrelay]
    simp only [hdecode, Option.bind_some]
  cases hstep with
  | skip malformed =>
      refine fun k a hk hget => forall_take hjudged (fun _ => ?_) k a hget hk
      change assoc.accepted text target _ = none
      rw [accepted_eq_decode hrelay]
      simp only [malformed, Option.bind_none]
  | take decoded =>
      refine fun k a hk hget => forall_take hjudged (fun _ => ?_) k a hget hk
      exact trivial
  | refuse k decoded payload closed => exact hsettle fun a hget => closed
  | drop k payload bound other =>
      refine hsettle fun a hget => (haccepted rfl hget .skipped).trans (if_neg ?_)
      rw [← h.bound]
      exact other
  | deliver k payload same =>
      rw [h.bound] at same
      refine hsettle fun a hget => ⟨same hnumeric, ?_⟩
      exact (haccepted rfl hget _).trans (if_pos (same hnumeric))
  | setClosed => exact fun k a hk hget => (h.judged k a hk hget).mono fun _ => rfl
  | _ => exact h.judged

theorem runPackets_append (text : AddressText) (assoc : Association)
    (past later : List (Move PacketCall PacketInput)) :
    runPackets text assoc (past ++ later) =
      later.foldl (packetMachine text assoc).step (runPackets text assoc past) :=
  List.foldl_append

theorem pinned_run (text : AddressText) (assoc : Association)
    (moves : List (Move PacketCall PacketInput)) :
    Invariant (Pinned text assoc) (PinnedPoint text assoc) (runPackets text assoc moves) := by
  refine (pinned_keeps text assoc).run_all ⟨⟨?_, ?_⟩, ?_⟩ moves
  · simp [PacketState.new]
  · simp [PacketState.new]
  · simp

theorem takes_run (text : AddressText) (assoc : Association)
    (moves : List (Move PacketCall PacketInput)) :
    Invariant Taken (Takes text assoc) (runPackets text assoc moves) := by
  refine (takes_keeps text assoc).run_all ⟨?_, ?_⟩ moves
  · simp [Taken, PacketState.new]
  · simp

/-- The call that took a datagram, with what it did. -/
theorem exists_receiver {moves : List (Move PacketCall PacketInput)} {k : Nat} {a : Arrival}
    (hget : (runPackets text assoc moves).shared.arrivals[k]? = some a) :
    ∃ point, (runPackets text assoc moves).threads[a.receiver]? = some point ∧
      Takes text assoc (runPackets text assoc moves).shared a.receiver point := by
  have htakes := takes_run text assoc moves
  have hthread := List.getElem?_eq_getElem (htakes.shared k a hget)
  exact ⟨_, hthread, htakes.threads _ _ hthread⟩

/-- A send that starts when the session is closed hands nothing over. -/
theorem silent_run {past : List (Move PacketCall PacketInput)}
    (hclosed : (runPackets text assoc past).shared.closed = true) (payload target : Bytes)
    (later : List (Move PacketCall PacketInput)) :
    ∀ d ∈ (runPackets text assoc (past ++ .call (.send payload target) :: later)).shared.sent,
      d.sender ≠ (runPackets text assoc past).threads.length := by
  have hpinned := (pinned_run text assoc past).shared
  let start := (packetMachine text assoc).step (runPackets text assoc past)
    (.call (.send payload target))
  have hthreads : start.threads =
      (runPackets text assoc past).threads ++ [.lock payload target] := rfl
  have hstart : Invariant (Silent (runPackets text assoc past).threads.length)
      (SilentPoint (runPackets text assoc past).threads.length) start := by
    refine ⟨⟨hclosed, by simp [hthreads], fun d hd => (hpinned.sent d hd).1.ne⟩, ?_⟩
    rintro i t ht rfl raw rfl
    rw [hthreads, List.getElem?_concat_length] at ht
    cases ht
  rw [runPackets_append, List.foldl_cons]
  exact ((silent_keeps text assoc _).run_all hstart later).shared.sent

/-- What a bound session has judged since. -/
theorem filtered_run {target : Bytes} (hrelay : numeric text assoc.relay = true)
    (hnumeric : numeric text target = true) (hne : target ≠ [])
    {past : List (Move PacketCall PacketInput)}
    (hbound : (runPackets text assoc past).shared.target = target)
    (later : List (Move PacketCall PacketInput)) :
    Filtered text assoc target (runPackets text assoc past).shared.arrivals.length
      (runPackets text assoc (past ++ later)).shared 0 := by
  have hpast := takes_run text assoc past
  have hnone : ∀ (k : Nat) (a : Arrival), (runPackets text assoc past).shared.arrivals.length ≤ k →
      (runPackets text assoc past).shared.arrivals[k]? = some a →
      Judged text assoc target (runPackets text assoc past).shared.closed a := fun k a hk hget =>
    absurd (List.getElem?_eq_some_iff.mp hget).1 (Nat.not_lt.mpr hk)
  have hrun := (filtered_keeps hrelay hnumeric hne
    (runPackets text assoc past).shared.arrivals.length).run_all
    ⟨⟨hpast.shared, hbound, hnone⟩, fun i t ht => ⟨hpast.threads i t ht, trivial⟩⟩ later
  rw [runPackets_append]
  exact ⟨hrun.shared.2.bound, hrun.shared.2.judged⟩

/-- What was judged and not refused is delivered exactly when it is accepted. -/
theorem Judged.deliveredPayload {target : Bytes} {a : Arrival}
    (h : Judged text assoc target false a) :
    a.deliveredPayload = if a.outcome = .pending then none else assoc.accepted text target a := by
  unfold Judged at h
  unfold Arrival.deliveredPayload
  split at h <;> rename_i hout <;> rw [hout]
  · rfl
  · simp [h]
  · simp [h.2]
  · cases h

theorem filterMap_delivered {target : Bytes} {arrivals : List Arrival}
    (h : ∀ a ∈ arrivals, Judged text assoc target false a) :
    arrivals.filterMap Arrival.deliveredPayload =
      (arrivals.filter (·.outcome ≠ .pending)).filterMap (assoc.accepted text target) := by
  induction arrivals with
  | nil => rfl
  | cons a rest ih =>
      obtain ⟨ha, hrest⟩ := List.forall_mem_cons.mp h
      have hone := ha.deliveredPayload
      by_cases hpending : a.outcome = .pending
      · rw [if_pos hpending] at hone
        rw [List.filterMap_cons_none hone, List.filter_cons_of_neg (by simpa using hpending),
          ih hrest]
      · rw [if_neg hpending] at hone
        rw [List.filter_cons_of_pos (by simpa using hpending), List.filterMap_cons,
          List.filterMap_cons, hone, ih hrest]

end Runs

end Hy2Route.Landing
