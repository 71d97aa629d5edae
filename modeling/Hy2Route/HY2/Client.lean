import Hy2Route.Foundation.Strings
import Hy2Route.Foundation.Threads
import Mathlib.Algebra.Order.BigOperators.Group.List
import Mathlib.Algebra.Order.Ring.Int
import Mathlib.Data.List.Nodup
import Mathlib.Tactic.Abel

/-!
# The HY2 client

A dial takes a slot of the semaphore, lets a worker call the core, and waits for
the worker's result or for the end of its context. In the second case a cleaner
waits in its place, closes what the core may still return, and frees the slot.

## Implementation notes

The goroutines of one dial are one thread. The worker runs beside the caller or
the cleaner, whichever waits for the result, and the input of a step says which of
them moves. The core is a parameter: its calls run in steps on a state of their own.
What was acquired, released, handed to a caller and closed is kept as a history.
-/

namespace Hy2Route.HY2

open Foundation

inductive Stage where
  /-- `hy2.connected` -/
  | connected
  /-- `hy2.tcp` -/
  | tcp
  /-- `hy2.udp` -/
  | udp
  /-- any other stage -/
  | other
  deriving DecidableEq

structure Event where
  stage : Stage
  reason : Bytes
  sequence : Nat
  deriving DecidableEq

/-- An error, with the core's own errors that `errors.As` finds in it. -/
structure CoreError where
  text : Bytes
  dial : Bool
  closed : Bool
  deriving DecidableEq

def isTransportFailure (err : CoreError) : Bool := !err.dial

/-- What a call of the core returns; `conn` says whether there is a connection. -/
structure CoreResult where
  conn : Bool
  sequence : Nat
  err : Option CoreError
  deriving DecidableEq

inductive CoreCall where
  | tcp
  | udp
  | close
  deriving DecidableEq

inductive CoreStep (π : Type) where
  | next (point : π)
  | returned (result : CoreResult)
  deriving DecidableEq

/-- A core whose calls run in steps; a step may emit an event. -/
structure CoreClient (σ π ε : Type) where
  start : CoreCall → π
  exec : σ → Nat → π → ε → Option (σ × Option Event × CoreStep π)

/-- A result with the number of its connection. -/
structure Result where
  conn : Option Nat
  sequence : Nat
  err : Option CoreError
  deriving DecidableEq

inductive Operation where
  | dial
  | openPacket
  deriving DecidableEq

def Operation.call : Operation → CoreCall
  | .dial => .tcp
  | .openPacket => .udp

def Operation.stage : Operation → Stage
  | .dial => .tcp
  | .openPacket => .udp

/-- The failure that a caller reports. -/
def Operation.failure (op : Operation) (r : Result) : Option Event :=
  match r.err with
  | none => none
  | some err => if isTransportFailure err then some ⟨op.stage, err.text, r.sequence⟩ else none

/-- The client, with the dials that acquired and released a slot, how many
connections the core has returned, and which of them were handed over and closed. -/
structure Client (σ : Type) where
  core : σ
  sem : Nat
  events : List Event
  acquired : List Nat
  released : List Nat
  opened : Nat
  handed : List Nat
  closed : List Nat
  deriving DecidableEq

/-- The configured number of concurrent dials. -/
def newCapacity (maxConcurrentDials : Int) : Nat :=
  if maxConcurrentDials < 1 then 32 else maxConcurrentDials.toNat

def newClient {σ : Type} (core : σ) : Client σ := ⟨core, 0, [], [], [], 0, [], []⟩

/-- Who receives the worker's result. -/
inductive Waiter where
  | caller
  | cleaner
  deriving DecidableEq

/-- The worker and its channel: `sent` is the result in the buffer. -/
inductive WorkerPoint (π : Type) where
  | calling (point : π)
  | sending (r : Result)
  | sent (r : Result)
  deriving DecidableEq

inductive DialPoint (π : Type) where
  | acquiring
  | refused
  | waiting (waiter : Waiter) (worker : WorkerPoint π)
  | releasing (r : Result)
  | reporting (r : Result)
  | returned (r : Result)
  | closing (r : Result)
  | freeing
  | cleaned
  deriving DecidableEq

/-- Which goroutine moves: the caller with what its `select` finds, the worker inside
the core or at its channel, or the cleaner. -/
inductive Input (ε : Type) where
  | caller (canceled : Bool)
  | core (answer : ε)
  | send
  | cleaner
  deriving DecidableEq

inductive Thread (π : Type) where
  | dial (op : Operation) (point : DialPoint π)
  | close (point : Option π)
  deriving DecidableEq

inductive Call where
  | dial (op : Operation)
  | close
  deriving DecidableEq

namespace Client

variable {σ π ε : Type}

/-- `client.sem <- struct{}{}` -/
def acquire (client : Client σ) (i : Nat) : Client σ :=
  { client with sem := client.sem + 1, acquired := client.acquired ++ [i] }

/-- `<-client.sem` -/
def release (client : Client σ) (i : Nat) : Client σ :=
  { client with sem := client.sem - 1, released := client.released ++ [i] }

/-- The core after a step, with the event the step emits. -/
def stepCore (client : Client σ) (core : σ) (event : Option Event) : Client σ :=
  { client with core := core, events := client.events ++ event.toList }

/-- The connection of a result gets the next number. -/
def number (client : Client σ) (result : CoreResult) : Result :=
  ⟨if result.conn then some client.opened else none, result.sequence, result.err⟩

def complete (client : Client σ) (result : CoreResult) : Client σ :=
  { client with opened := if result.conn then client.opened + 1 else client.opened }

/-- Report a failure and return to the caller. -/
def handOver (client : Client σ) (op : Operation) (r : Result) : Client σ :=
  { client with
    events := client.events ++ (op.failure r).toList
    handed := client.handed ++ r.conn.toList }

def closeConn (client : Client σ) (r : Result) : Client σ :=
  { client with closed := client.closed ++ r.conn.toList }

variable (core : CoreClient σ π ε) (capacity : Nat) (i : Nat) (op : Operation)

def caller (client : Client σ) (canceled : Bool) : DialPoint π → Option (Client σ × DialPoint π)
  | .acquiring =>
      if canceled then some (client, .refused)
      else if client.sem < capacity then
        some (client.acquire i, .waiting .caller (.calling (core.start op.call)))
      else none
  | .waiting .caller worker =>
      if canceled then some (client, .waiting .cleaner worker)
      else
        match worker with
        | .sent r => some (client, .releasing r)
        | _ => none
  | .releasing r => if client.sem = 0 then none else some (client.release i, .reporting r)
  | .reporting r => some (client.handOver op r, .returned r)
  | _ => none

/-- A step of a core call: the client, and what the call has come to. -/
def callCore (client : Client σ) (point : π) (answer : ε) : Option (Client σ × CoreStep π) :=
  match core.exec client.core i point answer with
  | none => none
  | some (core, event, step) => some (client.stepCore core event, step)

def worker (client : Client σ) (answer : ε) : DialPoint π → Option (Client σ × DialPoint π)
  | .waiting waiter (.calling point) =>
      match client.callCore core i point answer with
      | none => none
      | some (client, .next point) => some (client, .waiting waiter (.calling point))
      | some (client, .returned result) =>
          some (client.complete result, .waiting waiter (.sending (client.number result)))
  | _ => none

def cleaner (client : Client σ) : DialPoint π → Option (Client σ × DialPoint π)
  | .waiting .cleaner (.sent r) => some (client, .closing r)
  | .closing r => some (client.closeConn r, .freeing)
  | .freeing => if client.sem = 0 then none else some (client.release i, .cleaned)
  | _ => none

/-- `resultCh <- result` -/
def send (client : Client σ) : DialPoint π → Option (Client σ × DialPoint π)
  | .waiting waiter (.sending r) => some (client, .waiting waiter (.sent r))
  | _ => none

/-- A step of `Dial` or `OpenPacket`. -/
def dial (client : Client σ) (point : DialPoint π) : Input ε → Option (Client σ × DialPoint π)
  | .caller canceled => client.caller core capacity i op canceled point
  | .core answer => client.worker core i answer point
  | .send => client.send point
  | .cleaner => client.cleaner i point

def close (client : Client σ) : Option π → Input ε → Option (Client σ × Option π)
  | some point, .core answer =>
      match client.callCore core i point answer with
      | none => none
      | some (client, .next point) => some (client, some point)
      | some (client, .returned _) => some (client, none)
  | _, _ => none

end Client

/-- The client as a machine of its calls. -/
def clientMachine {σ π ε : Type} (core : CoreClient σ π ε) (capacity : Nat) :
    Machine (Client σ) (Thread π) Call (Input ε) where
  start
    | .dial op => .dial op .acquiring
    | .close => .close (some (core.start .close))
  exec client i thread input :=
    match thread with
    | .dial op point =>
        (client.dial core capacity i op point input).map fun (client, point) =>
          (client, .dial op point, [])
    | .close point =>
        (client.close core i point input).map fun (client, point) => (client, .close point, [])

/-! ## Steps -/

section Steps

variable {σ π ε : Type} (core : CoreClient σ π ε) (capacity : Nat) (i : Nat) (client : Client σ)

/-- The steps of the calls. -/
inductive ClientStep : Thread π → Client σ → Thread π → Prop where
  | refused (op : Operation) :
      ClientStep (.dial op .acquiring) client (.dial op .refused)
  | acquired (op : Operation) (room : client.sem < capacity) :
      ClientStep (.dial op .acquiring) (client.acquire i)
        (.dial op (.waiting .caller (.calling (core.start op.call))))
  | canceled (op : Operation) (worker : WorkerPoint π) :
      ClientStep (.dial op (.waiting .caller worker)) client
        (.dial op (.waiting .cleaner worker))
  | received (op : Operation) (r : Result) :
      ClientStep (.dial op (.waiting .caller (.sent r))) client (.dial op (.releasing r))
  | released (op : Operation) (r : Result) (held : client.sem ≠ 0) :
      ClientStep (.dial op (.releasing r)) (client.release i) (.dial op (.reporting r))
  | reported (op : Operation) (r : Result) :
      ClientStep (.dial op (.reporting r)) (client.handOver op r) (.dial op (.returned r))
  | worked (op : Operation) (waiter : Waiter) {point point' : π} {answer : ε} {core' : σ}
      {event : Option Event}
      (step : core.exec client.core i point answer = some (core', event, .next point')) :
      ClientStep (.dial op (.waiting waiter (.calling point))) (client.stepCore core' event)
        (.dial op (.waiting waiter (.calling point')))
  | completed (op : Operation) (waiter : Waiter) {point : π} {answer : ε} {core' : σ}
      {event : Option Event} {result : CoreResult}
      (step : core.exec client.core i point answer = some (core', event, .returned result)) :
      ClientStep (.dial op (.waiting waiter (.calling point)))
        ((client.stepCore core' event).complete result)
        (.dial op (.waiting waiter (.sending (client.number result))))
  | sent (op : Operation) (waiter : Waiter) (r : Result) :
      ClientStep (.dial op (.waiting waiter (.sending r))) client
        (.dial op (.waiting waiter (.sent r)))
  | taken (op : Operation) (r : Result) :
      ClientStep (.dial op (.waiting .cleaner (.sent r))) client (.dial op (.closing r))
  | closed (op : Operation) (r : Result) :
      ClientStep (.dial op (.closing r)) (client.closeConn r) (.dial op .freeing)
  | freed (op : Operation) (held : client.sem ≠ 0) :
      ClientStep (.dial op .freeing) (client.release i) (.dial op .cleaned)
  | closeWorked {point point' : π} {answer : ε} {core' : σ} {event : Option Event}
      (step : core.exec client.core i point answer = some (core', event, .next point')) :
      ClientStep (.close (some point)) (client.stepCore core' event) (.close (some point'))
  | closeCompleted {point : π} {answer : ε} {core' : σ} {event : Option Event}
      {result : CoreResult}
      (step : core.exec client.core i point answer = some (core', event, .returned result)) :
      ClientStep (.close (some point)) (client.stepCore core' event) (.close none)

variable {core capacity i client}

theorem Client.callCore_eq_some {point : π} {answer : ε} {after : Client σ} {step : CoreStep π}
    (h : client.callCore core i point answer = some (after, step)) :
    ∃ core' event, core.exec client.core i point answer = some (core', event, step) ∧
      after = client.stepCore core' event := by
  unfold Client.callCore at h
  cases hexec : core.exec client.core i point answer with
  | none =>
      rw [hexec] at h
      cases h
  | some result =>
      obtain ⟨core', event, step'⟩ := result
      rw [hexec] at h
      cases h
      exact ⟨core', event, rfl, rfl⟩

theorem caller_step {op : Operation} {point point' : DialPoint π} {canceled : Bool}
    {after : Client σ}
    (h : client.caller core capacity i op canceled point = some (after, point')) :
    ClientStep core capacity i client (.dial op point) after (.dial op point') := by
  cases point with
  | acquiring =>
      simp only [Client.caller] at h
      split_ifs at h with hcanceled hroom <;> cases h
      · exact .refused op
      · exact .acquired op hroom
  | waiting waiter worker =>
      cases waiter with
      | cleaner => cases h
      | caller =>
          simp only [Client.caller] at h
          split_ifs at h
          · cases h
            exact .canceled op worker
          · cases worker with
            | calling point => cases h
            | sending r => cases h
            | sent r =>
                cases h
                exact .received op r
  | releasing r =>
      simp only [Client.caller] at h
      split_ifs at h with hheld
      cases h
      exact .released op r hheld
  | reporting r =>
      cases h
      exact .reported op r
  | refused => cases h
  | returned r => cases h
  | closing r => cases h
  | freeing => cases h
  | cleaned => cases h

theorem worker_step {op : Operation} {point point' : DialPoint π} {answer : ε}
    {after : Client σ} (h : client.worker core i answer point = some (after, point')) :
    ClientStep core capacity i client (.dial op point) after (.dial op point') := by
  unfold Client.worker at h
  split at h
  · split at h
    · cases h
    · rename_i hcall
      obtain ⟨core', event, hexec, rfl⟩ := Client.callCore_eq_some hcall
      cases h
      exact .worked op _ hexec
    · rename_i hcall
      obtain ⟨core', event, hexec, rfl⟩ := Client.callCore_eq_some hcall
      cases h
      exact .completed op _ hexec
  · cases h

theorem dial_step {op : Operation} {point : DialPoint π} {input : Input ε} {after : Client σ}
    {point' : DialPoint π} (h : client.dial core capacity i op point input = some (after, point')) :
    ClientStep core capacity i client (.dial op point) after (.dial op point') := by
  cases input with
  | caller canceled => exact caller_step h
  | core answer => exact worker_step h
  | send =>
      simp only [Client.dial] at h
      unfold Client.send at h
      split at h
      · cases h
        exact .sent op _ _
      · cases h
  | cleaner =>
      simp only [Client.dial] at h
      unfold Client.cleaner at h
      split at h
      · cases h
        exact .taken op _
      · cases h
        exact .closed op _
      · split_ifs at h with hheld
        cases h
        exact .freed op hheld
      · cases h

/-- Every step of the machine is one of the steps. -/
theorem exec_step {thread thread' : Thread π} {input : Input ε} {after : Client σ}
    {calls : List Call}
    (h : (clientMachine core capacity).exec client i thread input = some (after, thread', calls)) :
    ClientStep core capacity i client thread after thread' := by
  cases thread with
  | dial op point =>
      obtain ⟨⟨after, point'⟩, hdial, heq⟩ := Option.map_eq_some_iff.mp h
      cases heq
      exact dial_step hdial
  | close point =>
      obtain ⟨⟨after, point'⟩, hclose, heq⟩ := Option.map_eq_some_iff.mp h
      cases heq
      unfold Client.close at hclose
      split at hclose
      · split at hclose
        · cases hclose
        · rename_i hcall
          obtain ⟨core', event, hexec, rfl⟩ := Client.callCore_eq_some hcall
          cases hclose
          exact .closeWorked hexec
        · rename_i hcall
          obtain ⟨core', event, hexec, rfl⟩ := Client.callCore_eq_some hcall
          cases hclose
          exact .closeCompleted hexec
      · cases hclose

end Steps

/-! ## Slots and connections -/

namespace Thread

variable {π : Type}

/-- The slots that a thread holds. -/
def slots : Thread π → Int
  | .dial _ (.waiting _ _) => 1
  | .dial _ (.releasing _) => 1
  | .dial _ (.closing _) => 1
  | .dial _ .freeing => 1
  | _ => 0

/-- The thread is inside a call of the core for a dial. -/
def inCore : Thread π → Bool
  | .dial _ (.waiting _ (.calling _)) => true
  | _ => false

/-- The result that a thread carries from the core to its end. -/
def carried : Thread π → Option Result
  | .dial _ (.waiting _ (.sending r)) => some r
  | .dial _ (.waiting _ (.sent r)) => some r
  | .dial _ (.releasing r) => some r
  | .dial _ (.reporting r) => some r
  | .dial _ (.closing r) => some r
  | _ => none

/-- How often a thread carries a connection. -/
def carries (conn : Nat) (t : Thread π) : Int := (t.carried.bind (·.conn)).toList.count conn

/-- How often a thread has acquired a slot. -/
def acquires : Thread π → Nat
  | .close _ => 0
  | .dial _ .acquiring => 0
  | .dial _ .refused => 0
  | _ => 1

/-- How often a thread has released its slot. -/
def releases : Thread π → Nat
  | .dial _ (.reporting _) => 1
  | .dial _ (.returned _) => 1
  | .dial _ .cleaned => 1
  | _ => 0

/-- The thread has not entered the core, or has come to its end. -/
def settled : Thread π → Bool
  | .dial _ .acquiring => true
  | .dial _ .refused => true
  | .dial _ (.returned _) => true
  | .dial _ .cleaned => true
  | .close _ => true
  | _ => false

end Thread

section Conservation

variable {σ π ε : Type} (core : CoreClient σ π ε) (capacity : Nat)

theorem conserves_slots :
    (clientMachine core capacity).Conserves (fun client => (client.sem : Int)) Thread.slots where
  start c := by cases c <;> rfl
  exec h := by
    cases exec_step h with
    | acquired op room => simp [Client.acquire, Thread.slots]
    | released op r held =>
        simp only [Client.release, Thread.slots]
        omega
    | freed op held =>
        simp only [Client.release, Thread.slots]
        omega
    | _ => rfl

/-- Returned by the core, and neither handed over nor closed. -/
def Client.unsettled (conn : Nat) (client : Client σ) : Int :=
  (List.range client.opened).count conn - client.handed.count conn - client.closed.count conn

theorem conserves_conns (conn : Nat) :
    (clientMachine core capacity).Conserves (Client.unsettled conn) (Thread.carries conn) where
  start c := by cases c <;> rfl
  exec h := by
    cases exec_step h with
    | canceled op worker => cases worker <;> rfl
    | @completed op waiter point answer core' event result step =>
        cases hconn : result.conn with
        | false => simp [Client.unsettled, Client.complete, Client.stepCore, Client.number,
            Thread.carries, Thread.carried, hconn]
        | true =>
            simp only [Client.unsettled, Client.complete, Client.stepCore, Client.number,
              Thread.carries, Thread.carried, hconn, if_true, Option.bind_some, Option.bind_none,
              Option.toList_none, Option.toList_some, List.count_nil, List.range_succ,
              List.count_append, Nat.cast_add]
            abel
    | reported op r =>
        simp only [Client.unsettled, Client.handOver, Thread.carries, Thread.carried,
          Option.bind_some, Option.bind_none, Option.toList_none, List.count_nil,
          List.count_append, Nat.cast_add]
        abel
    | closed op r =>
        simp only [Client.unsettled, Client.closeConn, Thread.carries, Thread.carried,
          Option.bind_some, Option.bind_none, Option.toList_none, List.count_nil,
          List.count_append, Nat.cast_add]
        abel
    | _ => rfl

/-- The history of the semaphore: each call appears as often as it has acquired and
released a slot. -/
theorem keeps_ledger :
    (clientMachine core capacity).Keeps (fun _ _ _ _ => True)
      (fun client n => client.sem ≤ capacity ∧ (∀ j ∈ client.acquired, j < n) ∧
        ∀ j ∈ client.released, j < n)
      (fun client i t => client.acquired.count i = t.acquires ∧
        client.released.count i = t.releases) where
  start := by
    intro client n c ⟨hsem, hacquired, hreleased⟩
    refine ⟨⟨hsem, fun j hj => Nat.lt_succ_of_lt (hacquired j hj),
      fun j hj => Nat.lt_succ_of_lt (hreleased j hj)⟩, ?_⟩
    have hfresh : client.acquired.count n = 0 ∧ client.released.count n = 0 := by
      rw [List.count_eq_zero, List.count_eq_zero]
      exact ⟨fun hn => Nat.lt_irrefl n (hacquired n hn),
        fun hn => Nat.lt_irrefl n (hreleased n hn)⟩
    cases c <;> exact hfresh
  exec := by
    intro client n i t input client' t' calls ⟨hsem, hacquired, hreleased⟩ hi ⟨hcount, hfreed⟩ _ h
    have happend : ∀ {js : List Nat}, (∀ j ∈ js, j < n) → ∀ j ∈ js ++ [i], j < n := by
      intro js hjs
      exact List.forall_mem_append.mpr ⟨hjs, List.forall_mem_singleton.mpr hi⟩
    cases exec_step h with
    | acquired op room =>
        refine ⟨⟨room, happend hacquired, hreleased⟩, ?_, hfreed⟩
        simp only [Client.acquire, List.count_append, hcount, Thread.acquires,
          List.count_singleton_self]
    | released op r held =>
        refine ⟨⟨Nat.le_trans (Nat.sub_le _ _) hsem, hacquired, happend hreleased⟩, hcount, ?_⟩
        simp only [Client.release, List.count_append, hfreed, Thread.releases,
          List.count_singleton_self]
    | freed op held =>
        refine ⟨⟨Nat.le_trans (Nat.sub_le _ _) hsem, hacquired, happend hreleased⟩, hcount, ?_⟩
        simp only [Client.release, List.count_append, hfreed, Thread.releases,
          List.count_singleton_self]
    | _ => exact ⟨⟨hsem, hacquired, hreleased⟩, hcount, hfreed⟩
  other := by
    intro client n i t input client' t' calls j u _ _ _ _ h hj hu
    cases exec_step h with
    | acquired op room => simpa [Client.acquire, List.count_singleton, Ne.symm hj] using hu
    | released op r held => simpa [Client.release, List.count_singleton, Ne.symm hj] using hu
    | freed op held => simpa [Client.release, List.count_singleton, Ne.symm hj] using hu
    | _ => exact hu

omit core capacity in
theorem slots_nonneg (t : Thread π) : 0 ≤ t.slots := by
  unfold Thread.slots
  split <;> decide

omit core capacity in
theorem inCore_le_slots (t : Thread π) : ((if t.inCore then 1 else 0 : Nat) : Int) ≤ t.slots := by
  unfold Thread.inCore
  split
  · exact Int.le_refl 1
  · exact slots_nonneg t

omit core capacity in
theorem countP_inCore_le (threads : List (Thread π)) :
    (threads.countP Thread.inCore : Int) ≤ (threads.map Thread.slots).sum := by
  induction threads with
  | nil => exact Int.le_refl 0
  | cons t rest ih =>
      rw [List.countP_cons, List.map_cons, List.sum_cons, Nat.cast_add, add_comm]
      exact add_le_add (inCore_le_slots t) ih

omit core capacity in
theorem slots_eq_zero {t : Thread π} (h : t.settled = true) : t.slots = 0 := by
  cases t with
  | dial op point => cases point <;> first | rfl | cases h
  | close point => rfl

omit core capacity in
theorem carries_eq_zero {t : Thread π} (h : t.settled = true) (conn : Nat) :
    t.carries conn = 0 := by
  cases t with
  | dial op point => cases point <;> first | rfl | cases h
  | close point => rfl

omit core capacity in
theorem releases_le_acquires (t : Thread π) :
    t.acquires ≤ 1 ∧ t.releases ≤ t.acquires ∧ (t.settled = true → t.releases = t.acquires) := by
  cases t with
  | dial op point =>
      cases point <;> simp [Thread.acquires, Thread.releases, Thread.settled]
  | close point => simp [Thread.acquires, Thread.releases]

/-- A dial that is past the core and not at its end can take a step. -/
theorem exists_step {client : Client σ} {i : Nat} {t : Thread π} (hslot : t.slots ≤ client.sem)
    (hsettled : t.settled = false) (hcore : t.inCore = false) :
    ∃ input, (clientMachine core capacity).exec client i t input ≠ none := by
  have hheld : 1 ≤ t.slots → client.sem ≠ 0 := by omega
  cases t with
  | close point => cases hsettled
  | dial op point =>
      cases point with
      | acquiring => cases hsettled
      | refused => cases hsettled
      | returned r => cases hsettled
      | cleaned => cases hsettled
      | waiting waiter worker =>
          cases worker with
          | calling point => cases hcore
          | sending r => exact ⟨.send, by simp [clientMachine, Client.dial, Client.send]⟩
          | sent r =>
              cases waiter with
              | caller =>
                  exact ⟨.caller false, by simp [clientMachine, Client.dial, Client.caller]⟩
              | cleaner => exact ⟨.cleaner, by simp [clientMachine, Client.dial, Client.cleaner]⟩
      | releasing r =>
          have hsem := hheld (Int.le_refl 1)
          exact ⟨.caller false, by simp [clientMachine, Client.dial, Client.caller, hsem]⟩
      | reporting r =>
          exact ⟨.caller false, by simp [clientMachine, Client.dial, Client.caller]⟩
      | closing r => exact ⟨.cleaner, by simp [clientMachine, Client.dial, Client.cleaner]⟩
      | freeing =>
          have hsem := hheld (Int.le_refl 1)
          exact ⟨.cleaner, by simp [clientMachine, Client.dial, Client.cleaner, hsem]⟩

/-- In every run no more calls are inside the core than there are slots. A dial
acquires and releases at most one slot, and has released it at its end, which it can
always reach once the core has returned. No connection is handed over or closed
twice, nor both, and when every dial has come to its end all slots are free and every
connection was handed over or closed. -/
theorem client_conserves_slots_and_connections (start : σ) (moves : List (Move Call (Input ε))) :
    let s := moves.foldl (clientMachine core capacity).step ⟨newClient start, []⟩
    s.threads.countP Thread.inCore ≤ capacity ∧
    (∀ i t, s.threads[i]? = some t →
      s.shared.acquired.count i ≤ 1 ∧
      s.shared.released.count i ≤ s.shared.acquired.count i ∧
      (t.settled = true → s.shared.released.count i = s.shared.acquired.count i) ∧
      (t.settled = false → t.inCore = false →
        ∃ input, (clientMachine core capacity).exec s.shared i t input ≠ none)) ∧
    (∀ conn, s.shared.handed.count conn + s.shared.closed.count conn ≤
      if conn < s.shared.opened then 1 else 0) ∧
    ((∀ t ∈ s.threads, t.settled = true) → s.shared.sem = 0 ∧
      ∀ conn < s.shared.opened, s.shared.handed.count conn + s.shared.closed.count conn = 1) := by
  intro s
  have hslots : (s.shared.sem : Int) = (s.threads.map Thread.slots).sum :=
    (conserves_slots core capacity).run (s := ⟨newClient start, []⟩) rfl moves
  have hconns : ∀ conn, s.shared.unsettled conn = (s.threads.map (Thread.carries conn)).sum :=
    fun conn => (conserves_conns core capacity conn).run (s := ⟨newClient start, []⟩) rfl moves
  obtain ⟨⟨hsem, -⟩, hledger⟩ := (keeps_ledger core capacity).run_all
    (s := ⟨newClient start, []⟩) ⟨⟨Nat.zero_le _, by simp [newClient], by simp [newClient]⟩,
      by simp⟩ moves
  have hopened : ∀ conn, (List.range s.shared.opened).count conn =
      if conn < s.shared.opened then 1 else 0 := by
    intro conn
    split_ifs with hconn
    · exact List.count_eq_one_of_mem List.nodup_range (List.mem_range.mpr hconn)
    · exact List.count_eq_zero.mpr (mt List.mem_range.mp hconn)
  refine ⟨?_, fun i t ht => ?_, fun conn => ?_, fun hall => ⟨?_, fun conn hconn => ?_⟩⟩
  · have hcount := countP_inCore_le s.threads
    have hsem' : s.shared.sem ≤ capacity := hsem
    omega
  · obtain ⟨hacquired, hreleased⟩ := hledger i t ht
    obtain ⟨h₁, h₂, h₃⟩ := releases_le_acquires t
    rw [hacquired, hreleased]
    refine ⟨h₁, h₂, h₃, exists_step core capacity ?_⟩
    rw [hslots]
    refine List.single_le_sum ?_ _ (List.mem_map_of_mem (List.mem_of_getElem? ht))
    intro w hw
    obtain ⟨t, -, rfl⟩ := List.mem_map.mp hw
    exact slots_nonneg t
  · have hsum : 0 ≤ s.shared.unsettled conn := by
      rw [hconns]
      refine List.sum_nonneg fun w hw => ?_
      obtain ⟨t, -, rfl⟩ := List.mem_map.mp hw
      exact Int.natCast_nonneg _
    rw [← hopened]
    unfold Client.unsettled at hsum
    omega
  · have hzero : (s.threads.map Thread.slots).sum = 0 := by
      refine List.sum_eq_zero fun w hw => ?_
      obtain ⟨t, ht, rfl⟩ := List.mem_map.mp hw
      exact slots_eq_zero (hall t ht)
    omega
  · have hzero : (s.threads.map (Thread.carries conn)).sum = 0 := by
      refine List.sum_eq_zero fun w hw => ?_
      obtain ⟨t, ht, rfl⟩ := List.mem_map.mp hw
      exact carries_eq_zero (hall t ht) conn
    have hsum := (hconns conn).trans hzero
    have hone := hopened conn
    rw [if_pos hconn] at hone
    unfold Client.unsettled at hsum
    omega

end Conservation

/-- With one slot, a canceled dial keeps the slot until its cleaner has closed what
the core returned, and a packet session that waits for the slot is handed over. -/
theorem client_conserves_canceled_dial :
    let core : CoreClient Unit Unit CoreResult :=
      ⟨fun _ => (), fun _ _ _ answer => some ((), none, .returned answer)⟩
    let moves : List (Move Call (Input CoreResult)) :=
      [.call (.dial .dial), .call (.dial .openPacket), .run 0 (.caller false),
        .run 1 (.caller false), .run 0 (.caller true), .run 0 (.core ⟨true, 1, none⟩),
        .run 0 .send, .run 0 .cleaner, .run 0 .cleaner, .run 0 .cleaner,
        .run 1 (.caller false), .run 1 (.core ⟨true, 1, none⟩), .run 1 .send,
        .run 1 (.caller false), .run 1 (.caller false), .run 1 (.caller false)]
    let s := moves.foldl (clientMachine core 1).step ⟨newClient (), []⟩
    s.shared.closed = [0] ∧ s.shared.handed = [1] ∧ s.shared.sem = 0 ∧
      ∀ conn < s.shared.opened, s.shared.handed.count conn + s.shared.closed.count conn = 1 := by
  intro core moves
  obtain ⟨-, -, -, hend⟩ := client_conserves_slots_and_connections core 1 () moves
  exact ⟨by decide +kernel, by decide +kernel, hend (by decide +kernel)⟩

end Hy2Route.HY2
