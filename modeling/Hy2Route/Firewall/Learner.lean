import Hy2Route.Policy.LearningRefinement

/-!
# The learner

The learner records observations in the learning table and tells the set
client which set each touched address belongs in. It reads the clock once for
every address it looks up, and its client acts at a reading of its own.

## Implementation notes

The clock is the sequence of its readings, and a learner counts the readings
taken so far. The addresses that an expiry reports come from a map iteration,
so the call carries the order in which they are visited.
-/

namespace Hy2Route.Firewall

open Foundation Policy

inductive SetState where
  | none
  | direct
  | inspect
  deriving DecidableEq

structure SetUpdate where
  ip : Addr
  state : SetState
  ttl : Int
  deriving DecidableEq

/-- A set client: `replace` gets the instant at which it acts. -/
structure SetClient (κ ε : Type) where
  replace : Int → List SetUpdate → κ → κ × Option ε

inductive LearnerError (ε : Type) where
  | table (err : LearningError)
  | sets (err : ε)
  deriving DecidableEq

/-- The learner with its table, its client's state and the readings taken. -/
structure Learner (κ : Type) where
  table : LearningTable
  sets : κ
  reads : Nat

/-- The order in which a map iteration visits the reported addresses. -/
structure IterationOrder where
  visit : List Addr → List Addr
  perm : ∀ ips, (visit ips).Perm ips

def IterationOrder.listed : IterationOrder := ⟨id, fun ips => List.Perm.refl ips⟩

/-- The set in which a decision puts its address. -/
def SetState.ofDecision (decision : LearnedDecision) : SetState :=
  if decision.inspect then .inspect
  else if decision.direct && !decision.proxy then .direct
  else .none

namespace Learner

variable {κ ε : Type} (client : SetClient κ ε) (clock : Nat → Int)

/-- A lookup at the next reading of the clock. -/
def lookup (l : Learner κ) (ip : Addr) : Learner κ × LearnedDecision :=
  let (table, decision) := l.table.lookup ip (clock l.reads)
  ({ l with table := table, reads := l.reads + 1 }, decision)

/-- A snapshot at the next reading of the clock. -/
def snapshot (l : Learner κ) : Learner κ × List (Addr × LearnedDecision) :=
  let (table, decisions) := l.table.snapshot (clock l.reads)
  ({ l with table := table, reads := l.reads + 1 }, decisions)

/-- The loop that looks up each address and lists the updates. -/
def reconcileLoop : List Addr → List SetUpdate → Learner κ → Learner κ × List SetUpdate
  | [], updates, l => (l, updates)
  | ip :: rest, updates, l =>
      let (l, decision) := l.lookup clock ip
      reconcileLoop rest (updates ++ [⟨ip, SetState.ofDecision decision, hour⟩]) l

def reconcile (ips : List Addr) (l : Learner κ) : Learner κ × Option (LearnerError ε) :=
  let (l, updates) := reconcileLoop clock ips [] l
  if updates.length = 0 then (l, none)
  else
    let (sets, err) := client.replace (clock l.reads) updates l.sets
    ({ l with sets := sets, reads := l.reads + 1 }, err.map .sets)

def observe (l : Learner κ) (observation : Observation) : Learner κ × Option (LearnerError ε) :=
  match l.table.observe observation with
  | (table, some err) => ({ l with table := table }, some (.table err))
  | (table, none) => reconcile client clock observation.ips { l with table := table }

def expire (l : Learner κ) (order : IterationOrder) : Learner κ × Option (LearnerError ε) :=
  let (table, changed) := l.table.expire (clock l.reads)
  reconcile client clock (order.visit changed) { l with table := table, reads := l.reads + 1 }

end Learner

/-! ## What an update says -/

/-- The last of the updates for an address. -/
def lastUpdate (updates : List SetUpdate) (ip : Addr) : Option SetUpdate :=
  updates.reverse.find? (·.ip = ip)

theorem lastUpdate_append (updates more : List SetUpdate) (ip : Addr) :
    lastUpdate (updates ++ more) ip = (lastUpdate more ip).or (lastUpdate updates ip) := by
  rw [lastUpdate, List.reverse_append, List.find?_append, lastUpdate, lastUpdate]

theorem lastUpdate_eq_none_iff {updates : List SetUpdate} {ip : Addr} :
    lastUpdate updates ip = none ↔ ip ∉ updates.map (·.ip) := by
  simp [lastUpdate, List.find?_eq_none]

theorem mem_of_lastUpdate {updates : List SetUpdate} {ip : Addr} {update : SetUpdate}
    (h : lastUpdate updates ip = some update) : update ∈ updates ∧ update.ip = ip :=
  ⟨List.mem_reverse.mp (List.mem_of_find?_eq_some h), by simpa using List.find?_some h⟩

/-- The set that the items of an address imply. -/
def impliedState (items : List (ObservationKey × Int)) (ip : Addr) : SetState :=
  if observed items ip .direct then
    if observed items ip .proxy then .inspect else .direct
  else .none

/-- The set that the items live at an instant imply. -/
def stateAt (now : Int) (items : List (ObservationKey × Int)) (ip : Addr) : SetState :=
  impliedState (items.filter (LearningTable.live now)) ip

theorem ofDecision_eq {decision : LearnedDecision} {items : List (ObservationKey × Int)} {ip : Addr}
    (h : decision.direct = observed items ip .direct ∧ decision.proxy = observed items ip .proxy ∧
      decision.inspect = (observed items ip .direct && observed items ip .proxy)) :
    SetState.ofDecision decision = impliedState items ip := by
  obtain ⟨hdirect, hproxy, hinspect⟩ := h
  rw [SetState.ofDecision, impliedState, hdirect, hproxy, hinspect]
  cases observed items ip .direct <;> cases observed items ip .proxy <;> rfl

/-- A lookup puts its address where the live items imply. -/
theorem ofDecision_lookup {table : LearningTable} (h : table.Sound) (ip : Addr) (now : Int) :
    SetState.ofDecision (table.lookup ip now).2 = stateAt now table.items ip :=
  ofDecision_eq (LearningTable.lookup_spec h ip now)

/-- Filtering at an earlier instant first changes nothing. -/
theorem filter_live_filter_live {earlier later : Int} (h : earlier ≤ later)
    (items : List (ObservationKey × Int)) :
    (items.filter (LearningTable.live earlier)).filter (LearningTable.live later) =
      items.filter (LearningTable.live later) := by
  rw [List.filter_filter]
  refine List.filter_congr fun item _ => ?_
  simp only [LearningTable.live, Bool.and_eq_left_iff_imp, decide_eq_true_eq]
  omega

theorem stateAt_filter {earlier later : Int} (h : earlier ≤ later)
    (items : List (ObservationKey × Int)) (ip : Addr) :
    stateAt later (items.filter (LearningTable.live earlier)) ip = stateAt later items ip := by
  rw [stateAt, filter_live_filter_live h, stateAt]

theorem observed_live_anti {earlier later : Int} (h : earlier ≤ later)
    (items : List (ObservationKey × Int)) (ip : Addr) (action : Action)
    (hobs : observed (items.filter (LearningTable.live later)) ip action = true) :
    observed (items.filter (LearningTable.live earlier)) ip action = true := by
  rw [← filter_live_filter_live h] at hobs
  rw [observed_iff] at hobs ⊢
  obtain ⟨key, expires, hmem, hrest⟩ := hobs
  exact ⟨key, expires, List.mem_of_mem_filter hmem, hrest⟩

/-- A state that is the same at two instants is the same in between: live
observations only lapse. -/
theorem stateAt_between {first now last : Int} (hfirst : first ≤ now) (hlast : now ≤ last)
    {items : List (ObservationKey × Int)} {ip : Addr}
    (h : stateAt first items ip = stateAt last items ip) :
    stateAt now items ip = stateAt last items ip := by
  have hd₁ := observed_live_anti hfirst items ip .direct
  have hd₂ := observed_live_anti hlast items ip .direct
  have hp₁ := observed_live_anti hfirst items ip .proxy
  have hp₂ := observed_live_anti hlast items ip .proxy
  unfold stateAt impliedState at h ⊢
  grind

/-! ## What a reconciliation sends -/

/-- The updates for addresses looked up at successive readings. -/
def updatesFor (clock : Nat → Int) (items : List (ObservationKey × Int)) :
    List Addr → Nat → List SetUpdate
  | [], _ => []
  | ip :: rest, reading =>
      ⟨ip, stateAt (clock reading) items ip, hour⟩ :: updatesFor clock items rest (reading + 1)

/-- The items left after a number of lookups at successive readings. -/
def heldAfter (clock : Nat → Int) (items : List (ObservationKey × Int)) (first count : Nat) :
    List (ObservationKey × Int) :=
  if count = 0 then items else items.filter (LearningTable.live (clock (first + count - 1)))

theorem updatesFor_congr {clock : Nat → Int} (hmono : Nondecreasing clock)
    {items : List (ObservationKey × Int)} (earlier : Int) :
    ∀ (ips : List Addr) (reading : Nat), earlier ≤ clock reading →
      updatesFor clock (items.filter (LearningTable.live earlier)) ips reading =
        updatesFor clock items ips reading
  | [], _, _ => rfl
  | ip :: rest, reading, h => by
      have hnext : earlier ≤ clock (reading + 1) := h.trans (hmono (Nat.le_succ reading))
      rw [updatesFor, updatesFor, stateAt_filter h, updatesFor_congr hmono earlier rest _ hnext]

theorem map_ip_updatesFor (clock : Nat → Int) (items : List (ObservationKey × Int)) :
    ∀ (ips : List Addr) (reading : Nat), (updatesFor clock items ips reading).map (·.ip) = ips
  | [], _ => rfl
  | _ :: rest, reading => congrArg _ (map_ip_updatesFor clock items rest (reading + 1))

/-- An update says the state at the reading at which its address was looked up. -/
theorem mem_updatesFor {clock : Nat → Int} {items : List (ObservationKey × Int)}
    {update : SetUpdate} : ∀ {ips : List Addr} {reading : Nat},
    update ∈ updatesFor clock items ips reading → ∃ n, reading ≤ n ∧ n < reading + ips.length ∧
      update = ⟨update.ip, stateAt (clock n) items update.ip, hour⟩
  | ip :: rest, reading, h => by
      rcases List.mem_cons.mp h with rfl | hrest
      · exact ⟨reading, le_refl _, by simp, rfl⟩
      · obtain ⟨n, hlow, hhigh, heq⟩ := mem_updatesFor hrest
        exact ⟨n, by omega, by simp only [List.length_cons]; omega, heq⟩

theorem heldAfter_filter {clock : Nat → Int} (hmono : Nondecreasing clock)
    (items : List (ObservationKey × Int)) (first count : Nat) :
    heldAfter clock (items.filter (LearningTable.live (clock first))) (first + 1) count =
      heldAfter clock items first (count + 1) := by
  unfold heldAfter
  by_cases hc : count = 0
  · simp [hc]
  · rw [if_neg hc, if_neg (Nat.succ_ne_zero count), filter_live_filter_live (hmono (by omega))]
    congr 3
    omega

namespace Learner

variable {κ ε : Type} {client : SetClient κ ε} {clock : Nat → Int}

/-- The loop keeps the table sound, takes one reading for each address, and
lists the state of each address at its reading. -/
theorem reconcileLoop_spec (hmono : Nondecreasing clock) (ips : List Addr)
    (updates : List SetUpdate) (l : Learner κ) (h : l.table.Sound) :
    let result := reconcileLoop clock ips updates l
    result.1.table.Sound ∧ result.1.table.capacity = l.table.capacity ∧
      result.1.table.items = heldAfter clock l.table.items l.reads ips.length ∧
      result.1.sets = l.sets ∧ result.1.reads = l.reads + ips.length ∧
      result.2 = updates ++ updatesFor clock l.table.items ips l.reads := by
  induction ips generalizing updates l with
  | nil => exact ⟨h, rfl, rfl, rfl, rfl, (List.append_nil _).symm⟩
  | cons ip rest ih =>
      obtain ⟨hsound, hcap, hitems, -⟩ := LearningTable.expireLocked_spec h (clock l.reads)
      obtain ⟨h₁, h₂, h₃, h₄, h₅, h₆⟩ := ih
        (updates ++ [⟨ip, SetState.ofDecision (l.lookup clock ip).2, hour⟩])
        (l.lookup clock ip).1 hsound
      have hitems' : (l.lookup clock ip).1.table.items =
          l.table.items.filter (LearningTable.live (clock l.reads)) := hitems
      refine ⟨h₁, h₂.trans hcap, ?_, h₄, ?_, ?_⟩
      · calc (reconcileLoop clock (ip :: rest) updates l).1.table.items
            = heldAfter clock (l.lookup clock ip).1.table.items (l.reads + 1) rest.length := h₃
          _ = heldAfter clock l.table.items l.reads (rest.length + 1) := by
              rw [hitems']
              exact heldAfter_filter hmono l.table.items l.reads rest.length
      · calc (reconcileLoop clock (ip :: rest) updates l).1.reads
            = l.reads + 1 + rest.length := h₅
          _ = l.reads + (rest.length + 1) := by omega
      · refine h₆.trans ?_
        rw [hitems', List.append_assoc]
        change updates ++ (⟨ip, SetState.ofDecision (l.table.lookup ip (clock l.reads)).2, hour⟩ ::
          updatesFor clock _ rest (l.reads + 1)) = _
        rw [ofDecision_lookup h, updatesFor_congr hmono _ _ _ (hmono (Nat.le_succ _))]
        rfl

/-- A reconciliation leaves what is live at its last lookup and hands one batch
of updates to the client, or nothing when there is no address. -/
theorem reconcile_spec (client : SetClient κ ε) (hmono : Nondecreasing clock) (ips : List Addr)
    (l : Learner κ) (h : l.table.Sound) :
    let result := reconcile client clock ips l
    result.1.table.Sound ∧ result.1.table.capacity = l.table.capacity ∧
      result.1.table.items = heldAfter clock l.table.items l.reads ips.length ∧
      (ips = [] → result.1.sets = l.sets ∧ result.1.reads = l.reads ∧ result.2 = none) ∧
      (ips ≠ [] →
        let replaced := client.replace (clock (l.reads + ips.length))
          (updatesFor clock l.table.items ips l.reads) l.sets
        result.1.sets = replaced.1 ∧ result.1.reads = l.reads + ips.length + 1 ∧
          result.2 = replaced.2.map .sets) := by
  obtain ⟨h₁, h₂, h₃, h₄, h₅, h₆⟩ := reconcileLoop_spec hmono ips [] l h
  rw [List.nil_append] at h₆
  have hlen : (updatesFor clock l.table.items ips l.reads).length = ips.length := by
    rw [← List.length_map (f := SetUpdate.ip), map_ip_updatesFor]
  intro result
  by_cases hips : ips = []
  · subst hips
    exact ⟨h, rfl, rfl, fun _ => ⟨rfl, rfl, rfl⟩, fun hne => absurd rfl hne⟩
  · have hresult : result =
        (let replaced := client.replace (clock (l.reads + ips.length))
          (updatesFor clock l.table.items ips l.reads) l.sets
        ({ (reconcileLoop clock ips [] l).1 with
            sets := replaced.1
            reads := l.reads + ips.length + 1 }, replaced.2.map .sets)) := by
      have hne : ips.length ≠ 0 := fun hz => hips (List.length_eq_zero_iff.mp hz)
      simp only [result, reconcile, h₆, hlen, if_neg hne, h₄, h₅]
    rw [hresult]
    exact ⟨h₁, h₂, h₃, fun hnil => absurd hnil hips, fun _ => ⟨rfl, rfl, rfl⟩⟩

end Learner

end Hy2Route.Firewall
