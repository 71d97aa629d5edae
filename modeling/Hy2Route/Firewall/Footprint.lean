import Hy2Route.Firewall.Membership
import Hy2Route.Firewall.Mirror
import Hy2Route.Firewall.Sync

/-!
# The memory of the learner

The entries, their order and the address index stay within the capacity. The heap
gets an item for every address of every observation, also when it refreshes an
entry, and loses it only once the clock has passed the item's expiry. The set
client keeps a note of every address it was ever given.
-/

namespace Hy2Route.Firewall

open Foundation Policy

/-- The client during a call with a fault. -/
def faultyClient (timeouts : Timeouts) (fault : Fault) : SetClient NftSets ReplaceError where
  replace now updates sets := sets.replaceFaulty timeouts ⟨⟨now, updates⟩, fault⟩

inductive FaultyCall where
  | observe (observation : Observation) (fault : Fault)
  | expire (order : IterationOrder) (fault : Fault)
  | lookup (ip : Addr)
  | snapshot

/-- The learner after a call on it, or on its table by another component. -/
def Learner.callFaulty (timeouts : Timeouts) (clock : Nat → Int) (l : Learner NftSets) :
    FaultyCall → Learner NftSets
  | .observe observation fault => (l.observe (faultyClient timeouts fault) clock observation).1
  | .expire order fault => (l.expire (faultyClient timeouts fault) clock order).1
  | .lookup ip => (l.lookup clock ip).1
  | .snapshot => (l.snapshot clock).1

/-- No structure of the learner holds more than the bound. -/
structure Learner.Within (bound : Nat) (l : Learner NftSets) : Prop where
  table : l.table.Within bound
  states : l.sets.states.keys.length ≤ bound

/-! ## What a run asks to remember -/

/-- The keys that a call touches with their expiry. -/
def FaultyCall.sightings : FaultyCall → List ExpiryItem
  | .observe observation _ => observation.keys.map fun key => ⟨key, observation.expires⟩
  | _ => []

/-- The clock readings at which a call looks into the table, after what it records. -/
def Learner.readings (clock : Nat → Int) (l : Learner NftSets) : FaultyCall → List Int
  | .observe observation _ =>
      if observation.Acceptable then (List.range' l.reads observation.ips.length).map clock else []
  | .expire _ _ =>
      (List.range' l.reads ((l.table.expire (clock l.reads)).2.length + 1)).map clock
  | .lookup _ => [clock l.reads]
  | .snapshot => [clock l.reads]

/-- The updates that a call hands to the client. -/
def Learner.handed (clock : Nat → Int) (l : Learner NftSets) : FaultyCall → List SetUpdate
  | .observe observation _ =>
      match l.table.observe observation with
      | (_, some _) => []
      | (table, none) => (reconcileLoop clock observation.ips [] { l with table := table }).2
  | .expire order _ =>
      let (table, changed) := l.table.expire (clock l.reads)
      (reconcileLoop clock (order.visit changed) []
        { l with table := table, reads := l.reads + 1 }).2
  | _ => []

/-- The updates that the client has noted when a call with a fault is over. -/
def Fault.notes (fault : Fault) (updates : List SetUpdate) : List SetUpdate :=
  (ReplaceCall.notedUpdates ⟨⟨0, updates⟩, fault⟩).getD updates

def FaultyCall.fault : FaultyCall → Fault
  | .observe _ fault | .expire _ fault => fault
  | _ => .none

section RunData

variable (timeouts : Timeouts) (clock : Nat → Int)

/-- The readings of a run. -/
def runReadings : Learner NftSets → List FaultyCall → List Int
  | _, [] => []
  | l, c :: rest => l.readings clock c ++ runReadings (l.callFaulty timeouts clock c) rest

/-- The sightings of a run that no later reading has reached. -/
def pendingSightings : Learner NftSets → List FaultyCall → List ExpiryItem
  | _, [] => []
  | l, c :: rest =>
      c.sightings.filter (ExpiryItem.unreached (runReadings timeouts clock l (c :: rest))) ++
        pendingSightings (l.callFaulty timeouts clock c) rest

/-- The addresses that the client notes in a run. -/
def notedAddrs : Learner NftSets → List FaultyCall → Finset Addr
  | _, [] => ∅
  | l, c :: rest =>
      ((c.fault.notes (l.handed clock c)).map (·.ip)).toFinset ∪
        notedAddrs (l.callFaulty timeouts clock c) rest

end RunData

/-- The addresses that the observations of a run record. -/
def sightedAddrs (calls : List FaultyCall) : Finset Addr :=
  ((calls.flatMap FaultyCall.sightings).map (·.key.ip)).toFinset

/-! ## The table -/

section Table

variable {table : LearningTable}

/-- The table after what a call records. -/
def FaultyCall.record (table : LearningTable) : FaultyCall → LearningTable
  | .observe observation _ => (table.observe observation).1
  | _ => table

theorem record_spec (h : table.Sound) (c : FaultyCall) :
    (c.record table).Sound ∧ (c.record table).capacity = table.capacity ∧
      (∀ item ∈ (c.record table).items,
        item ∈ table.items ∨ item.1 ∈ c.sightings.map ExpiryItem.key) ∧
      (c.record table).expirations.Perm (c.sightings ++ table.expirations) := by
  cases c with
  | observe observation fault =>
      obtain ⟨h₁, h₂, -, h₄⟩ := LearningTable.observe_spec h observation
      refine ⟨h₁, h₂, fun item hitem => ?_, LearningTable.observe_expirations h observation⟩
      change item ∈ (table.observe observation).1.items at hitem
      rw [h₄] at hitem
      rcases mem_of_mem_touchKeys hitem with ⟨hkey, -⟩ | hold
      · refine Or.inr ?_
        simpa [FaultyCall.sightings] using hkey
      · exact Or.inl hold
  | expire order fault => exact ⟨h, rfl, fun _ hitem => Or.inl hitem, List.Perm.refl _⟩
  | lookup ip => exact ⟨h, rfl, fun _ hitem => Or.inl hitem, List.Perm.refl _⟩
  | snapshot => exact ⟨h, rfl, fun _ hitem => Or.inl hitem, List.Perm.refl _⟩

end Table

/-! ## The learner -/

namespace Learner

variable {timeouts : Timeouts} {clock : Nat → Int} {l : Learner NftSets}

theorem reconcileLoop_effect {κ : Type} (clock : Nat → Int) (ips : List Addr)
    (updates : List SetUpdate) (l : Learner κ) :
    let result := reconcileLoop clock ips updates l
    result.1.table =
        LearningTable.expireAt l.table ((List.range' l.reads ips.length).map clock) ∧
      result.1.sets = l.sets ∧ result.2.map (·.ip) = updates.map (·.ip) ++ ips := by
  induction ips generalizing updates l with
  | nil => exact ⟨rfl, rfl, (List.append_nil _).symm⟩
  | cons ip rest ih =>
      obtain ⟨h₁, h₂, h₃⟩ := ih (updates ++ [⟨ip, SetState.ofDecision (l.lookup clock ip).2, hour⟩])
        (l.lookup clock ip).1
      exact ⟨h₁, h₂, h₃.trans (by simp)⟩

/-- A reconciliation looks into the table once for each address, and hands the
addresses to the client. -/
theorem reconcile_effect {κ ε : Type} (client : SetClient κ ε) (clock : Nat → Int)
    (ips : List Addr) (l : Learner κ) :
    let result := (reconcile client clock ips l).1
    result.table = LearningTable.expireAt l.table ((List.range' l.reads ips.length).map clock) ∧
      (result.sets = l.sets ∨ ∃ now updates, updates.map (·.ip) = ips ∧
        result.sets = (client.replace now updates l.sets).1) := by
  obtain ⟨htable, hsets, hips⟩ := reconcileLoop_effect clock ips [] l
  simp only [reconcile]
  split_ifs with hnone
  · exact ⟨htable, Or.inl hsets⟩
  · exact ⟨htable, Or.inr ⟨_, _, hips, by rw [hsets]⟩⟩

/-- A call records what it observes and then expires at its readings. -/
theorem callFaulty_table (h : l.table.Sound) (c : FaultyCall) :
    (l.callFaulty timeouts clock c).table =
      LearningTable.expireAt (c.record l.table) (l.readings clock c) := by
  cases c with
  | observe observation fault =>
      have hnone := LearningTable.observe_eq_none_iff h observation
      simp only [callFaulty, observe, FaultyCall.record, readings]
      cases hrun : l.table.observe observation with
      | mk table err =>
          rw [hrun] at hnone
          cases err with
          | some err =>
              have hnot : ¬ observation.Acceptable := fun hok => by cases hnone.mpr hok
              rw [if_neg hnot]
              rfl
          | none =>
              rw [if_pos (hnone.mp rfl)]
              exact (reconcile_effect (faultyClient timeouts fault) clock observation.ips _).1
  | expire order fault =>
      have heffect := (reconcile_effect (faultyClient timeouts fault) clock
        (order.visit (l.table.expire (clock l.reads)).2)
        ⟨(l.table.expire (clock l.reads)).1, l.sets, l.reads + 1⟩).1
      rw [(order.perm (l.table.expire (clock l.reads)).2).length_eq] at heffect
      exact heffect
  | lookup ip => rfl
  | snapshot => rfl

end Learner

theorem mem_queueUpdates {updates : List SetUpdate} {states : AList fun _ : Addr => SetState}
    {ip : Addr} :
    ip ∈ (queueUpdates updates states).1 ↔ ip ∈ states ∨ ip ∈ updates.map (·.ip) := by
  rw [← AList.lookup_isSome, lookup_queueUpdates, ← AList.lookup_isSome, ← not_iff_not (b := _ ∨ _),
    not_or, ← lastUpdate_eq_none_iff]
  cases lastUpdate updates ip <;> simp

/-- A call of the client notes exactly the updates up to the point of its failure. -/
theorem mem_replaceFaulty {timeouts : Timeouts} {sets : NftSets} {now : Int}
    {updates : List SetUpdate} {fault : Fault} {ip : Addr} :
    ip ∈ (sets.replaceFaulty timeouts ⟨⟨now, updates⟩, fault⟩).1.states ↔
      ip ∈ sets.states ∨ ip ∈ (fault.notes updates).map (·.ip) := by
  rw [← mem_queueUpdates, Fault.notes]
  have hsame : ReplaceCall.notedUpdates ⟨⟨now, updates⟩, fault⟩ =
      ReplaceCall.notedUpdates ⟨⟨0, updates⟩, fault⟩ := rfl
  simp only [NftSets.replaceFaulty, hsame]
  cases ReplaceCall.notedUpdates ⟨⟨0, updates⟩, fault⟩ with
  | some noted => rfl
  | none =>
      simp only [nftSetClient]
      split <;> rfl

theorem Fault.notes_nil (fault : Fault) : fault.notes [] = [] := by
  cases fault <;> rfl

theorem Fault.notes_subset (fault : Fault) (updates : List SetUpdate) :
    fault.notes updates ⊆ updates := by
  cases fault with
  | none => exact List.Subset.refl _
  | early => exact List.nil_subset _
  | flush => exact List.Subset.refl _
  | add place =>
      simp only [notes, ReplaceCall.notedUpdates]
      split
      · split_ifs
        · exact List.Subset.refl _
        · exact List.take_subset _ _
      · exact List.Subset.refl _

/-- The table keeps its capacity, and the table and the notes know only the given
addresses. -/
structure Remembers (capacity : Nat) (addrs : Finset Addr) (l : Learner NftSets) : Prop where
  sound : l.table.Sound
  capacity : l.table.capacity = capacity
  items : ∀ item ∈ l.table.items, item.1.ip ∈ addrs
  states : ∀ ip ∈ l.sets.states, ip ∈ addrs

section Runs

variable {timeouts : Timeouts} {clock : Nat → Int} {capacity : Nat} {addrs : Finset Addr}
  {l : Learner NftSets}

/-- A reconciliation notes what it hands to the client, up to its failure. -/
theorem mem_states_reconcile (l : Learner NftSets) (ips : List Addr) (fault : Fault) (ip : Addr) :
    ip ∈ (l.reconcile (faultyClient timeouts fault) clock ips).1.sets.states ↔
      ip ∈ l.sets.states ∨
        ip ∈ (fault.notes (Learner.reconcileLoop clock ips [] l).2).map (·.ip) := by
  obtain ⟨-, hsets, -⟩ := Learner.reconcileLoop_effect clock ips [] l
  simp only [Learner.reconcile]
  split_ifs with hnone
  · rw [hsets, List.eq_nil_of_length_eq_zero hnone, Fault.notes_nil]
    simp
  · rw [← hsets]
    exact mem_replaceFaulty

/-- A call notes what it hands to the client, up to its failure. -/
theorem mem_states_callFaulty (c : FaultyCall) (ip : Addr) :
    ip ∈ (l.callFaulty timeouts clock c).sets.states ↔
      ip ∈ l.sets.states ∨ ip ∈ (c.fault.notes (l.handed clock c)).map (·.ip) := by
  cases c with
  | observe observation fault =>
      simp only [Learner.callFaulty, Learner.observe, Learner.handed, FaultyCall.fault]
      rcases l.table.observe observation with ⟨table, _ | err⟩
      · exact mem_states_reconcile _ _ _ _
      · simp [Fault.notes_nil]
  | expire order fault => exact mem_states_reconcile _ _ _ _
  | lookup _ => simp [Learner.callFaulty, Learner.lookup, Learner.handed, Fault.notes_nil]
  | snapshot => simp [Learner.callFaulty, Learner.snapshot, Learner.handed, Fault.notes_nil]

/-- What is noted after a run. -/
theorem mem_states_run (timeouts : Timeouts) (clock : Nat → Int) (l : Learner NftSets)
    (calls : List FaultyCall) (ip : Addr) :
    ip ∈ (calls.foldl (Learner.callFaulty timeouts clock) l).sets.states ↔
      ip ∈ l.sets.states ∨ ip ∈ notedAddrs timeouts clock l calls := by
  induction calls generalizing l with
  | nil => simp [notedAddrs]
  | cons c rest ih =>
      rw [List.foldl_cons, ih, mem_states_callFaulty, notedAddrs, Finset.mem_union,
        List.mem_toFinset, or_assoc]

/-- A call hands only known addresses to the client. -/
theorem handed_known (hsound : l.table.Sound) (hitems : ∀ item ∈ l.table.items, item.1.ip ∈ addrs)
    {c : FaultyCall} (hc : ∀ item ∈ c.sightings, item.key.ip ∈ addrs) :
    ∀ update ∈ l.handed clock c, update.ip ∈ addrs := by
  intro update hupdate
  cases c with
  | observe observation fault =>
      have hnone := LearningTable.observe_eq_none_iff hsound observation
      simp only [Learner.handed] at hupdate
      rcases hrun : l.table.observe observation with ⟨table, _ | err⟩ <;> rw [hrun] at hnone hupdate
      · have hips := (Learner.reconcileLoop_effect clock observation.ips []
          ⟨table, l.sets, l.reads⟩).2.2
        obtain ⟨key, hkey, heq⟩ := (hnone.mp rfl).exists_key
          (show update.ip ∈ observation.ips from by
            rw [List.map_nil, List.nil_append] at hips
            exact hips ▸ List.mem_map_of_mem hupdate)
        exact heq ▸ hc _ (List.mem_map_of_mem hkey)
      · cases hupdate
  | expire order fault =>
      have hips := (Learner.reconcileLoop_effect clock
        (order.visit (l.table.expire (clock l.reads)).2) []
        ⟨(l.table.expire (clock l.reads)).1, l.sets, l.reads + 1⟩).2.2
      rw [List.map_nil, List.nil_append] at hips
      have hip := hips ▸ List.mem_map_of_mem hupdate
      obtain ⟨-, -, -, hdue⟩ := LearningTable.expireLocked_spec hsound (clock l.reads)
      obtain ⟨key, expires, hitem, -, heq⟩ := (hdue update.ip).mp ((order.perm _).mem_iff.mp hip)
      exact heq ▸ hitems _ hitem
  | lookup _ => cases hupdate
  | snapshot => cases hupdate

theorem Remembers.callFaulty (h : Remembers capacity addrs l) {c : FaultyCall}
    (hc : ∀ item ∈ c.sightings, item.key.ip ∈ addrs) :
    Remembers capacity addrs (l.callFaulty timeouts clock c) := by
  obtain ⟨hrecorded, hsame, hnew, -⟩ := record_spec h.sound c
  obtain ⟨hsound, hkept, hitems, -⟩ :=
    LearningTable.expireAt_spec hrecorded (l.readings clock c)
  rw [← Learner.callFaulty_table h.sound c] at hsound hkept hitems
  refine ⟨hsound, (hkept.trans hsame).trans h.capacity, fun item hitem => ?_, ?_⟩
  · rcases hnew item (hitems hitem) with hold | hkey
    · exact h.items item hold
    · obtain ⟨sighting, hsighting, heq⟩ := List.mem_map.mp hkey
      rw [← heq]
      exact hc sighting hsighting
  · intro ip hip
    rcases (mem_states_callFaulty c ip).mp hip with hold | hnew
    · exact h.states ip hold
    · obtain ⟨update, hupdate, rfl⟩ := List.mem_map.mp hnew
      exact handed_known h.sound h.items hc update (Fault.notes_subset _ _ hupdate)

theorem Remembers.run (h : Remembers capacity addrs l) {calls : List FaultyCall}
    (hcalls : sightedAddrs calls ⊆ addrs) :
    Remembers capacity addrs (calls.foldl (Learner.callFaulty timeouts clock) l) := by
  induction calls generalizing l with
  | nil => exact h
  | cons c rest ih =>
      have hsighted : ∀ item ∈ (c :: rest).flatMap FaultyCall.sightings, item.key.ip ∈ addrs := by
        intro item hitem
        exact hcalls (List.mem_toFinset.mpr (List.mem_map_of_mem hitem))
      simp only [List.flatMap_cons, List.forall_mem_append] at hsighted
      refine ih (h.callFaulty hsighted.1) fun ip hip => ?_
      obtain ⟨item, hitem, rfl⟩ := List.mem_map.mp (List.mem_toFinset.mp hip)
      exact hsighted.2 item hitem

/-- After a run the heap holds the pending sightings of the run, and what was on it
before and no reading has reached. -/
theorem expirations_run (hsound : l.table.Sound) (calls : List FaultyCall) :
    (calls.foldl (Learner.callFaulty timeouts clock) l).table.expirations.Perm
      (l.table.expirations.filter (ExpiryItem.unreached (runReadings timeouts clock l calls)) ++
        pendingSightings timeouts clock l calls) := by
  induction calls generalizing l with
  | nil =>
      have hall : ∀ item ∈ l.table.expirations,
          item.unreached (runReadings timeouts clock l []) = true := fun _ _ => rfl
      rw [List.filter_eq_self.mpr hall, pendingSightings, List.append_nil]
      rfl
  | cons c rest ih =>
      obtain ⟨hrecorded, -, -, hpushed⟩ := record_spec hsound c
      obtain ⟨hafter, -, -, hheap⟩ := LearningTable.expireAt_spec hrecorded (l.readings clock c)
      rw [← Learner.callFaulty_table hsound c] at hafter hheap
      have hunreached : ∀ item : ExpiryItem,
          item.unreached (runReadings timeouts clock l (c :: rest)) =
          (item.unreached (runReadings timeouts clock (l.callFaulty timeouts clock c) rest) &&
            item.unreached (l.readings clock c)) := by
        intro item
        rw [runReadings, ExpiryItem.unreached, List.all_append, Bool.and_comm]
        rfl
      refine (ih hafter).trans ?_
      rw [hheap, List.filter_filter, List.filter_congr fun item _ => (hunreached item).symm,
        pendingSightings, ← List.append_assoc]
      refine List.Perm.append_right _ ((hpushed.filter _).trans ?_)
      rw [List.filter_append]
      exact List.perm_append_comm

theorem exists_reading {now : Int} : ∀ {calls : List FaultyCall} {l : Learner NftSets},
    now ∈ runReadings timeouts clock l calls → ∃ n, clock n = now
  | c :: rest, l, h => by
      rcases List.mem_append.mp h with hcall | hrest
      · have hmap : ∃ reads : List Nat, l.readings clock c ⊆ reads.map clock := by
          cases c with
          | observe observation fault =>
              refine ⟨List.range' l.reads observation.ips.length, ?_⟩
              simp only [Learner.readings]
              split_ifs
              · exact List.Subset.refl _
              · exact List.nil_subset _
          | expire order fault => exact ⟨_, List.Subset.refl _⟩
          | lookup ip => exact ⟨[l.reads], List.Subset.refl _⟩
          | snapshot => exact ⟨[l.reads], List.Subset.refl _⟩
        obtain ⟨reads, hreads⟩ := hmap
        obtain ⟨n, -, hn⟩ := List.mem_map.mp (hreads hcall)
        exact ⟨n, hn⟩
      · exact exists_reading hrest

/-- Sightings that the clock never reaches all stay pending. -/
theorem pendingSightings_of_late {calls : List FaultyCall}
    (h : ∀ item ∈ calls.flatMap FaultyCall.sightings, ∀ n, clock n < item.expires) :
    pendingSightings timeouts clock l calls = calls.flatMap FaultyCall.sightings := by
  induction calls generalizing l with
  | nil => rfl
  | cons c rest ih =>
      rw [List.flatMap_cons, List.forall_mem_append] at h
      rw [pendingSightings, List.flatMap_cons, ih h.2, List.filter_eq_self.mpr]
      intro item hitem
      rw [ExpiryItem.unreached, List.all_eq_true]
      intro now hnow
      obtain ⟨n, rfl⟩ := exists_reading hnow
      exact decide_eq_true (h.1 item hitem n)

end Runs

theorem newNftLearner_remembers (addrs : Finset Addr) (capacity : Int) :
    Remembers (max capacity 1).toNat addrs (newNftLearner capacity) where
  sound := newLearningTable_sound capacity
  capacity := newLearningTable_capacity capacity
  items := by
    intro item hitem
    simp [newNftLearner, newLearningTable, LearningTable.items, orderedItems] at hitem
  states := by
    intro ip hip
    exact absurd hip (AList.notMem_empty ip)

/-- After a run from an empty table the heap holds the pending sightings. -/
theorem length_expirations_run (timeouts : Timeouts) (clock : Nat → Int) (capacity : Int)
    (calls : List FaultyCall) :
    (calls.foldl (Learner.callFaulty timeouts clock)
        (newNftLearner capacity)).table.expirations.length =
      (pendingSightings timeouts clock (newNftLearner capacity) calls).length :=
  (expirations_run (newLearningTable_sound capacity) calls).length_eq

/-- After a run the learner is within a bound above the capacity exactly when no more
sightings than the bound are pending and the client has noted no more addresses than
the bound. These are among the addresses that the observations name. -/
theorem learning_memory_within_iff (timeouts : Timeouts) (clock : Nat → Int) (capacity : Int)
    (calls : List FaultyCall) (bound : Nat) (hcapacity : max capacity 1 ≤ bound) :
    notedAddrs timeouts clock (newNftLearner capacity) calls ⊆ sightedAddrs calls ∧
    ((calls.foldl (Learner.callFaulty timeouts clock) (newNftLearner capacity)).Within bound ↔
      (pendingSightings timeouts clock (newNftLearner capacity) calls).length ≤ bound ∧
        (notedAddrs timeouts clock (newNftLearner capacity) calls).card ≤ bound) := by
  have hrun : Remembers (max capacity 1).toNat (sightedAddrs calls)
      (calls.foldl (Learner.callFaulty timeouts clock) (newNftLearner capacity)) :=
    (newNftLearner_remembers _ capacity).run (Finset.Subset.refl _)
  have hnoted (ip : Addr) : ip ∈ (calls.foldl (Learner.callFaulty timeouts clock)
      (newNftLearner capacity)).sets.states ↔
        ip ∈ notedAddrs timeouts clock (newNftLearner capacity) calls :=
    (mem_states_run timeouts clock _ calls ip).trans (or_iff_right (AList.notMem_empty ip))
  generalize hafter : calls.foldl (Learner.callFaulty timeouts clock) (newNftLearner capacity) =
    after at hrun hnoted
  have hroom : after.table.capacity ≤ bound := by
    rw [hrun.capacity]
    omega
  have hkeys : after.sets.states.keys.length =
      (notedAddrs timeouts clock (newNftLearner capacity) calls).card := by
    rw [← List.toFinset_card_of_nodup (AList.keys_nodup _)]
    exact congrArg _ (Finset.ext fun ip => List.mem_toFinset.trans (hnoted ip))
  refine ⟨fun ip hip => hrun.states ip ((hnoted ip).mpr hip), ?_⟩
  rw [← length_expirations_run, hafter, ← hrun.sound.within_iff hroom, ← hkeys]
  exact ⟨fun hwithin => ⟨hwithin.table, hwithin.states⟩, fun hboth => ⟨hboth.1, hboth.2⟩⟩

/-- Two addresses, one of them refreshed after its first sighting has lapsed. -/
theorem learning_memory_within_two :
    let calls : List FaultyCall :=
      [.observe ⟨ascii "cn.example", .direct, [.v4 0xCB007108#32], 4 * second⟩ .none,
        .observe ⟨ascii "cn.example", .direct, [.v4 0xCB007109#32], hour⟩ .flush,
        .expire .listed .none,
        .observe ⟨ascii "cn.example", .direct, [.v4 0xCB007108#32], hour⟩ .early]
    (calls.foldl (Learner.callFaulty .ofFlag secondsClock) (newNftLearner 1)).Within 2 :=
  (learning_memory_within_iff .ofFlag secondsClock 1
    [.observe ⟨ascii "cn.example", .direct, [.v4 0xCB007108#32], 4 * second⟩ .none,
      .observe ⟨ascii "cn.example", .direct, [.v4 0xCB007109#32], hour⟩ .flush,
      .expire .listed .none,
      .observe ⟨ascii "cn.example", .direct, [.v4 0xCB007108#32], hour⟩ .early]
    2 (by decide)).2.mpr ⟨by decide +kernel, by decide +kernel⟩

/-- Refreshes of one entry exceed every bound on the heap, whatever the capacity.
The notes of three addresses stay when the table is empty again. -/
theorem refreshes_exceed_every_bound :
    let refresh : FaultyCall :=
      .observe ⟨ascii "cn.example", .direct, [.v4 0xCB007108#32], 301 * second⟩ .none
    let lapsed : Learner NftSets :=
      [.observe ⟨ascii "cn.example", .direct, [.v4 0xCB007108#32], 3 * second⟩ .none,
        .observe ⟨ascii "cn.example", .direct, [.v4 0xCB007109#32], 3 * second⟩ .none,
        .observe ⟨ascii "cn.example", .direct, [.v4 0xCB00710A#32], 3 * second⟩ .none,
        .expire .listed .none].foldl (Learner.callFaulty .ofFlag secondsClock) (newNftLearner 1)
    (∀ (capacity : Int) (bound : Nat), ¬ Learner.Within bound
      ((List.replicate (bound + 1) refresh).foldl (Learner.callFaulty .ofFlag fun _ => second)
        (newNftLearner capacity))) ∧
      lapsed.table.entries.keys = [] ∧ lapsed.table.expirations = [] ∧
      lapsed.sets.states.keys.length = 3 := by
  intro refresh lapsed
  have hsighting : refresh.sightings =
      [⟨⟨ascii "cn.example", .direct, .v4 0xCB007108#32⟩, 301 * second⟩] := by decide
  refine ⟨fun capacity bound hwithin => ?_, by decide +kernel⟩
  have hlate : ∀ item ∈ (List.replicate (bound + 1) refresh).flatMap FaultyCall.sightings,
      ∀ _ : Nat, second < item.expires := by
    intro item hitem _
    obtain ⟨c, hc, hitem⟩ := List.mem_flatMap.mp hitem
    rw [List.eq_of_mem_replicate hc, hsighting, List.mem_singleton] at hitem
    rw [hitem]
    decide
  have hheap := hwithin.table.expirations
  rw [length_expirations_run, pendingSightings_of_late hlate, List.length_flatMap,
    List.map_replicate, List.sum_replicate_nat, hsighting, List.length_singleton] at hheap
  omega

end Hy2Route.Firewall
