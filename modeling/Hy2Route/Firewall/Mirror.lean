import Hy2Route.Firewall.NftSets
import Hy2Route.Foundation.Runs

/-!
# The client's notes and the kernel

The client decides from its notes what a batch deletes. The notes are written
before the batch is applied, so a call that fails midway leaves them ahead of the
kernel. They do not lapse, so a batch is refused once an element of it has lapsed;
but the client's sets do not have the timeout flag.
-/

namespace Hy2Route.Firewall

open Foundation Policy

theorem SetName.state_ne_none (set : SetName) : set.state ≠ .none := by
  cases set <;> decide

/-- The state that the client has noted for an address. -/
def noted (sets : NftSets) (ip : Addr) : SetState := (sets.states.lookup ip).getD .none

/-! ## The deletions of a batch -/

/-- Every deletion of a batch names an element that its set holds at that point. -/
def DeletionsPresent (timeouts : Timeouts) (now : Int) : Kernel → List NftMessage → Prop
  | _, [] => True
  | kernel, .delete set ip :: rest =>
      kernel.holds set ip now = true ∧
        DeletionsPresent timeouts now (kernel.put ((kernel.get set).erase ip) set) rest
  | kernel, .add set ip timeout :: rest =>
      let deadline := timeouts.lapses (clientSet set) now timeout
      DeletionsPresent timeouts now (kernel.put ((kernel.get set).insert ip deadline) set) rest

variable {timeouts : Timeouts}

/-- The kernel applies exactly the batches whose deletions are present. -/
theorem flush_isSome_iff (now : Int) (kernel : Kernel) (messages : List NftMessage) :
    (flush timeouts now kernel messages).isSome = true ↔
      DeletionsPresent timeouts now kernel messages := by
  induction messages generalizing kernel with
  | nil => simp [flush, DeletionsPresent]
  | cons message rest ih =>
      cases message with
      | delete set ip =>
          by_cases hheld : kernel.holds set ip now = true
          · simp only [DeletionsPresent, hheld, true_and, ← ih]
            simp [flush, NftMessage.apply, hheld]
          · simp [DeletionsPresent, flush, NftMessage.apply, hheld]
      | add set ip timeout =>
          simp only [DeletionsPresent, ← ih]
          simp [flush, NftMessage.apply]

theorem second_le_clampTTL (ttl : Int) : second ≤ clampTTL ttl := by
  unfold clampTTL
  split_ifs with hlow hhigh
  · exact le_refl _
  · decide
  · exact not_lt.mp hlow

/-- An update leaves its address in the set of its state, unlapsed. -/
theorem lt_of_placed {now deadline : Int} {set : SetName} {update : SetUpdate}
    (h : placed timeouts now set update = some (some deadline)) : now < deadline := by
  unfold placed at h
  split_ifs at h
  have hpos : 0 < clampTTL update.ttl :=
    lt_of_lt_of_le (by decide) (second_le_clampTTL update.ttl)
  exact timeouts.later _ _ _ _ hpos (Option.some.inj h)

/-- The set that the client has noted for an address holds it. -/
def Present (sets : NftSets) (now : Int) (ip : Addr) : Prop :=
  ∀ set : SetName, noted sets ip = set.state → sets.kernel.holds set ip now = true

theorem flush_updateMessages_isSome_iff (timeouts : Timeouts) (now : Int) (sets : NftSets)
    (update : SetUpdate) :
    (flush timeouts now sets.kernel (updateMessages sets.states update)).isSome = true ↔
      Present sets now update.ip := by
  have hset (P : SetName → Prop) : (∀ set, P set) ↔ P .direct4 ∧ P .inspect4 :=
    ⟨fun h => ⟨h _, h _⟩, fun h set => by cases set <;> simp [h]⟩
  rw [flush_isSome_iff, Present, hset, updateMessages]
  cases hnoted : noted sets update.ip <;> unfold noted at hnoted <;>
    cases update.state <;> simp [hnoted, DeletionsPresent, SetName.state]

/-- After an applied update its own address is where the notes say, and every other
address is where it was. -/
theorem present_after_update {now : Int} {sets : NftSets} {update : SetUpdate} {middle : Kernel}
    (hplaced : ∀ set found, (middle.get set).lookup found =
      if found = update.ip then placed timeouts now set update
      else (sets.kernel.get set).lookup found) (ip : Addr) :
    Present ⟨sets.states.insert update.ip update.state, middle⟩ now ip ↔
      ip = update.ip ∨ Present sets now ip := by
  by_cases hip : ip = update.ip
  · subst hip
    refine iff_of_true (fun set hstate => ?_) (Or.inl rfl)
    have hstate' : update.state = set.state := by simpa [noted] using hstate
    have hlookup := hplaced set update.ip
    rw [if_pos rfl] at hlookup
    simp only [Kernel.holds, hlookup]
    cases hlapses : timeouts.lapses (clientSet set) now (clampTTL update.ttl) with
    | none => simp [placed, hstate', hlapses]
    | some deadline =>
        have hsome : placed timeouts now set update = some (some deadline) := by
          simp [placed, hstate', hlapses]
        simp [hsome, lt_of_placed hsome]
  · simp only [hip, false_or, Present, noted, Kernel.holds, hplaced, if_false,
      AList.lookup_insert_ne hip]

/-- A batch of updates is applied exactly when every listed address is where the
notes say. -/
theorem flush_queueUpdates_isSome_iff (timeouts : Timeouts) (now : Int)
    (updates : List SetUpdate) {sets : NftSets} (h : sets.Tracked) :
    (flush timeouts now sets.kernel (queueUpdates updates sets.states).2).isSome = true ↔
      ∀ update ∈ updates, Present sets now update.ip := by
  induction updates generalizing sets with
  | nil => simp [queueUpdates, flush]
  | cons update rest ih =>
      have hfirst := flush_updateMessages_isSome_iff timeouts now sets update
      simp only [queueUpdates, flush_append, List.forall_mem_cons]
      cases hrun : flush timeouts now sets.kernel (updateMessages sets.states update) with
      | none =>
          rw [hrun] at hfirst
          have hlost : ¬ Present sets now update.ip := fun hpresent =>
            absurd (hfirst.mpr hpresent) (by simp)
          simp [hlost]
      | some middle =>
          rw [hrun] at hfirst
          have hpresent : Present sets now update.ip := hfirst.mp rfl
          obtain ⟨htracked, hplaced⟩ := flush_one h hrun
          rw [Option.bind_some, ih htracked]
          refine ⟨fun hrest => ⟨hpresent, fun next hnext => ?_⟩, fun hall next hnext => ?_⟩
          · rcases (present_after_update hplaced next.ip).mp (hrest next hnext) with hsame | hold
            · exact hsame ▸ hpresent
            · exact hold
          · exact (present_after_update hplaced next.ip).mpr (Or.inr (hall.2 next hnext))

/-- The notes after a batch are those of the last update of each address. -/
theorem lookup_queueUpdates (updates : List SetUpdate) (states : AList fun _ : Addr => SetState)
    (ip : Addr) :
    (queueUpdates updates states).1.lookup ip =
      ((lastUpdate updates ip).map (·.state)).or (states.lookup ip) := by
  induction updates generalizing states with
  | nil => rfl
  | cons update rest ih =>
      simp only [queueUpdates]
      rw [ih, ← List.singleton_append, lastUpdate_append]
      cases lastUpdate rest ip with
      | some found => rfl
      | none =>
          by_cases hip : ip = update.ip
          · subst hip
            simp [lastUpdate]
          · simp [lastUpdate, Ne.symm hip, AList.lookup_insert_ne hip]

theorem noted_queueUpdates (updates : List SetUpdate) (sets : NftSets) (kernel : Kernel)
    (ip : Addr) :
    noted ⟨(queueUpdates updates sets.states).1, kernel⟩ ip =
      ((lastUpdate updates ip).map (·.state)).getD (noted sets ip) := by
  simp only [noted, lookup_queueUpdates]
  cases lastUpdate updates ip <;> rfl

/-! ## Elements that lapse -/

/-- A call of the client and its time. -/
structure Batch where
  now : Int
  updates : List SetUpdate

def NftSets.empty : NftSets := ⟨∅, ⟨∅, ∅⟩⟩

def NftSets.replace (timeouts : Timeouts) (sets : NftSets) (batch : Batch) : NftSets :=
  ((nftSetClient timeouts).replace batch.now batch.updates sets).1

/-- The client reports no error. -/
def Succeeds (timeouts : Timeouts) (sets : NftSets) (batch : Batch) : Prop :=
  ((nftSetClient timeouts).replace batch.now batch.updates sets).2 = none

instance (timeouts : Timeouts) (sets : NftSets) (batch : Batch) :
    Decidable (Succeeds timeouts sets batch) :=
  inferInstanceAs (Decidable (_ = _))

/-- The latest update of an address, with the time of its call. -/
def lastPlacement (past : List Batch) (ip : Addr) : Option (Int × SetUpdate) :=
  past.reverse.findSome? fun batch => (lastUpdate batch.updates ip).map (batch.now, ·)

/-- The element that the latest update of the address added has not lapsed. -/
def Unlapsed (timeouts : Timeouts) (past : List Batch) (now : Int) (ip : Addr) : Prop :=
  ∀ time update set deadline, lastPlacement past ip = some (time, update) →
    update.state = set.state →
    timeouts.lapses (clientSet set) time (clampTTL update.ttl) = some deadline → now < deadline

theorem lastPlacement_concat (past : List Batch) (batch : Batch) (ip : Addr) :
    lastPlacement (past ++ [batch]) ip =
      ((lastUpdate batch.updates ip).map (batch.now, ·)).or (lastPlacement past ip) := by
  simp only [lastPlacement, List.reverse_append, List.reverse_singleton, List.singleton_append,
    List.findSome?_cons]
  cases lastUpdate batch.updates ip <;> rfl

/-- What calls that succeed leave: every address is noted and held as its latest
update says. -/
structure PlacedBy (timeouts : Timeouts) (past : List Batch) (sets : NftSets) : Prop where
  tracked : sets.Tracked
  held : ∀ set ip, (sets.kernel.get set).lookup ip =
    (lastPlacement past ip).bind fun place => placed timeouts place.1 set place.2
  notes : ∀ ip, noted sets ip = ((lastPlacement past ip).map (·.2.state)).getD .none

theorem PlacedBy.step {past : List Batch} {sets : NftSets} (h : PlacedBy timeouts past sets)
    {batch : Batch} (hok : Succeeds timeouts sets batch) :
    PlacedBy timeouts (past ++ [batch]) (sets.replace timeouts batch) := by
  obtain ⟨htracked, hplaced⟩ := replace_spec h.tracked hok
  refine ⟨htracked, fun set ip => ?_, fun ip => ?_⟩
  · have hlookup := hplaced set ip
    rw [lastPlacement_concat]
    change ((sets.replace timeouts batch).kernel.get set).lookup ip = _ at hlookup
    rw [hlookup]
    cases lastUpdate batch.updates ip with
    | some update => rfl
    | none => exact h.held set ip
  · have hstates : (sets.replace timeouts batch).states =
        (queueUpdates batch.updates sets.states).1 := by
      simp only [NftSets.replace, nftSetClient]
      split <;> rfl
    have hnoted := noted_queueUpdates batch.updates sets (sets.replace timeouts batch).kernel ip
    rw [← hstates] at hnoted
    rw [lastPlacement_concat]
    change noted (sets.replace timeouts batch) ip = _ at hnoted
    rw [hnoted, h.notes]
    cases lastUpdate batch.updates ip <;> rfl

theorem placedBy_run {past : List Batch}
    (h : Allowed (NftSets.replace timeouts) (Succeeds timeouts) .empty past) :
    PlacedBy timeouts past (past.foldl (NftSets.replace timeouts) .empty) := by
  induction past using List.reverseRecOn with
  | nil =>
      refine ⟨fun set ip deadline hl => ?_, fun set ip => ?_, fun ip => rfl⟩
      · cases set <;> simp [NftSets.empty, Kernel.get] at hl
      · cases set <;> rfl
  | append_singleton past batch ih =>
      obtain ⟨hpast, hlast⟩ := allowed_append.mp h
      rw [List.foldl_append]
      exact (ih hpast).step hlast.1

theorem PlacedBy.present_iff {past : List Batch} {sets : NftSets}
    (h : PlacedBy timeouts past sets) (now : Int) (ip : Addr) :
    Present sets now ip ↔ Unlapsed timeouts past now ip := by
  simp only [Present, Unlapsed, Kernel.holds, h.held, h.notes]
  cases hplace : lastPlacement past ip with
  | none => simp [(SetName.state_ne_none _).symm]
  | some place =>
      obtain ⟨time, update⟩ := place
      simp only [Option.map_some, Option.getD_some, Option.bind_some, placed]
      constructor
      · rintro hheld time update set deadline ⟨⟩ hstate hlapses
        simpa [hstate, hlapses] using hheld set hstate
      · intro hlive set hset
        cases hlapses : timeouts.lapses (clientSet set) time (clampTTL update.ttl) with
        | none => simp [hset]
        | some deadline => simpa [hset] using hlive time update set deadline rfl hset hlapses

/-- After calls that succeed, the deletions of the next batch are all present
exactly when none of its addresses has an element that has lapsed since its latest
update. -/
theorem deletions_present_iff (past : List Batch)
    (hpast : Allowed (NftSets.replace timeouts) (Succeeds timeouts) .empty past) (now : Int)
    (updates : List SetUpdate) :
    let sets := past.foldl (NftSets.replace timeouts) .empty
    DeletionsPresent timeouts now sets.kernel (queueUpdates updates sets.states).2 ↔
      ∀ update ∈ updates, Unlapsed timeouts past now update.ip := by
  intro sets
  have hplaced := placedBy_run hpast
  rw [← flush_isSome_iff, flush_queueUpdates_isSome_iff timeouts now updates hplaced.tracked]
  exact forall₂_congr fun update _ => hplaced.present_iff now update.ip

/-- The client's sets have no timeout flag. Where elements of such sets stay, whatever
becomes of others, every deletion of a batch is present after calls that succeed, at
any time, and the batch is applied. -/
theorem deletions_present (timeouts : Timeouts) (hkeeps : timeouts.KeepsUnflagged)
    (past : List Batch)
    (hpast : Allowed (NftSets.replace timeouts) (Succeeds timeouts) .empty past) (now : Int)
    (updates : List SetUpdate) :
    let sets := past.foldl (NftSets.replace timeouts) .empty
    DeletionsPresent timeouts now sets.kernel (queueUpdates updates sets.states).2 ∧
      Succeeds timeouts sets ⟨now, updates⟩ := by
  intro sets
  have hpresent : DeletionsPresent timeouts now sets.kernel
      (queueUpdates updates sets.states).2 := by
    refine (deletions_present_iff past hpast now updates).mpr fun update _ time found set
      deadline _ _ hlapses => ?_
    rw [hkeeps _ _ _ rfl] at hlapses
    cases hlapses
  obtain ⟨kernel, hflush⟩ := Option.isSome_iff_exists.mp ((flush_isSome_iff _ _ _).mpr hpresent)
  refine ⟨hpresent, ?_⟩
  simp only [Succeeds, nftSetClient, hflush]

/-- An address that is observed again long after its timeout. -/
theorem deletions_present_after_hours :
    let ip := Addr.v4 0xCB007108#32
    let past : List Batch := [⟨0, [⟨ip, .direct, hour⟩]⟩]
    let sets := past.foldl (NftSets.replace .ofFlag) .empty
    DeletionsPresent .ofFlag (2 * hour) sets.kernel
        (queueUpdates [⟨ip, .inspect, hour⟩, ⟨ip, .none, hour⟩] sets.states).2 ∧
      Succeeds .ofFlag sets ⟨2 * hour, [⟨ip, .inspect, hour⟩, ⟨ip, .none, hour⟩]⟩ :=
  deletions_present .ofFlag (fun set now timeout h => by simp [Timeouts.ofFlag, h]) _
    (by decide) _ _

/-! ## Calls that fail -/

/-- What goes wrong outside the client during a call. -/
inductive Fault where
  | none
  /-- the context is done, or there is no netlink connection -/
  | early
  /-- the addition of the update at this place is refused -/
  | add (place : Nat)
  /-- the flush fails, leaving the kernel unchanged -/
  | flush
  deriving DecidableEq

structure ReplaceCall where
  batch : Batch
  fault : Fault

inductive ReplaceError where
  | early
  | add
  | flush
  | kernel (err : NftError)
  deriving DecidableEq

/-- The updates whose states a call has noted when it fails; an update without an
addition cannot be refused. -/
def ReplaceCall.notedUpdates (call : ReplaceCall) : Option (List SetUpdate) :=
  match call.fault with
  | .none => .none
  | .early => some []
  | .add place =>
      match call.batch.updates[place]? with
      | some update =>
          if update.state = .none then .none else some (call.batch.updates.take place)
      | .none => .none
  | .flush => some call.batch.updates

def ReplaceCall.error (call : ReplaceCall) : ReplaceError :=
  match call.fault with
  | .add _ => .add
  | .flush => .flush
  | _ => .early

/-- A call of the client with what goes wrong during it. -/
def NftSets.replaceFaulty (timeouts : Timeouts) (sets : NftSets) (call : ReplaceCall) :
    NftSets × Option ReplaceError :=
  match call.notedUpdates with
  | some updates => (⟨(queueUpdates updates sets.states).1, sets.kernel⟩, some call.error)
  | none =>
      let (after, err) := (nftSetClient timeouts).replace call.batch.now call.batch.updates sets
      (after, err.map .kernel)

def NftSets.callFaulty (timeouts : Timeouts) (sets : NftSets) (call : ReplaceCall) : NftSets :=
  (sets.replaceFaulty timeouts call).1

/-- No element of the sets has timed out when the call is made. -/
def NoTimeout (sets : NftSets) (call : ReplaceCall) : Prop :=
  ∀ set ip deadline, (sets.kernel.get set).lookup ip = some (some deadline) →
    call.batch.now < deadline

instance (sets : NftSets) (call : ReplaceCall) : Decidable (NoTimeout sets call) :=
  decidable_of_iff (∀ set ∈ [SetName.direct4, .inspect4],
      ∀ entry ∈ (sets.kernel.get set).entries, ∀ deadline ∈ entry.2, call.batch.now < deadline)
    ⟨fun h set ip deadline hlookup => h set (by cases set <;> simp) ⟨ip, some deadline⟩
        (AList.mem_lookup_iff.mp hlookup) deadline rfl,
      fun h set _ entry hmem deadline hdeadline => h set entry.1 deadline
        (AList.mem_lookup_iff.mpr (by rwa [← Option.mem_def.mp hdeadline]))⟩

/-- Each address is in the set that the notes say, and in no other. -/
def InStep (sets : NftSets) (now : Int) : Prop :=
  ∀ set ip, sets.kernel.holds set ip now = true ↔ noted sets ip = set.state

/-- A call leaves the notes in step with the kernel. If it fails, they are as they
were; if not, every address is in exactly the requested set. -/
structure Mirrors (timeouts : Timeouts) (sets : NftSets) (call : ReplaceCall) : Prop where
  in_step : InStep (sets.callFaulty timeouts call) call.batch.now
  kept : (sets.replaceFaulty timeouts call).2 ≠ none →
    ∀ ip, noted (sets.callFaulty timeouts call) ip = noted sets ip
  requested : (sets.replaceFaulty timeouts call).2 = none → ∀ ip update,
    lastUpdate call.batch.updates ip = some update → ∀ set,
      (sets.callFaulty timeouts call).kernel.holds set ip call.batch.now = true ↔
        update.state = set.state
  exclusive : ∀ ip,
    ¬ ((sets.callFaulty timeouts call).kernel.holds .direct4 ip call.batch.now = true ∧
      (sets.callFaulty timeouts call).kernel.holds .inspect4 ip call.batch.now = true)

/-- The updates that a failing call has noted give no address a new state. -/
def Harmless (sets : NftSets) (call : ReplaceCall) : Prop :=
  ∀ updates, call.notedUpdates = some updates → ∀ ip update,
    lastUpdate updates ip = some update → noted sets ip = update.state

instance (sets : NftSets) (call : ReplaceCall) : Decidable (Harmless sets call) :=
  decidable_of_iff (∀ updates ∈ call.notedUpdates, ∀ update ∈ updates,
      lastUpdate updates update.ip = some update → noted sets update.ip = update.state)
    ⟨fun h updates hfault ip update hlast => by
        obtain ⟨hmem, rfl⟩ := mem_of_lastUpdate hlast
        exact h updates hfault update hmem hlast,
      fun h updates hfault update _ hlast => h updates hfault update.ip update hlast⟩

/-- The notes name the set of every element, and every noted address has one. -/
structure Matched (sets : NftSets) : Prop where
  tracked : sets.Tracked
  held : ∀ (set : SetName) ip, noted sets ip = set.state →
    ((sets.kernel.get set).lookup ip).isSome = true

theorem empty_matched : Matched .empty where
  tracked := by
    intro set ip deadline hl
    cases set <;> simp [NftSets.empty, Kernel.get] at hl
  held := fun set ip hnoted => absurd hnoted.symm set.state_ne_none

theorem InStep.exclusive {sets : NftSets} {now : Int} (h : InStep sets now) (ip : Addr) :
    ¬ (sets.kernel.holds .direct4 ip now = true ∧ sets.kernel.holds .inspect4 ip now = true) := by
  rintro ⟨hdirect, hinspect⟩
  have hboth := ((h _ _).mp hdirect).symm.trans ((h _ _).mp hinspect)
  exact absurd hboth (by decide)

/-- Notes that match the kernel are in step while nothing has timed out. -/
theorem Matched.inStep {sets : NftSets} (h : Matched sets) {now : Int}
    (hlive : ∀ set ip deadline, (sets.kernel.get set).lookup ip = some (some deadline) →
      now < deadline) : InStep sets now := by
  intro set ip
  unfold Kernel.holds
  cases hlookup : (sets.kernel.get set).lookup ip with
  | none =>
      refine iff_of_false (by simp) fun hnoted => ?_
      have hsome := h.held set ip hnoted
      rw [hlookup] at hsome
      cases hsome
  | some deadline =>
      have hnoted : noted sets ip = set.state := by
        simp [noted, h.tracked set ip deadline hlookup]
      refine iff_of_true ?_ hnoted
      cases deadline with
      | none => rfl
      | some deadline => exact decide_eq_true (hlive set ip deadline hlookup)

/-- A call that nothing disturbs succeeds and keeps the notes in step. -/
theorem Matched.replace {sets : NftSets} (h : Matched sets) {batch : Batch}
    (hlive : ∀ set ip deadline, (sets.kernel.get set).lookup ip = some (some deadline) →
      batch.now < deadline) :
    Succeeds timeouts sets batch ∧ Matched (sets.replace timeouts batch) ∧
      (∀ set ip deadline, ((sets.replace timeouts batch).kernel.get set).lookup ip =
        some (some deadline) → batch.now < deadline) ∧
      ∀ ip update, lastUpdate batch.updates ip = some update →
        noted (sets.replace timeouts batch) ip = update.state := by
  have hpresent : ∀ update ∈ batch.updates, Present sets batch.now update.ip :=
    fun update _ set hnoted => (h.inStep hlive set update.ip).mpr hnoted
  have hflush :=
    (flush_queueUpdates_isSome_iff timeouts batch.now batch.updates h.tracked).mpr hpresent
  obtain ⟨kernel, hkernel⟩ := Option.isSome_iff_exists.mp hflush
  have hafter : (nftSetClient timeouts).replace batch.now batch.updates sets =
      (⟨(queueUpdates batch.updates sets.states).1, kernel⟩, none) := by
    simp only [nftSetClient, hkernel]
  obtain ⟨htracked, hplaced⟩ := flush_updates batch.updates h.tracked hkernel
  have hnoted := noted_queueUpdates batch.updates sets kernel
  simp only [Succeeds, NftSets.replace, hafter]
  refine ⟨trivial, ⟨htracked, fun set ip hstate => ?_⟩, fun set ip deadline hlookup => ?_, ?_⟩
  · have hlookup := hplaced set ip
    rw [hnoted ip] at hstate
    cases hlast : lastUpdate batch.updates ip with
    | some update =>
        simp only [hlast, Option.map_some, Option.getD_some] at hstate hlookup
        simp [hlookup, placed, hstate]
    | none =>
        simp only [hlast, Option.map_none, Option.getD_none] at hstate hlookup
        rw [hlookup]
        exact h.held set ip hstate
  · have hfound := hplaced set ip
    change (kernel.get set).lookup ip = some (some deadline) at hlookup
    rw [hlookup] at hfound
    cases hlast : lastUpdate batch.updates ip with
    | some update =>
        rw [hlast] at hfound
        exact lt_of_placed hfound.symm
    | none =>
        rw [hlast] at hfound
        exact hlive set ip deadline hfound.symm
  · intro ip update hlast
    rw [hnoted ip, hlast]
    rfl

/-- What a failing call has noted changes nothing exactly when it is harmless. -/
theorem harmless_iff_kept (timeouts : Timeouts) {sets : NftSets} {call : ReplaceCall}
    {updates : List SetUpdate} (hfault : call.notedUpdates = some updates) :
    Harmless sets call ↔ ∀ ip, noted (sets.callFaulty timeouts call) ip = noted sets ip := by
  have hnoted (ip : Addr) : noted (sets.callFaulty timeouts call) ip =
      ((lastUpdate updates ip).map (·.state)).getD (noted sets ip) := by
    simp only [NftSets.callFaulty, NftSets.replaceFaulty, hfault]
    exact noted_queueUpdates updates sets sets.kernel ip
  simp only [Harmless, hfault, Option.some.injEq, forall_eq', hnoted]
  refine forall_congr' fun ip => ?_
  cases lastUpdate updates ip with
  | none => simp
  | some update => simp [eq_comm]

/-- A harmless failure leaves the notes matching the kernel. -/
theorem Matched.failed {sets : NftSets} (h : Matched sets) {call : ReplaceCall}
    {updates : List SetUpdate} (hfault : call.notedUpdates = some updates)
    (hharmless : Harmless sets call) : Matched (sets.callFaulty timeouts call) := by
  have hsame := (harmless_iff_kept timeouts hfault).mp hharmless
  have hafter : sets.callFaulty timeouts call =
      ⟨(queueUpdates updates sets.states).1, sets.kernel⟩ := by
    simp only [NftSets.callFaulty, NftSets.replaceFaulty, hfault]
  rw [hafter] at hsame ⊢
  refine ⟨fun set ip deadline hlookup => ?_, fun set ip hnoted => ?_⟩
  · have hold : sets.states.lookup ip = some set.state := h.tracked set ip deadline hlookup
    change (queueUpdates updates sets.states).1.lookup ip = some set.state
    rw [lookup_queueUpdates]
    cases hlast : lastUpdate updates ip with
    | none => exact hold
    | some update =>
        have hstate := hharmless updates hfault ip update hlast
        rw [noted, hold, Option.getD_some] at hstate
        simp [hstate]
  · rw [hsame ip] at hnoted
    exact h.held set ip hnoted

/-- A call on matching notes that does no harm keeps them matching, and mirrors. -/
theorem Matched.mirrors {sets : NftSets} (h : Matched sets) {call : ReplaceCall}
    (hlive : NoTimeout sets call) (hharmless : Harmless sets call) :
    Matched (sets.callFaulty timeouts call) ∧ Mirrors timeouts sets call := by
  cases hfault : call.notedUpdates with
  | some updates =>
      have hmatched : Matched (sets.callFaulty timeouts call) := h.failed hfault hharmless
      have hstep : InStep (sets.callFaulty timeouts call) call.batch.now := by
        apply hmatched.inStep
        simp only [NftSets.callFaulty, NftSets.replaceFaulty, hfault]
        exact hlive
      refine ⟨hmatched, hstep, fun _ => (harmless_iff_kept timeouts hfault).mp hharmless,
        fun hok => ?_, hstep.exclusive⟩
      simp [NftSets.replaceFaulty, hfault] at hok
  | none =>
      obtain ⟨hok, hmatched, hlater, hrequested⟩ := h.replace hlive
      have hafter : sets.callFaulty timeouts call = sets.replace timeouts call.batch := by
        simp only [NftSets.callFaulty, NftSets.replaceFaulty, hfault]
        rfl
      have herror : (sets.replaceFaulty timeouts call).2 = none := by
        simp only [NftSets.replaceFaulty, hfault]
        rw [hok]
        rfl
      have hstep : InStep (sets.callFaulty timeouts call) call.batch.now := by
        rw [hafter]
        exact hmatched.inStep hlater
      refine ⟨hafter ▸ hmatched, hstep, fun hfailed => absurd herror hfailed, ?_, hstep.exclusive⟩
      intro _ ip update hlast set
      rw [hstep set ip, hafter, hrequested ip update hlast]

/-- In a run in which nothing times out, every call mirrors exactly when every call
that fails after the start has noted no new state. -/
theorem replace_mirrors_iff (timeouts : Timeouts) (calls : List ReplaceCall)
    (hlive : Allowed (NftSets.callFaulty timeouts) NoTimeout .empty calls) :
    (∀ past call later, calls = past ++ call :: later →
      Mirrors timeouts (past.foldl (NftSets.callFaulty timeouts) .empty) call) ↔
    Allowed (NftSets.callFaulty timeouts) Harmless .empty calls := by
  constructor
  · intro hmirrors
    refine allowed_iff_forall_split.mpr fun past call later hsplit updates hfault => ?_
    have hkept := (hmirrors past call later hsplit).kept (by
      simp [NftSets.replaceFaulty, hfault])
    exact (harmless_iff_kept timeouts hfault).mpr hkept updates hfault
  · rintro hharmless past call later rfl
    obtain ⟨hlivePast, hliveCall, -⟩ := allowed_append.mp hlive
    obtain ⟨hharmlessPast, hharmlessCall, -⟩ := allowed_append.mp hharmless
    have hmatched : Matched (past.foldl (NftSets.callFaulty timeouts) .empty) :=
      (hlivePast.and hharmlessPast).invariant
        (fun sets call hboth hsets => (hsets.mirrors hboth.1 hboth.2).1) empty_matched
    exact (hmatched.mirrors hliveCall hharmlessCall).2

/-- A failed flush of a state that is already noted, between two calls that move the
address. -/
theorem replace_mirrors_repeated :
    let ip := Addr.v4 0xCB007108#32
    let calls : List ReplaceCall := [⟨⟨0, [⟨ip, .direct, hour⟩]⟩, .none⟩,
      ⟨⟨1, [⟨ip, .direct, hour⟩]⟩, .flush⟩, ⟨⟨2, [⟨ip, .inspect, hour⟩]⟩, .none⟩]
    ∀ past call later, calls = past ++ call :: later →
      Mirrors .always (past.foldl (NftSets.callFaulty .always) .empty) call :=
  (replace_mirrors_iff .always _ (by decide)).mpr (by decide)

/-- After a failed flush the notes name a set that does not hold the address, and the
next call that the kernel could apply is refused for it. -/
theorem failed_flush_leaves_notes :
    let ip := Addr.v4 0xCB007108#32
    let failed : ReplaceCall := ⟨⟨0, [⟨ip, .direct, hour⟩]⟩, .flush⟩
    let sets := NftSets.empty.callFaulty .always failed
    (NftSets.empty.replaceFaulty .always failed).2 = some .flush ∧
      noted NftSets.empty ip = .none ∧ noted sets ip = .direct ∧
      sets.kernel.holds .direct4 ip 0 = false ∧
      (sets.replaceFaulty .always ⟨⟨1, [⟨ip, .inspect, hour⟩]⟩, .none⟩).2 =
        some (.kernel .noElement) ∧
      ¬ Mirrors .always .empty failed := by
  intro ip failed sets
  refine ⟨rfl, rfl, by decide, by decide, by decide, fun hmirrors => ?_⟩
  exact absurd (hmirrors.kept (by decide) ip) (by decide)

end Hy2Route.Firewall
