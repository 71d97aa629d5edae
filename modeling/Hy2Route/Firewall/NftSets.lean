import Hy2Route.Firewall.Learner

/-!
# The kernel sets and their client

The client remembers the state it last gave each address. An update deletes the
address from the set of that state and adds it to the set of the new one, and
the whole batch is applied at once or refused.

## Implementation notes

A set maps its elements to the instants at which they lapse, if they do. When an
added element lapses is up to the netlink library and the kernel, and a parameter
here. The kernel refuses to delete an element that a set does not hold, which fails
the batch while the client has already noted the new states.
-/

namespace Hy2Route.Firewall

open Foundation Policy

inductive SetName where
  | direct4
  | inspect4
  deriving DecidableEq

/-- The state whose addresses a set holds. -/
def SetName.state : SetName → SetState
  | .direct4 => .direct
  | .inspect4 => .inspect

/-- A set as it is described to the netlink library. -/
structure NftSet where
  name : SetName
  hasTimeout : Bool

/-- The sets of a new client, which leaves the timeout flag unset. -/
def clientSet (name : SetName) : NftSet := ⟨name, false⟩

/-- When an element lapses that is added with a timeout, if it does: what the netlink
library sends of the timeout, and what the kernel makes of it. -/
structure Timeouts where
  lapses : NftSet → (now timeout : Int) → Option Int
  /-- no element lapses at once -/
  later : ∀ set now timeout deadline, 0 < timeout → lapses set now timeout = some deadline →
    now < deadline

namespace Timeouts

/-- Elements of a set without the flag stay until they are deleted. -/
def KeepsUnflagged (timeouts : Timeouts) : Prop :=
  ∀ set now timeout, set.hasTimeout = false → timeouts.lapses set now timeout = none

/-- Elements of a set with the flag lapse, and no others. -/
def ofFlag : Timeouts where
  lapses set now timeout := if set.hasTimeout then some (now + timeout) else none
  later set now timeout deadline hpos h := by
    split_ifs at h
    cases h
    omega

/-- Every element lapses after its timeout. -/
def always : Timeouts where
  lapses _ now timeout := some (now + timeout)
  later set now timeout deadline hpos h := by
    cases h
    omega

end Timeouts

/-- The elements of a set with their deadlines. -/
abbrev KernelSet := AList fun _ : Addr => Option Int

structure Kernel where
  direct4 : KernelSet
  inspect4 : KernelSet

namespace Kernel

def get (kernel : Kernel) : SetName → KernelSet
  | .direct4 => kernel.direct4
  | .inspect4 => kernel.inspect4

def put (kernel : Kernel) (elements : KernelSet) : SetName → Kernel
  | .direct4 => { kernel with direct4 := elements }
  | .inspect4 => { kernel with inspect4 := elements }

theorem get_put (kernel : Kernel) (elements : KernelSet) (set other : SetName) :
    (kernel.put elements set).get other = if other = set then elements else kernel.get other := by
  cases set <;> cases other <;> rfl

/-- The address is an element that has not lapsed. -/
def holds (kernel : Kernel) (set : SetName) (ip : Addr) (now : Int) : Bool :=
  match (kernel.get set).lookup ip with
  | some (some deadline) => now < deadline
  | some none => true
  | none => false

end Kernel

inductive NftMessage where
  | delete (set : SetName) (ip : Addr)
  | add (set : SetName) (ip : Addr) (timeout : Int)

inductive NftError where
  /-- a deleted element is not in its set -/
  | noElement
  deriving DecidableEq

def NftMessage.apply (timeouts : Timeouts) (now : Int) (kernel : Kernel) :
    NftMessage → Option Kernel
  | .delete set ip =>
      if kernel.holds set ip now then some (kernel.put ((kernel.get set).erase ip) set) else none
  | .add set ip timeout =>
      let deadline := timeouts.lapses (clientSet set) now timeout
      some (kernel.put ((kernel.get set).insert ip deadline) set)

def clampTTL (ttl : Int) : Int :=
  if ttl < second then second
  else if 24 * hour < ttl then 24 * hour
  else ttl

/-- The states the client has given out, and the kernel's sets. -/
structure NftSets where
  states : AList fun _ : Addr => SetState
  kernel : Kernel

/-- The messages of one update. -/
def updateMessages (states : AList fun _ : Addr => SetState) (update : SetUpdate) :
    List NftMessage :=
  (match (states.lookup update.ip).getD .none with
    | .direct => [.delete .direct4 update.ip]
    | .inspect => [.delete .inspect4 update.ip]
    | .none => []) ++
  match update.state with
  | .direct => [.add .direct4 update.ip (clampTTL update.ttl)]
  | .inspect => [.add .inspect4 update.ip (clampTTL update.ttl)]
  | .none => []

/-- The states and the messages of a batch, in the order of its updates. -/
def queueUpdates : List SetUpdate → (AList fun _ : Addr => SetState) →
    (AList fun _ : Addr => SetState) × List NftMessage
  | [], states => (states, [])
  | update :: rest, states =>
      let (after, messages) := queueUpdates rest (states.insert update.ip update.state)
      (after, updateMessages states update ++ messages)

/-- Apply a batch, all or nothing. -/
def flush (timeouts : Timeouts) (now : Int) (kernel : Kernel) (messages : List NftMessage) :
    Option Kernel :=
  messages.foldlM (fun kernel message => message.apply timeouts now kernel) kernel

def nftSetClient (timeouts : Timeouts) : SetClient NftSets NftError where
  replace now updates sets :=
    let (states, messages) := queueUpdates updates sets.states
    match flush timeouts now sets.kernel messages with
    | some kernel => (⟨states, kernel⟩, none)
    | none => (⟨states, sets.kernel⟩, some .noElement)

/-! ## What an applied batch leaves -/

/-- Every element of a set has that set's state in the client's notes. -/
def NftSets.Tracked (sets : NftSets) : Prop :=
  ∀ set ip deadline, (sets.kernel.get set).lookup ip = some deadline →
    sets.states.lookup ip = some set.state

/-- What a set holds for an address after an update. -/
def placed (timeouts : Timeouts) (now : Int) (set : SetName) (update : SetUpdate) :
    Option (Option Int) :=
  if update.state = set.state then
    some (timeouts.lapses (clientSet set) now (clampTTL update.ttl))
  else none

variable {timeouts : Timeouts}

theorem lookup_erase_put (kernel : Kernel) (set other : SetName) (ip found : Addr) :
    ((kernel.put ((kernel.get set).erase ip) set).get other).lookup found =
      if other = set ∧ found = ip then none else (kernel.get other).lookup found := by
  rw [Kernel.get_put]
  by_cases hset : other = set
  · subst hset
    by_cases hip : found = ip
    · subst hip
      simp
    · simp [hip, AList.lookup_erase_ne]
  · simp [hset]

theorem lookup_insert_put (kernel : Kernel) (set other : SetName) (ip found : Addr)
    (deadline : Option Int) :
    ((kernel.put ((kernel.get set).insert ip deadline) set).get other).lookup found =
      if other = set ∧ found = ip then some deadline else (kernel.get other).lookup found := by
  rw [Kernel.get_put]
  by_cases hset : other = set
  · subst hset
    by_cases hip : found = ip
    · subst hip
      simp
    · simp [hip, AList.lookup_insert_ne]
  · simp [hset]

theorem SetName.state_inj {set other : SetName} (h : set.state = other.state) : set = other := by
  cases set <;> cases other <;> first | rfl | cases h

theorem flush_append (now : Int) (kernel : Kernel) (messages more : List NftMessage) :
    flush timeouts now kernel (messages ++ more) =
      (flush timeouts now kernel messages).bind fun middle => flush timeouts now middle more :=
  List.foldlM_append

theorem flush_singleton (now : Int) (kernel : Kernel) (message : NftMessage) :
    flush timeouts now kernel [message] = message.apply timeouts now kernel := by
  simp [flush]

/-- A set does not hold an address that is noted under another state. -/
theorem NftSets.Tracked.lookup_eq_none {sets : NftSets} (h : sets.Tracked) {set : SetName}
    {ip : Addr} (hstate : (sets.states.lookup ip).getD .none ≠ set.state) :
    (sets.kernel.get set).lookup ip = none := by
  by_contra hsome
  obtain ⟨deadline, hl⟩ := Option.ne_none_iff_exists'.mp hsome
  exact hstate (by rw [h set ip deadline hl, Option.getD_some])

/-- A deletion from the set where an address is noted takes it out of every set. -/
theorem flush_delete {now : Int} {sets : NftSets} (h : sets.Tracked) {set : SetName} {ip : Addr}
    (hstate : (sets.states.lookup ip).getD .none = set.state) {cleared : Kernel}
    (hrun : flush timeouts now sets.kernel [.delete set ip] = some cleared) (other : SetName)
    (found : Addr) :
    (cleared.get other).lookup found =
      if found = ip then none else (sets.kernel.get other).lookup found := by
  rw [flush_singleton, NftMessage.apply] at hrun
  split_ifs at hrun
  rw [← Option.some.inj hrun, lookup_erase_put]
  by_cases hip : found = ip
  · subst hip
    by_cases hset : other = set
    · rw [if_pos ⟨hset, rfl⟩, if_pos rfl]
    · have hne : (sets.states.lookup found).getD .none ≠ other.state := fun heq =>
        hset (SetName.state_inj (heq.symm.trans hstate))
      rw [if_neg (fun hboth => hset hboth.1), if_pos rfl, h.lookup_eq_none hne]
  · rw [if_neg (fun hboth => hip hboth.2), if_neg hip]

/-- The deletions of an update take its address out of every set. -/
theorem flush_deletions {now : Int} {sets : NftSets} (h : sets.Tracked) {ip : Addr}
    {cleared : Kernel}
    (hrun : flush timeouts now sets.kernel
      (match (sets.states.lookup ip).getD .none with
        | .direct => [.delete .direct4 ip]
        | .inspect => [.delete .inspect4 ip]
        | .none => []) = some cleared) (set : SetName) (found : Addr) :
    (cleared.get set).lookup found =
      if found = ip then none else (sets.kernel.get set).lookup found := by
  cases hstate : (sets.states.lookup ip).getD .none with
  | direct =>
      rw [hstate] at hrun
      have hnoted : (sets.states.lookup ip).getD .none = SetName.direct4.state := hstate
      exact flush_delete h hnoted hrun set found
  | inspect =>
      rw [hstate] at hrun
      have hnoted : (sets.states.lookup ip).getD .none = SetName.inspect4.state := hstate
      exact flush_delete h hnoted hrun set found
  | none =>
      rw [hstate] at hrun
      rw [← Option.some.inj hrun]
      by_cases hip : found = ip
      · subst hip
        rw [if_pos rfl]
        exact h.lookup_eq_none (by rw [hstate]; cases set <;> simp [SetName.state])
      · rw [if_neg hip]

/-- The addition of an update puts its address into the set of its state. -/
theorem flush_addition {now : Int} {cleared middle : Kernel} {update : SetUpdate}
    (hcleared : ∀ set, (cleared.get set).lookup update.ip = none)
    (hrun : flush timeouts now cleared
      (match update.state with
        | .direct => [.add .direct4 update.ip (clampTTL update.ttl)]
        | .inspect => [.add .inspect4 update.ip (clampTTL update.ttl)]
        | .none => []) = some middle) (set : SetName) (found : Addr) :
    (middle.get set).lookup found =
      if found = update.ip then placed timeouts now set update
      else (cleared.get set).lookup found := by
  have hadd (name : SetName) (hstate : update.state = name.state)
      (hadded : flush timeouts now cleared [.add name update.ip (clampTTL update.ttl)] =
        some middle) :
      (middle.get set).lookup found =
        if found = update.ip then placed timeouts now set update
        else (cleared.get set).lookup found := by
    rw [← Option.some.inj hadded, lookup_insert_put, placed, hstate]
    by_cases hip : found = update.ip
    · subst hip
      by_cases hset : set = name
      · simp [hset]
      · have hne : name.state ≠ set.state := fun heq => hset (SetName.state_inj heq).symm
        simp [hset, hcleared, hne]
    · simp [hip]
  cases hstate : update.state with
  | direct =>
      rw [hstate] at hrun
      exact hadd .direct4 hstate hrun
  | inspect =>
      rw [hstate] at hrun
      exact hadd .inspect4 hstate hrun
  | none =>
      rw [hstate] at hrun
      rw [← Option.some.inj hrun]
      by_cases hip : found = update.ip
      · rw [if_pos hip, hip, hcleared, placed, hstate, if_neg]
        cases set <;> simp [SetName.state]
      · rw [if_neg hip]

/-- An applied update moves its address into the set of its state, out of every
other, and changes no other address. -/
theorem flush_one {now : Int} {sets : NftSets} (h : sets.Tracked) {update : SetUpdate}
    {middle : Kernel}
    (hrun : flush timeouts now sets.kernel (updateMessages sets.states update) = some middle) :
    NftSets.Tracked ⟨sets.states.insert update.ip update.state, middle⟩ ∧ ∀ set found,
      (middle.get set).lookup found =
        if found = update.ip then placed timeouts now set update
        else (sets.kernel.get set).lookup found := by
  rw [updateMessages, flush_append] at hrun
  obtain ⟨cleared, hdeleted, hadded⟩ := Option.bind_eq_some_iff.mp hrun
  have hcleared := flush_deletions h hdeleted
  have hmiddle (set : SetName) (found : Addr) : (middle.get set).lookup found =
      if found = update.ip then placed timeouts now set update
      else (sets.kernel.get set).lookup found := by
    rw [flush_addition (fun set => by rw [hcleared, if_pos rfl]) hadded, hcleared]
    by_cases hip : found = update.ip
    · rw [if_pos hip, if_pos hip]
    · rw [if_neg hip, if_neg hip, if_neg hip]
  refine ⟨fun set ip deadline hl => ?_, hmiddle⟩
  change (sets.states.insert update.ip update.state).lookup ip = some set.state
  change (middle.get set).lookup ip = some deadline at hl
  rw [hmiddle] at hl
  by_cases hip : ip = update.ip
  · subst hip
    rw [if_pos rfl, placed] at hl
    split_ifs at hl with hstate
    rw [AList.lookup_insert, hstate]
  · rw [if_neg hip] at hl
    rw [AList.lookup_insert_ne hip]
    exact h set ip deadline hl

/-- An applied batch places every address as its last update says. -/
theorem flush_updates {now : Int} (updates : List SetUpdate)
    {states : AList fun _ : Addr => SetState} {kernel after : Kernel}
    (h : NftSets.Tracked ⟨states, kernel⟩)
    (hrun : flush timeouts now kernel (queueUpdates updates states).2 = some after) :
    NftSets.Tracked ⟨(queueUpdates updates states).1, after⟩ ∧ ∀ set ip,
      (after.get set).lookup ip =
        match lastUpdate updates ip with
        | some update => placed timeouts now set update
        | none => (kernel.get set).lookup ip := by
  induction updates generalizing states kernel with
  | nil =>
      have hsame : kernel = after := Option.some.inj hrun
      subst hsame
      exact ⟨h, fun _ _ => rfl⟩
  | cons update rest ih =>
      rw [queueUpdates, flush_append] at hrun
      obtain ⟨middle, hfirst, hflush⟩ := Option.bind_eq_some_iff.mp hrun
      obtain ⟨htracked, hmiddle⟩ := flush_one h hfirst
      obtain ⟨hdone, hafter⟩ := ih htracked hflush
      refine ⟨hdone, fun set ip => ?_⟩
      rw [hafter, ← List.singleton_append, lastUpdate_append]
      cases lastUpdate rest ip with
      | some found => rfl
      | none =>
          rw [Option.none_or]
          change (middle.get set).lookup ip = _
          rw [hmiddle]
          by_cases hip : ip = update.ip
          · subst hip
            simp [lastUpdate]
          · simp [lastUpdate, hip, Ne.symm hip]

/-- A replacement that succeeds keeps the notes in step with the kernel and
places every address as its last update says. -/
theorem replace_spec {now : Int} {updates : List SetUpdate} {sets : NftSets} (h : sets.Tracked)
    (hok : ((nftSetClient timeouts).replace now updates sets).2 = none) :
    ((nftSetClient timeouts).replace now updates sets).1.Tracked ∧ ∀ set ip,
      (((nftSetClient timeouts).replace now updates sets).1.kernel.get set).lookup ip =
        match lastUpdate updates ip with
        | some update => placed timeouts now set update
        | none => (sets.kernel.get set).lookup ip := by
  cases hrun : flush timeouts now sets.kernel (queueUpdates updates sets.states).2 with
  | none => simp [nftSetClient, hrun] at hok
  | some kernel =>
      simp only [nftSetClient, hrun]
      exact flush_updates updates h hrun

end Hy2Route.Firewall
