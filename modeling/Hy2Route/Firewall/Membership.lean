import Hy2Route.Firewall.NftSets
import Hy2Route.Foundation.Runs
import Hy2Route.Policy.LearningRun

/-!
# Membership in the kernel sets over time

Every update is to put its address in a set for one hour, while each observation has
its own expiry. A set element is justified by a live observation as long as the
two lifetimes agree, or until the next update of the address, and nothing corrects
it in between.
-/

namespace Hy2Route.Firewall

open Foundation Policy

/-- The table holds an observation of the address that expires after the instant. -/
def HasLive (table : LearningTable) (ip : Addr) (action : Action) (now : Int) : Prop :=
  ∃ key expires, table.entries.lookup key = some expires ∧ key.ip = ip ∧ key.action = action ∧
    now < expires

instance (table : LearningTable) (ip : Addr) (action : Action) (now : Int) :
    Decidable (HasLive table ip action now) :=
  decidable_of_iff (∃ entry ∈ table.entries.entries, entry.1.ip = ip ∧ entry.1.action = action ∧
      now < entry.2)
    ⟨fun ⟨entry, hmem, hrest⟩ => ⟨entry.1, entry.2, AList.mem_lookup_iff.mpr hmem, hrest⟩,
      fun ⟨key, expires, hl, hrest⟩ => ⟨⟨key, expires⟩, AList.mem_lookup_iff.mp hl, hrest⟩⟩

/-- An address in `direct4` has a live direct observation, and one with direct
observations only is in `direct4`. -/
def Justified (l : Learner NftSets) (ip : Addr) (now : Int) : Prop :=
  (l.sets.kernel.holds .direct4 ip now = true → HasLive l.table ip .direct now) ∧
    (HasLive l.table ip .direct now → ¬ HasLive l.table ip .proxy now →
      l.sets.kernel.holds .direct4 ip now = true)

def newNftLearner (capacity : Int) : Learner NftSets where
  table := newLearningTable capacity
  sets := ⟨∅, ⟨∅, ∅⟩⟩
  reads := 0

def Learner.learn (clock : Nat → Int) (l : Learner NftSets) (observation : Observation) :
    Learner NftSets :=
  (l.observe (nftSetClient .always) clock observation).1

/-- The items of a direct address last as long as its set element, as far as
the horizon. -/
def DirectLasts (horizon deadline : Int) (items : List (ObservationKey × Int)) (ip : Addr) : Prop :=
  (∃ item ∈ items, item.1.ip = ip ∧ item.1.action = .direct ∧
    (deadline ≤ item.2 ∨ horizon < item.2)) ∧
  ∀ item ∈ items, item.1.ip = ip → item.1.action = .direct → item.2 ≤ deadline ∨ horizon < deadline

/-- The proxy items of an inspected address outlast its direct items, as far as
the horizon. -/
def InspectLasts (horizon : Int) (items : List (ObservationKey × Int)) (ip : Addr) : Prop :=
  ∀ item ∈ items, item.1.ip = ip → item.1.action = .direct →
    ∃ other ∈ items, other.1.ip = ip ∧ other.1.action = .proxy ∧
      (item.2 ≤ other.2 ∨ horizon < other.2)

instance (horizon deadline : Int) (items : List (ObservationKey × Int)) (ip : Addr) :
    Decidable (DirectLasts horizon deadline items ip) :=
  inferInstanceAs (Decidable (_ ∧ _))

instance (horizon : Int) (items : List (ObservationKey × Int)) (ip : Addr) :
    Decidable (InspectLasts horizon items ip) :=
  inferInstanceAs (Decidable (∀ item ∈ items, _))

/-- The lifetimes of a recorded observation: its addresses do not change state
while they are looked up, their items agree with the set element placed at the
end of the call, and no live item of another address is lost. -/
def LifetimesAgree (clock : Nat → Int) (horizon : Addr → Int) (l : Learner NftSets)
    (observation : Observation) : Prop :=
  let count := observation.ips.length
  let items := touchKeys l.table.capacity observation.keys observation.expires l.table.items
  let held := heldAfter clock items l.reads count
  (∀ ip ∈ observation.ips, stateAt (clock l.reads) items ip = impliedState held ip ∧
    (impliedState held ip = .direct →
      DirectLasts (horizon ip) (clock (l.reads + count) + hour) held ip) ∧
    (impliedState held ip = .inspect → InspectLasts (horizon ip) held ip)) ∧
  ∀ item ∈ l.table.items, item.1.ip ∉ observation.ips →
    clock (l.reads + count - 1) < item.2 → item ∈ held

/-- A call whose replacement succeeds, and which is recorded with agreeing
lifetimes or not at all. -/
def Timely (clock : Nat → Int) (horizon : Addr → Int) (l : Learner NftSets)
    (observation : Observation) : Prop :=
  (l.observe (nftSetClient .always) clock observation).2 ≠ some (.sets .noElement) ∧
    if observation.Acceptable then LifetimesAgree clock horizon l observation
    else observation.keys = []

instance (clock : Nat → Int) (horizon : Addr → Int) (l : Learner NftSets)
    (observation : Observation) : Decidable (LifetimesAgree clock horizon l observation) :=
  inferInstanceAs (Decidable (_ ∧ _))

instance (clock : Nat → Int) (horizon : Addr → Int) (l : Learner NftSets)
    (observation : Observation) : Decidable (Timely clock horizon l observation) :=
  inferInstanceAs (Decidable (_ ∧ _))

/-- When the element of an address is next replaced in a run, or else the horizon. -/
def replacedAt (clock : Nat → Int) (horizon : Int) :
    Learner NftSets → List Observation → Addr → Int
  | _, [], _ => horizon
  | l, observation :: rest, ip =>
      if observation.Acceptable ∧ ip ∈ observation.ips then
        clock (l.reads + observation.ips.length)
      else replacedAt clock horizon (l.learn clock observation) rest ip

/-- Every call of a run is timely until its elements are replaced. -/
def TimelyRun (clock : Nat → Int) (horizon : Int) : Learner NftSets → List Observation → Prop
  | _, [] => True
  | l, observation :: rest =>
      let after := l.learn clock observation
      Timely clock (replacedAt clock horizon after rest) l observation ∧
        TimelyRun clock horizon after rest

instance decidableTimelyRun (clock : Nat → Int) (horizon : Int) :
    (l : Learner NftSets) → (observations : List Observation) →
      Decidable (TimelyRun clock horizon l observations)
  | _, [] => .isTrue trivial
  | l, observation :: rest =>
      have := decidableTimelyRun clock horizon (l.learn clock observation) rest
      inferInstanceAs (Decidable (Timely clock
        (replacedAt clock horizon (l.learn clock observation) rest) l observation ∧
          TimelyRun clock horizon (l.learn clock observation) rest))

/-! ## The invariant -/

theorem hasLive_iff {table : LearningTable} (h : table.Sound) {ip : Addr} {action : Action}
    {now : Int} : HasLive table ip action now ↔
      ∃ item ∈ table.items, item.1.ip = ip ∧ item.1.action = action ∧ now < item.2 := by
  constructor
  · rintro ⟨key, expires, hl, hrest⟩
    exact ⟨(key, expires), h.linked.mem_items.mpr hl, hrest⟩
  · rintro ⟨⟨key, expires⟩, hmem, hrest⟩
    exact ⟨key, expires, h.linked.mem_items.mp hmem, hrest⟩

theorem holds_iff {kernel : Kernel} {set : SetName} {ip : Addr} {now : Int} :
    kernel.holds set ip now = true ↔
      ∃ deadline, (kernel.get set).lookup ip = some deadline ∧
        ∀ instant ∈ deadline, now < instant := by
  unfold Kernel.holds
  rcases (kernel.get set).lookup ip with _ | _ | deadline <;> simp

/-- At every instant from the last reading to its horizon each address is justified. -/
structure JustifiedFrom (clock : Nat → Int) (horizon : Addr → Int) (l : Learner NftSets) :
    Prop where
  sound : l.table.Sound
  tracked : l.sets.Tracked
  justified : ∀ now ip, (∀ n < l.reads, clock n ≤ now) → now ≤ horizon ip → Justified l ip now

theorem newNftLearner_justified (clock : Nat → Int) (horizon : Addr → Int) (capacity : Int) :
    JustifiedFrom clock horizon (newNftLearner capacity) where
  sound := newLearningTable_sound capacity
  tracked := by
    intro set ip deadline hl
    cases set <;> simp [newNftLearner, Kernel.get] at hl
  justified := by
    intro now ip _ _
    refine ⟨fun hin => ?_, ?_⟩
    · simp [newNftLearner, Kernel.holds, Kernel.get] at hin
    · rintro ⟨key, expires, hl, -⟩
      simp [newNftLearner, newLearningTable] at hl

variable {clock : Nat → Int}

/-- The last update that a steady call sends for a listed address says the state
that its held items imply. -/
theorem lastUpdate_updatesFor (hmono : Nondecreasing clock) {items : List (ObservationKey × Int)}
    {ips : List Addr} {reading : Nat} {ip : Addr} (hip : ip ∈ ips)
    (hsteady : stateAt (clock reading) items ip =
      impliedState (heldAfter clock items reading ips.length) ip) :
    lastUpdate (updatesFor clock items ips reading) ip =
      some ⟨ip, impliedState (heldAfter clock items reading ips.length) ip, hour⟩ := by
  have hlen : ips.length ≠ 0 := (List.length_pos_of_mem hip).ne'
  cases hlast : lastUpdate (updatesFor clock items ips reading) ip with
  | none =>
      rw [lastUpdate_eq_none_iff, map_ip_updatesFor] at hlast
      exact absurd hip hlast
  | some update =>
      obtain ⟨hmem, rfl⟩ := mem_of_lastUpdate hlast
      obtain ⟨n, hlow, hhigh, heq⟩ := mem_updatesFor hmem
      rw [heldAfter, if_neg hlen] at hsteady ⊢
      have hstate := stateAt_between (hmono hlow) (hmono (by omega)) hsteady
      rw [heq, Option.some.injEq, SetUpdate.mk.injEq]
      exact ⟨rfl, hstate, rfl⟩

/-- The element that the update of a direct address places. -/
theorem placed_direct4 (now : Int) (ip : Addr) (state : SetState) :
    placed .always now .direct4 ⟨ip, state, hour⟩ =
      if state = .direct then some (some (now + hour)) else none := by
  simp [placed, Timeouts.always, SetName.state, clampTTL, hour, minute, second]

/-- Agreeing lifetimes justify the element of a listed address. -/
theorem justified_of_listed {l : Learner NftSets} (h : l.table.Sound) {placedAt horizon now : Int}
    {ip : Addr} (hnow : now ≤ horizon)
    (hset : (l.sets.kernel.get .direct4).lookup ip =
      if impliedState l.table.items ip = .direct then some (some (placedAt + hour)) else none)
    (hdirect : impliedState l.table.items ip = .direct →
      DirectLasts horizon (placedAt + hour) l.table.items ip)
    (hinspect : impliedState l.table.items ip = .inspect →
      InspectLasts horizon l.table.items ip) : Justified l ip now := by
  rw [Justified, hasLive_iff h, hasLive_iff h, holds_iff, hset]
  cases hstate : impliedState l.table.items ip with
  | none =>
      have hnone : observed l.table.items ip .direct = false := by
        unfold impliedState at hstate
        split_ifs at hstate with hobs
        exact Bool.not_eq_true _ ▸ hobs
      refine ⟨by simp, ?_⟩
      rintro ⟨item, hmem, hip, haction, -⟩
      rw [← Bool.not_eq_true, observed_iff] at hnone
      exact absurd ⟨item.1, item.2, hmem, hip, haction⟩ hnone
  | direct =>
      obtain ⟨⟨item, hmem, hip, haction, hlasts⟩, hall⟩ := hdirect hstate
      constructor
      · rintro ⟨deadline, hl, hlt⟩
        rw [if_pos rfl, Option.some.injEq] at hl
        have hbefore := hlt (placedAt + hour) hl.symm
        exact ⟨item, hmem, hip, haction, by omega⟩
      · rintro ⟨found, hfound, hip', haction', hlt⟩ -
        have hle := hall found hfound hip' haction'
        refine ⟨_, if_pos rfl, ?_⟩
        rintro instant ⟨⟩
        omega
  | inspect =>
      refine ⟨by simp, ?_⟩
      rintro ⟨item, hmem, hip, haction, hlt⟩ hproxy
      obtain ⟨other, hother, hip', haction', hlasts⟩ := hinspect hstate item hmem hip haction
      exact absurd ⟨other, hother, hip', haction', by omega⟩ hproxy

/-- An address that an observation does not list stays justified when its live
items are kept. -/
theorem justified_of_unlisted {l after : Learner NftSets} (h : l.table.Sound)
    (h' : after.table.Sound) {now : Int} {ip : Addr} (hold : Justified l ip now)
    (hset : (after.sets.kernel.get .direct4).lookup ip = (l.sets.kernel.get .direct4).lookup ip)
    (hitems : ∀ item : ObservationKey × Int, item.1.ip = ip → now < item.2 →
      (item ∈ after.table.items ↔ item ∈ l.table.items)) : Justified after ip now := by
  have hlive : ∀ action, HasLive after.table ip action now ↔ HasLive l.table ip action now := by
    intro action
    rw [hasLive_iff h, hasLive_iff h']
    refine exists_congr fun item => and_congr_left ?_
    rintro ⟨hip, -, hlt⟩
    exact hitems item hip hlt
  rw [Justified, hlive, hlive, holds_iff, hset, ← holds_iff]
  exact hold

/-- A reconciliation with agreeing lifetimes keeps the sets justified: listed
addresses get new elements, and the others keep theirs with their live items. -/
theorem reconcile_justified (hmono : Nondecreasing clock) {before horizon : Addr → Int}
    {l : Learner NftSets} (h : JustifiedFrom clock before l) {observation : Observation}
    (hbefore : ∀ ip, ip ∉ observation.ips → before ip = horizon ip) {table : LearningTable}
    (hsound : table.Sound)
    (hitems : table.items =
      touchKeys l.table.capacity observation.keys observation.expires l.table.items)
    (hips : observation.ips ≠ []) (hagree : LifetimesAgree clock horizon l observation)
    (hreplaced : (Learner.reconcile (nftSetClient .always) clock observation.ips
      { l with table := table }).2 ≠ some (.sets .noElement)) :
    JustifiedFrom clock horizon
      (Learner.reconcile (nftSetClient .always) clock observation.ips
        { l with table := table }).1 := by
  simp only [LifetimesAgree, ← hitems] at hagree
  obtain ⟨hlisted, hkept⟩ := hagree
  have hlen : observation.ips.length ≠ 0 := fun hz => hips (List.length_eq_zero_iff.mp hz)
  obtain ⟨hafter, -, hheld, -, hcons⟩ := Learner.reconcile_spec (nftSetClient .always)
    hmono observation.ips { l with table := table } hsound
  obtain ⟨hsets, hreads', herr⟩ := hcons hips
  change (Learner.table _).items = heldAfter clock table.items l.reads _ at hheld
  change _ = l.reads + observation.ips.length + 1 at hreads'
  have hok : ((nftSetClient .always).replace (clock (l.reads + observation.ips.length))
      (updatesFor clock table.items observation.ips l.reads) l.sets).2 = none := by
    rw [herr] at hreplaced
    apply Option.eq_none_iff_forall_ne_some.mpr
    rintro ⟨⟩ hfail
    exact hreplaced (by rw [hfail]; rfl)
  obtain ⟨htracked, hplaced⟩ := replace_spec h.tracked hok
  refine ⟨hafter, by rw [hsets]; exact htracked, fun now ip hreads hnow => ?_⟩
  rw [hreads'] at hreads
  by_cases hip : ip ∈ observation.ips
  · obtain ⟨hsteady, hdirect, hinspect⟩ := hlisted ip hip
    rw [← hheld] at hdirect hinspect
    refine justified_of_listed hafter hnow ?_ hdirect hinspect
    rw [hsets, hplaced, lastUpdate_updatesFor hmono hip hsteady, hheld]
    exact placed_direct4 _ _ _
  · have hfresh : lastUpdate (updatesFor clock table.items observation.ips l.reads) ip = none := by
      rw [lastUpdate_eq_none_iff, map_ip_updatesFor]
      exact hip
    refine justified_of_unlisted h.sound hafter
      (h.justified now ip (fun n hn => hreads n (by omega)) (by rwa [hbefore ip hip]))
      (by rw [hsets, hplaced, hfresh]) ?_
    rintro item rfl hlt
    rw [hheld]
    constructor
    · intro hmem
      rw [heldAfter, if_neg hlen, hitems] at hmem
      rcases mem_of_mem_touchKeys (List.mem_of_mem_filter hmem) with ⟨hkey, -⟩ | hin
      · exact absurd (Observation.ip_mem_of_mem_keys hkey) hip
      · exact hin
    · intro hmem
      have hlast := hreads (l.reads + observation.ips.length - 1) (by omega)
      exact hkept item hmem hip (by omega)

/-- A call that records nothing and sends nothing keeps the sets justified. -/
theorem unchanged_justified {before horizon : Addr → Int} {l : Learner NftSets}
    (h : JustifiedFrom clock before l) (hbefore : ∀ ip, before ip = horizon ip)
    {table : LearningTable} (hsound : table.Sound)
    (hitems : table.items = l.table.items) :
    JustifiedFrom clock horizon { l with table := table } where
  sound := hsound
  tracked := h.tracked
  justified := fun now ip hreads hnow =>
    justified_of_unlisted h.sound hsound (h.justified now ip hreads (by rwa [hbefore])) rfl
      fun item _ _ => by rw [hitems]

/-- A timely call keeps the sets justified. The addresses that it replaces get a new
horizon. -/
theorem learn_justified (hmono : Nondecreasing clock) {before horizon : Addr → Int}
    {l : Learner NftSets} {observation : Observation}
    (htimely : Timely clock horizon l observation) (h : JustifiedFrom clock before l)
    (hbefore : ∀ ip, ¬ (observation.Acceptable ∧ ip ∈ observation.ips) → before ip = horizon ip) :
    JustifiedFrom clock horizon (l.learn clock observation) := by
  obtain ⟨hreplaced, htimely⟩ := htimely
  obtain ⟨hsound, -, -, hitems⟩ := LearningTable.observe_spec h.sound observation
  have haccepted := LearningTable.observe_eq_none_iff h.sound observation
  cases hrun : l.table.observe observation with
  | mk table err =>
      rw [hrun] at hsound hitems haccepted
      cases err with
      | some err =>
          have hrejected : ¬ observation.Acceptable := fun haccept =>
            absurd (haccepted.mpr haccept) (by simp)
          rw [if_neg hrejected] at htimely
          simp only [Learner.learn, Learner.observe, hrun]
          exact unchanged_justified h (fun ip => hbefore ip fun hboth => hrejected hboth.1) hsound
            (by rw [hitems, htimely]; rfl)
      | none =>
          rw [if_pos (haccepted.mp rfl)] at htimely
          simp only [Learner.learn, Learner.observe, hrun] at hreplaced ⊢
          by_cases hips : observation.ips = []
          · have hkeys : observation.keys = [] := by
              refine List.eq_nil_iff_forall_not_mem.mpr fun key hkey => ?_
              exact absurd (hips ▸ Observation.ip_mem_of_mem_keys hkey) List.not_mem_nil
            have hnone (ip : Addr) : before ip = horizon ip := hbefore ip (by simp [hips])
            rw [hips]
            exact unchanged_justified h hnone hsound (by rw [hitems, hkeys]; rfl)
          · exact reconcile_justified hmono h (fun ip hip => hbefore ip fun hboth => hip hboth.2)
              hsound hitems hips htimely hreplaced

/-- A run of timely calls keeps the sets justified. -/
theorem run_justified (hmono : Nondecreasing clock) {horizon : Int}
    (observations : List Observation) {l : Learner NftSets}
    (htimely : TimelyRun clock horizon l observations)
    (h : JustifiedFrom clock (replacedAt clock horizon l observations) l) :
    JustifiedFrom clock (fun _ => horizon) (observations.foldl (Learner.learn clock) l) := by
  induction observations generalizing l with
  | nil => exact h
  | cons observation rest ih =>
      exact ih htimely.2 (learn_justified hmono htimely.1 h fun ip hother => if_neg hother)

/-- After a run of timely calls, an address in `direct4` has a live direct
observation and an address with direct observations only is in `direct4`, at
every instant up to the horizon. -/
theorem direct4_justified (clock : Nat → Int) (hmono : Nondecreasing clock) (capacity horizon : Int)
    (observations : List Observation)
    (htimely : TimelyRun clock horizon (newNftLearner capacity) observations)
    (now : Int)
    (hlater : ∀ n < (observations.foldl (Learner.learn clock) (newNftLearner capacity)).reads,
      clock n ≤ now)
    (hnow : now ≤ horizon) (ip : Addr) :
    Justified (observations.foldl (Learner.learn clock) (newNftLearner capacity)) ip now :=
  (run_justified hmono observations htimely
    (newNftLearner_justified clock _ capacity)).justified now ip hlater hnow

/-- An observation that outlasts its element and is moved to inspection in time, and one that
lasts exactly as long as its element. -/
theorem direct4_justified_hour :
    let ip := Addr.v4 0xCB007108#32
    let observations : List Observation :=
      [⟨ascii "cn.example", .direct, [ip], 2 * hour⟩,
        ⟨ascii "cdn.example", .direct, [.v4 0xCB007109#32], 30 * minute + hour⟩,
        ⟨ascii "world.example", .proxy, [ip], 3 * hour⟩]
    ∀ other, Justified (observations.foldl (Learner.learn fun n => n * (10 * minute))
      (newNftLearner 16)) other (80 * minute) :=
  fun other => direct4_justified (fun n => n * (10 * minute))
    (fun a b h => by simp only [minute, second]; omega) 16 (24 * hour)
    [⟨ascii "cn.example", .direct, [.v4 0xCB007108#32], 2 * hour⟩,
      ⟨ascii "cdn.example", .direct, [.v4 0xCB007109#32], 30 * minute + hour⟩,
      ⟨ascii "world.example", .proxy, [.v4 0xCB007108#32], 3 * hour⟩]
    (by decide +kernel) (80 * minute) (by decide +kernel) (by decide) other

/-- An observation of two seconds leaves its address in `direct4` after it has
expired, and one of two hours outlives the element. -/
theorem direct4_outlives_and_lapses :
    let ip := Addr.v4 0xCB007108#32
    let short := (newNftLearner 16).observe (nftSetClient .always) (fun n => n * second)
      ⟨ascii "cn.example", .direct, [ip], 2 * second⟩
    let long := (newNftLearner 16).observe (nftSetClient .always) (fun n => n * second)
      ⟨ascii "cn.example", .direct, [ip], 2 * hour⟩
    (short.2 = none ∧ short.1.sets.kernel.holds .direct4 ip (10 * second) = true ∧
      ¬ HasLive short.1.table ip .direct (10 * second)) ∧
      long.2 = none ∧ long.1.sets.kernel.holds .direct4 ip (hour + 2 * second) = false ∧
      HasLive long.1.table ip .direct (hour + 2 * second) ∧
      ¬ HasLive long.1.table ip .proxy (hour + 2 * second) := by
  decide

end Hy2Route.Firewall
