import Hy2Route.Firewall.Learner
import Hy2Route.Foundation.Runs
import Hy2Route.Policy.LearningRun

/-!
# Sent states and table states

The learner sends an address again only when an observation lists it or its own
expiry reports it. Other readers of the table expire entries as well, and a new
entry may evict an old one, so the last state sent for an address can fall
behind the table. It cannot when every change of a sent address's state happens
in a call that sends the address.
-/

namespace Hy2Route.Firewall

open Foundation Policy

/-- The client that takes every update and keeps them all. -/
def recorder : SetClient (List SetUpdate) Empty where
  replace _ updates sent := (sent ++ updates, none)

/-- The last state sent for an address. -/
def lastState (sent : List SetUpdate) (ip : Addr) : Option SetState :=
  (lastUpdate sent ip).map (·.state)

inductive LearnerCall where
  | observe (observation : Observation)
  | expire (order : IterationOrder)
  | lookup (ip : Addr)
  | snapshot

def newLearner (capacity : Int) : Learner (List SetUpdate) where
  table := newLearningTable capacity
  sets := []
  reads := 0

/-- The learner after a call on it, or on its table by another component. -/
def Learner.call (clock : Nat → Int) (l : Learner (List SetUpdate)) :
    LearnerCall → Learner (List SetUpdate)
  | .observe observation => (l.observe recorder clock observation).1
  | .expire order => (l.expire recorder clock order).1
  | .lookup ip => (l.lookup clock ip).1
  | .snapshot => (l.snapshot clock).1

/-- How many addresses an expiry reports. -/
def Learner.dueCount (clock : Nat → Int) (l : Learner (List SetUpdate)) : Nat :=
  (l.table.expire (clock l.reads)).2.length

/-- A call under which no sent address changes state unreported: a reader of the table drops
nothing that matters, an observation changes no other address, no address changes between the
readings of the call that sends it, and none that was sent before between those of an expiry. -/
def Quiet (clock : Nat → Int) (l : Learner (List SetUpdate)) : LearnerCall → Prop
  | .lookup _ => ∀ update ∈ l.sets,
      impliedState l.table.items update.ip = stateAt (clock l.reads) l.table.items update.ip
  | .snapshot => ∀ update ∈ l.sets,
      impliedState l.table.items update.ip = stateAt (clock l.reads) l.table.items update.ip
  | .expire _ => ∀ ip ∈ (l.table.expire (clock l.reads)).2 ++ l.sets.map (·.ip),
      stateAt (clock l.reads) l.table.items ip =
        stateAt (clock (l.reads + l.dueCount clock)) l.table.items ip
  | .observe observation =>
      let items := touchKeys l.table.capacity observation.keys observation.expires l.table.items
      let held := heldAfter clock items l.reads observation.ips.length
      if observation.Acceptable then
        (∀ ip ∈ observation.ips, stateAt (clock l.reads) items ip = impliedState held ip) ∧
          ∀ update ∈ l.sets, update.ip ∉ observation.ips →
            impliedState l.table.items update.ip = impliedState held update.ip
      else ∀ update ∈ l.sets,
        impliedState l.table.items update.ip = impliedState items update.ip

instance (clock : Nat → Int) (l : Learner (List SetUpdate)) :
    (c : LearnerCall) → Decidable (Quiet clock l c)
  | .lookup _ => inferInstanceAs (Decidable (∀ update ∈ l.sets, _ = _))
  | .snapshot => inferInstanceAs (Decidable (∀ update ∈ l.sets, _ = _))
  | .expire _ => inferInstanceAs (Decidable (∀ ip ∈ _ ++ _, _ = _))
  | .observe observation =>
      inferInstanceAs (Decidable (if observation.Acceptable then _ else _))

/-- A last state is that of an update. -/
theorem exists_of_lastState {sent : List SetUpdate} {ip : Addr} {state : SetState}
    (h : lastState sent ip = some state) :
    ∃ update ∈ sent, update.ip = ip ∧ update.state = state := by
  obtain ⟨update, hlast, hstate⟩ := Option.map_eq_some_iff.mp h
  obtain ⟨hmem, hip⟩ := mem_of_lastUpdate hlast
  exact ⟨update, hmem, hip, hstate⟩

/-- After more updates the last state of an address is theirs, or the earlier
one when they do not list it. -/
theorem lastState_append_cases {sent more : List SetUpdate} {ip : Addr} {state : SetState}
    (h : lastState (sent ++ more) ip = some state) :
    (∃ update ∈ more, update.ip = ip ∧ update.state = state) ∨
      ip ∉ more.map (·.ip) ∧ lastState sent ip = some state := by
  rw [lastState, lastUpdate_append] at h
  cases hlast : lastUpdate more ip with
  | none =>
      rw [hlast, Option.none_or] at h
      exact Or.inr ⟨lastUpdate_eq_none_iff.mp hlast, h⟩
  | some update =>
      rw [hlast, Option.some_or, Option.map_some, Option.some.injEq] at h
      obtain ⟨hmem, hip⟩ := mem_of_lastUpdate hlast
      exact Or.inl ⟨update, hmem, hip, h⟩

/-! ## The invariant -/

/-- The table is sound and agrees with the last state sent for each address. -/
structure Synced (l : Learner (List SetUpdate)) : Prop where
  sound : l.table.Sound
  inStep : ∀ ip state, lastState l.sets ip = some state →
    state = impliedState l.table.items ip

theorem newLearner_synced (capacity : Int) : Synced (newLearner capacity) where
  sound := newLearningTable_sound capacity
  inStep := by
    intro ip state h
    exact absurd h (by simp [newLearner, lastState, lastUpdate])

variable {clock : Nat → Int}

/-- A reconciliation synchronizes the addresses it lists, if their states stay
the same while it runs, and the others stay synchronized if theirs do. -/
theorem reconcile_synced (hmono : Nondecreasing clock) (ips : List Addr)
    (l : Learner (List SetUpdate)) (h : l.table.Sound)
    (hlisted : ∀ ip ∈ ips, stateAt (clock l.reads) l.table.items ip =
      impliedState (heldAfter clock l.table.items l.reads ips.length) ip)
    (hother : ∀ ip state, ip ∉ ips → lastState l.sets ip = some state →
      state = impliedState (heldAfter clock l.table.items l.reads ips.length) ip) :
    Synced (l.reconcile recorder clock ips).1 := by
  obtain ⟨hsound, -, hitems, hnil, hcons⟩ :=
    Learner.reconcile_spec recorder hmono ips l h
  refine ⟨hsound, fun ip state hlast => ?_⟩
  rw [hitems]
  by_cases hips : ips = []
  · rw [(hnil hips).1] at hlast
    exact hother ip state (by simp [hips]) hlast
  · rw [(hcons hips).1] at hlast
    rcases lastState_append_cases hlast with ⟨update, hmem, rfl, rfl⟩ | ⟨hip, hold⟩
    · have hin : update.ip ∈ ips := by
        rw [← map_ip_updatesFor clock l.table.items ips l.reads]
        exact List.mem_map_of_mem hmem
      obtain ⟨n, hlow, hhigh, heq⟩ := mem_updatesFor hmem
      have hlen : ips.length ≠ 0 := fun hz => hips (List.length_eq_zero_iff.mp hz)
      have hsame := hlisted update.ip hin
      rw [heldAfter, if_neg hlen] at hsame ⊢
      rw [heq]
      exact stateAt_between (hmono hlow) (hmono (by omega)) hsame
    · rw [map_ip_updatesFor] at hip
      exact hother ip state hip hold

/-- Dropping what is due keeps the states of addresses that lose nothing. -/
theorem stateAt_of_not_due {items : List (ObservationKey × Int)} {now : Int} {ip : Addr}
    (h : ¬ ∃ key expires, (key, expires) ∈ items ∧ expires ≤ now ∧ key.ip = ip) :
    stateAt now items ip = impliedState items ip := by
  have hflag : ∀ action,
      observed (items.filter (LearningTable.live now)) ip action = observed items ip action := by
    intro action
    rw [Bool.eq_iff_iff, observed_iff, observed_iff]
    refine exists_congr fun key => exists_congr fun expires => and_congr_left ?_
    rintro ⟨hip, -⟩
    rw [List.mem_filter, and_iff_left_iff_imp]
    intro hmem
    by_contra hdue
    refine h ⟨key, expires, hmem, ?_, hip⟩
    simpa [LearningTable.live] using hdue
  rw [stateAt, impliedState, impliedState, hflag, hflag]

/-- Another component's read keeps the learner synchronized when it is quiet. -/
theorem read_synced {l : Learner (List SetUpdate)} (h : Synced l) (reads : Nat) {now : Int}
    (hquiet : ∀ update ∈ l.sets,
      impliedState l.table.items update.ip = stateAt now l.table.items update.ip) :
    Synced { l with table := (l.table.expireLocked now).1, reads := reads } := by
  obtain ⟨hsound, -, hitems, -⟩ := LearningTable.expireLocked_spec h.sound now
  refine ⟨hsound, fun ip state hlast => ?_⟩
  obtain ⟨update, hmem, rfl, -⟩ := exists_of_lastState hlast
  change state = impliedState (l.table.expireLocked now).1.items update.ip
  rw [hitems, h.inStep _ _ hlast]
  exact hquiet update hmem

/-- A quiet observation keeps the learner synchronized. -/
theorem observe_synced (hmono : Nondecreasing clock) {l : Learner (List SetUpdate)} (h : Synced l)
    {observation : Observation} (hquiet : Quiet clock l (.observe observation)) :
    Synced (l.observe recorder clock observation).1 := by
  obtain ⟨hsound, -, -, hitems⟩ := LearningTable.observe_spec h.sound observation
  have haccepted := LearningTable.observe_eq_none_iff h.sound observation
  simp only [Quiet] at hquiet
  rw [← hitems] at hquiet
  cases hrun : l.table.observe observation with
  | mk table err =>
      rw [hrun] at hsound hquiet haccepted
      cases err with
      | some err =>
          rw [if_neg fun haccept => absurd (haccepted.mpr haccept) (by simp)] at hquiet
          simp only [Learner.observe, hrun]
          refine ⟨hsound, fun ip state hlast => ?_⟩
          obtain ⟨update, hmem, rfl, -⟩ := exists_of_lastState hlast
          exact (h.inStep _ _ hlast).trans (hquiet update hmem)
      | none =>
          rw [if_pos (haccepted.mp rfl)] at hquiet
          simp only [Learner.observe, hrun]
          refine reconcile_synced hmono _ _ hsound hquiet.1 fun ip state hip hlast => ?_
          obtain ⟨update, hmem, rfl, -⟩ := exists_of_lastState hlast
          exact (h.inStep _ _ hlast).trans (hquiet.2 update hmem hip)

/-- What an expiry and its lookups leave: the items live at the last lookup. -/
theorem heldAfter_expire (hmono : Nondecreasing clock) {l : Learner (List SetUpdate)}
    (h : l.table.Sound) (order : IterationOrder) :
    heldAfter clock (l.table.expire (clock l.reads)).1.items (l.reads + 1)
        (order.visit (l.table.expire (clock l.reads)).2).length =
      l.table.items.filter (LearningTable.live (clock (l.reads + l.dueCount clock))) := by
  obtain ⟨-, -, hitems, -⟩ := LearningTable.expireLocked_spec h (clock l.reads)
  rw [(order.perm _).length_eq, LearningTable.expire, hitems, heldAfter_filter hmono, heldAfter,
    if_neg (Nat.succ_ne_zero _)]
  rfl

theorem expire_items (hmono : Nondecreasing clock) {l : Learner (List SetUpdate)}
    (h : l.table.Sound) (order : IterationOrder) :
    (l.expire recorder clock order).1.table.items =
      l.table.items.filter (LearningTable.live (clock (l.reads + l.dueCount clock))) := by
  obtain ⟨hsound, -⟩ := LearningTable.expireLocked_spec h (clock l.reads)
  obtain ⟨-, -, hfinal, -⟩ := Learner.reconcile_spec recorder hmono
    (order.visit (l.table.expire (clock l.reads)).2)
    { l with table := (l.table.expire (clock l.reads)).1, reads := l.reads + 1 } hsound
  exact hfinal.trans (heldAfter_expire hmono h order)

/-- A quiet expiry keeps the learner synchronized: the reported addresses are
sent, and the others lose nothing. -/
theorem expire_synced (hmono : Nondecreasing clock) {l : Learner (List SetUpdate)} (h : Synced l)
    {order : IterationOrder} (hquiet : Quiet clock l (.expire order)) :
    Synced (l.expire recorder clock order).1 := by
  obtain ⟨hsound, -, hitems, hdue⟩ := LearningTable.expireLocked_spec h.sound (clock l.reads)
  have hheld := heldAfter_expire hmono h.sound order
  refine reconcile_synced hmono (order.visit (l.table.expire (clock l.reads)).2)
    { l with table := (l.table.expire (clock l.reads)).1, reads := l.reads + 1 }
    hsound ?_ ?_
  · intro ip hip
    have hin := (order.perm _).mem_iff.mp hip
    obtain ⟨key, expires, hmem, -, rfl⟩ := (hdue ip).mp hin
    have hsame := hquiet key.ip (List.mem_append_left _ hin)
    have hpos : 0 < l.dueCount clock := List.length_pos_of_mem hin
    change stateAt (clock (l.reads + 1)) (l.table.expireLocked (clock l.reads)).1.items key.ip = _
    rw [hheld, hitems, stateAt_filter (hmono (Nat.le_succ _))]
    exact stateAt_between (hmono (Nat.le_succ _)) (hmono (by omega)) hsame
  · intro ip state hip hlast
    have hnot : ¬ ∃ key expires, (key, expires) ∈ l.table.items ∧ expires ≤ clock l.reads ∧
        key.ip = ip := fun hex => hip ((order.perm _).mem_iff.mpr ((hdue ip).mpr hex))
    obtain ⟨update, hmem, rfl, -⟩ := exists_of_lastState hlast
    have hsame := hquiet update.ip (List.mem_append_right _ (List.mem_map_of_mem hmem))
    rw [hheld, h.inStep _ _ hlast, ← stateAt_of_not_due hnot]
    exact hsame

/-- A quiet call keeps the learner synchronized. -/
theorem call_synced (hmono : Nondecreasing clock) (l : Learner (List SetUpdate)) (c : LearnerCall)
    (hquiet : Quiet clock l c) (h : Synced l) : Synced (l.call clock c) := by
  cases c with
  | observe observation => exact observe_synced hmono h hquiet
  | expire order => exact expire_synced hmono h hquiet
  | lookup ip => exact read_synced h _ hquiet
  | snapshot => exact read_synced h _ hquiet

/-- In a run of quiet calls, right after an expiry the last state sent for each
address is the one that the table implies. -/
theorem expire_leaves_sets_in_step (clock : Nat → Int) (hmono : Nondecreasing clock)
    (capacity : Int) (calls : List LearnerCall) (order : IterationOrder)
    (hquiet : Allowed (Learner.call clock) (Quiet clock) (newLearner capacity)
      (calls ++ [.expire order])) :
    let before := calls.foldl (Learner.call clock) (newLearner capacity)
    let after := before.call clock (.expire order)
    ∀ ip state, lastState after.sets ip = some state →
      state = SetState.ofDecision
        (after.table.lookup ip (clock (before.reads + before.dueCount clock))).2 := by
  intro before after ip state hlast
  obtain ⟨hcalls, hexpire, -⟩ := allowed_append.mp hquiet
  have hbefore : Synced before :=
    hcalls.invariant (call_synced hmono) (newLearner_synced capacity)
  have hafter : Synced after := call_synced hmono before _ hexpire hbefore
  have hitems : after.table.items = _ := expire_items hmono hbefore.sound order
  rw [ofDecision_lookup hafter.sound, hafter.inStep ip state hlast, hitems,
    stateAt_filter (le_refl _)]
  rfl

/-- One reading of the clock a second. -/
def secondsClock (reading : Nat) : Int := reading * second

theorem secondsClock_mono : Nondecreasing secondsClock := by
  intro a b h
  simp only [secondsClock, second]
  omega

/-- A conflict in `203.0.113.8` is sent to inspection, and back once the proxy
observation lapses; a lookup in between drops nothing. -/
theorem conflict_is_sent_back :
    let ip := Addr.v4 0xCB007108#32
    let calls : List LearnerCall :=
      [.observe ⟨ascii "cn.example", .direct, [ip], 60 * second⟩,
        .observe ⟨ascii "world.example", .proxy, [ip], 5 * second⟩, .lookup ip]
    let before := calls.foldl (Learner.call secondsClock) (newLearner 16)
    let after := before.call secondsClock (.expire .listed)
    lastState before.sets ip = some .inspect ∧ lastState after.sets ip = some .direct ∧
      ∀ other state, lastState after.sets other = some state →
        state = SetState.ofDecision (after.table.lookup other
          (secondsClock (before.reads + before.dueCount secondsClock))).2 :=
  ⟨by decide, by decide +kernel, expire_leaves_sets_in_step secondsClock secondsClock_mono 16
    [.observe ⟨ascii "cn.example", .direct, [.v4 0xCB007108#32], 60 * second⟩,
      .observe ⟨ascii "world.example", .proxy, [.v4 0xCB007108#32], 5 * second⟩,
      .lookup (.v4 0xCB007108#32)] .listed (by decide +kernel)⟩

/-- A lookup after the expiry, or an eviction, hides the change from the next
expiry: the sets keep the address and the table has no observation of it. -/
theorem hidden_change_stays_in_sets :
    let ip := Addr.v4 0xCB007108#32
    let lookedUp := [LearnerCall.observe ⟨ascii "cn.example", .direct, [ip], 2 * second⟩,
      .lookup ip, .expire .listed].foldl (Learner.call secondsClock) (newLearner 16)
    let evicted := [LearnerCall.observe ⟨ascii "cn.example", .direct, [ip], hour⟩,
      .observe ⟨ascii "cn.example", .direct, [.v4 0xCB007109#32], hour⟩,
      .expire .listed].foldl (Learner.call secondsClock) (newLearner 1)
    (lastState lookedUp.sets ip = some .direct ∧
      SetState.ofDecision (lookedUp.table.lookup ip (secondsClock 3)).2 = .none) ∧
      lastState evicted.sets ip = some .direct ∧
      SetState.ofDecision (evicted.table.lookup ip (secondsClock 4)).2 = .none := by
  decide

end Hy2Route.Firewall
