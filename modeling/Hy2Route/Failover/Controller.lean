import Hy2Route.Foundation.Runs
import Mathlib.Algebra.Order.Group.Int
import Mathlib.Tactic.Common

/-!
# The failover controller

The controller leaves the proxy mode after enough failures, waits out a cooldown
after the latest failure, and comes back after enough successes. The step from
the cooldown to the recovery is only taken when a call looks at the clock.

A history counts what the calls themselves say: the failures since the latest
success, the time of the latest failure, and the successes after its cooldown.
The controller follows its history except for one counter: a success in the
proxy mode does not reset the failures.
-/

namespace Hy2Route.Failover

open Foundation

inductive Mode where
  | proxy
  | directCooldown
  | directRecovery
  deriving DecidableEq

structure Config where
  failures : Int
  successes : Int
  cooldown : Int

structure Controller where
  cfg : Config
  mode : Mode
  failures : Int
  successes : Int
  untilTime : Int

def new (cfg : Config) : Controller where
  cfg :=
    { failures := if cfg.failures < 1 then 1 else cfg.failures
      successes := if cfg.successes < 1 then 1 else cfg.successes
      cooldown := cfg.cooldown }
  mode := .proxy
  failures := 0
  successes := 0
  untilTime := 0

namespace Controller

/-- The cooldown ends when it is over at the time of the call. -/
def lapse (c : Controller) (now : Int) : Controller :=
  if c.mode = .directCooldown ∧ ¬ now < c.untilTime then { c with mode := .directRecovery } else c

/-- The method that reports the mode. -/
def currentMode (c : Controller) (now : Int) : Controller × Mode :=
  let c := c.lapse now
  (c, c.mode)

def recordFailure (c : Controller) (now : Int) : Controller :=
  let c := { c with successes := 0 }
  if c.mode = .proxy then
    let c := { c with failures := c.failures + 1 }
    if c.cfg.failures ≤ c.failures then
      { c with mode := .directCooldown, untilTime := now + c.cfg.cooldown }
    else c
  else { c with mode := .directCooldown, untilTime := now + c.cfg.cooldown }

def recordSuccess (c : Controller) (now : Int) : Controller :=
  let c := c.lapse now
  if c.mode = .directRecovery then
    let c := { c with successes := c.successes + 1 }
    if c.cfg.successes ≤ c.successes then
      { c with mode := .proxy, failures := 0, successes := 0 }
    else c
  else c

end Controller

inductive Call where
  | mode
  | recordFailure
  | recordSuccess
  deriving DecidableEq

/-- A call and what the clock says while it runs. -/
structure Event where
  time : Int
  call : Call

def Controller.step (c : Controller) (e : Event) : Controller :=
  match e.call with
  | .mode => (c.currentMode e.time).1
  | .recordFailure => c.recordFailure e.time
  | .recordSuccess => c.recordSuccess e.time

/-! ## What the calls say -/

structure History where
  /-- The failures since the latest success. -/
  inRow : Nat
  /-- The time of the latest failure. -/
  lastFailure : Option Int
  /-- The successes since the latest failure, from the end of its cooldown on. -/
  recovered : Nat

def History.empty : History := ⟨0, none, 0⟩

/-- The cooldown of the latest failure is over. -/
def History.Cooled (h : History) (cooldown now : Int) : Prop :=
  ∃ last, h.lastFailure = some last ∧ last + cooldown ≤ now

instance History.decidableCooled (h : History) (cooldown now : Int) :
    Decidable (h.Cooled cooldown now) :=
  match hlast : h.lastFailure with
  | none => isFalse (by simp [Cooled, hlast])
  | some last => decidable_of_iff (last + cooldown ≤ now) (by simp [Cooled, hlast])

def History.add (cooldown : Int) (h : History) (e : Event) : History :=
  match e.call with
  | .mode => h
  | .recordFailure => ⟨h.inRow + 1, some e.time, 0⟩
  | .recordSuccess =>
      { h with
        inRow := 0
        recovered := if h.Cooled cooldown e.time then h.recovered + 1 else h.recovered }

/-- A controller together with the history of its calls. -/
structure Observed where
  controller : Controller
  history : History

def start (cfg : Config) : Observed := ⟨new cfg, .empty⟩

def Observed.step (o : Observed) (e : Event) : Observed where
  controller := o.controller.step e
  history := o.history.add o.controller.cfg.cooldown e

/-- One call does what the documented automaton does: the proxy mode ends exactly
with the failure that completes a row, and begins again exactly with the success
that completes the recovery, which no success before the end of the cooldown is. -/
structure Documented (cfg : Config) (o : Observed) (e : Event) : Prop where
  leaves : o.controller.mode = .proxy →
    ((o.step e).controller.mode ≠ .proxy ↔
      e.call = .recordFailure ∧ ((o.step e).history.inRow : Int) = max cfg.failures 1)
  waits : o.controller.mode ≠ .proxy → (o.step e).controller.mode = .proxy →
    o.history.Cooled cfg.cooldown e.time
  returns : o.controller.mode ≠ .proxy →
    ((o.step e).controller.mode = .proxy ↔
      e.call = .recordSuccess ∧ ((o.step e).history.recovered : Int) = max cfg.successes 1)

/-- A failure that ends the proxy mode finds only failures counted that no success
separates. -/
def Unbroken (o : Observed) (e : Event) : Prop :=
  e.call = .recordFailure → o.controller.mode = .proxy →
    o.controller.cfg.failures ≤ o.controller.failures + 1 →
      o.controller.failures = o.history.inRow

instance decidableUnbroken (o : Observed) (e : Event) : Decidable (Unbroken o e) :=
  inferInstanceAs (Decidable (_ → _ → _ → _))

/-! ## The controller follows its history -/

/-- What links a controller to its history before a call at `now` or later. -/
structure Follows (cfg : Config) (o : Observed) (now : Int) : Prop where
  cfg_eq : o.controller.cfg = (new cfg).cfg
  proxy : o.controller.mode = .proxy →
    o.history.inRow ≤ o.controller.failures ∧
      o.controller.failures < o.controller.cfg.failures
  direct : o.controller.mode ≠ .proxy →
    o.history.lastFailure = some (o.controller.untilTime - o.controller.cfg.cooldown) ∧
      o.controller.successes = o.history.recovered ∧
      o.controller.successes < o.controller.cfg.successes
  recovery : o.controller.mode = .directRecovery → o.controller.untilTime ≤ now

theorem one_le_failures (cfg : Config) : 1 ≤ (new cfg).cfg.failures := by
  simp only [new]
  split_ifs <;> omega

theorem one_le_successes (cfg : Config) : 1 ≤ (new cfg).cfg.successes := by
  simp only [new]
  split_ifs <;> omega

theorem new_failures (cfg : Config) : (new cfg).cfg.failures = max cfg.failures 1 := by
  simp only [new]
  split_ifs <;> omega

theorem new_successes (cfg : Config) : (new cfg).cfg.successes = max cfg.successes 1 := by
  simp only [new]
  split_ifs <;> omega

theorem start_follows (cfg : Config) (now : Int) : Follows cfg (start cfg) now where
  cfg_eq := rfl
  proxy := fun _ => ⟨le_refl _, one_le_failures cfg⟩
  direct := fun h => absurd rfl h
  recovery := fun h => absurd h (by simp [start, new])

theorem Follows.mono {cfg : Config} {o : Observed} {now later : Int} (h : Follows cfg o now)
    (hle : now ≤ later) : Follows cfg o later :=
  { h with recovery := fun hmode => (h.recovery hmode).trans hle }

section Step

variable {cfg : Config} {o : Observed} {now : Int}

/-- Outside the proxy mode the cooldown of the history is that of the controller. -/
theorem Follows.cooled_iff (h : Follows cfg o now) (hmode : o.controller.mode ≠ .proxy)
    (time : Int) :
    o.history.Cooled o.controller.cfg.cooldown time ↔ o.controller.untilTime ≤ time := by
  simp [History.Cooled, (h.direct hmode).1]

/-- Outside the proxy mode a call finds the recovery exactly when the cooldown is over. -/
theorem Follows.lapse_mode (h : Follows cfg o now) (hmode : o.controller.mode ≠ .proxy) :
    (o.controller.lapse now).mode =
      if o.controller.untilTime ≤ now then .directRecovery else .directCooldown := by
  unfold Controller.lapse
  cases hcase : o.controller.mode with
  | proxy => exact absurd hcase hmode
  | directCooldown =>
      by_cases hle : o.controller.untilTime ≤ now
      · rw [if_pos ⟨rfl, not_lt.mpr hle⟩, if_pos hle]
      · rw [if_neg fun hboth => hle (not_lt.mp hboth.2), if_neg hle, hcase]
  | directRecovery =>
      rw [if_neg fun hboth => absurd hboth.1 (by decide), hcase, if_pos (h.recovery hcase)]

theorem Controller.lapse_proxy {c : Controller} (h : c.mode = .proxy) (time : Int) :
    c.lapse time = c := by
  simp [lapse, h]

theorem Controller.currentMode_proxy {c : Controller} (h : c.mode = .proxy) (time : Int) :
    c.currentMode time = (c, .proxy) := by
  simp [currentMode, lapse_proxy h, h]

theorem Controller.recordSuccess_proxy {c : Controller} (h : c.mode = .proxy) (time : Int) :
    c.recordSuccess time = c := by
  simp [recordSuccess, lapse_proxy h, h]

theorem recordFailure_mode_eq_proxy_iff (c : Controller) (time : Int) :
    (c.recordFailure time).mode = .proxy ↔
      c.mode = .proxy ∧ c.failures + 1 < c.cfg.failures := by
  unfold Controller.recordFailure
  by_cases hmode : c.mode = .proxy
  · by_cases hle : c.cfg.failures ≤ c.failures + 1
    · simp [hmode, hle]
    · simp [hmode, hle, not_le.mp hle]
  · simp [hmode]

/-- Outside the proxy mode a success ends it exactly when it completes the recovery. -/
theorem Follows.recordSuccess_mode (h : Follows cfg o now) (hmode : o.controller.mode ≠ .proxy) :
    (o.controller.recordSuccess now).mode = .proxy ↔
      o.controller.untilTime ≤ now ∧
        o.controller.cfg.successes ≤ o.controller.successes + 1 := by
  have hlapse := h.lapse_mode hmode
  have hcfg : (o.controller.lapse now).cfg = o.controller.cfg := by
    unfold Controller.lapse
    split <;> rfl
  have hcount : (o.controller.lapse now).successes = o.controller.successes := by
    unfold Controller.lapse
    split <;> rfl
  simp only [Controller.recordSuccess, hlapse, hcfg, hcount]
  by_cases hle : o.controller.untilTime ≤ now
  · by_cases hdone : o.controller.cfg.successes ≤ o.controller.successes + 1
    · simp [hle, hdone]
    · simp [hle, hdone]
  · simp [hle, hlapse]

theorem Follows.mode_step (h : Follows cfg o now) : Follows cfg (o.step ⟨now, .mode⟩) now := by
  by_cases hmode : o.controller.mode = .proxy
  · have hsame : o.step ⟨now, .mode⟩ = o := by
      simp [Observed.step, Controller.step, History.add, Controller.currentMode_proxy hmode]
    rw [hsame]
    exact h
  · simp only [Observed.step, Controller.step, Controller.currentMode, History.add]
    unfold Controller.lapse
    split_ifs with hover
    · exact ⟨h.cfg_eq, fun hproxy => (nomatch hproxy), fun _ => h.direct hmode,
        fun _ => not_lt.mp hover.2⟩
    · exact h

theorem Follows.failure_step (h : Follows cfg o now) :
    Follows cfg (o.step ⟨now, .recordFailure⟩) now := by
  have hcooling : Follows cfg
      ⟨{ o.controller with
          mode := .directCooldown
          failures := if o.controller.mode = .proxy then o.controller.failures + 1
            else o.controller.failures
          successes := 0
          untilTime := now + o.controller.cfg.cooldown },
        ⟨o.history.inRow + 1, some now, 0⟩⟩ now := by
    refine ⟨h.cfg_eq, fun hproxy => (nomatch hproxy), fun _ => ⟨by simp, rfl, ?_⟩,
      fun hrecovery => (nomatch hrecovery)⟩
    have hpos := one_le_successes cfg
    rw [← h.cfg_eq] at hpos
    exact hpos
  simp only [Observed.step, Controller.step, Controller.recordFailure, History.add]
  by_cases hmode : o.controller.mode = .proxy
  · simp only [hmode, if_true] at hcooling ⊢
    split_ifs with hdone
    · exact hcooling
    · obtain ⟨hrow, -⟩ := h.proxy hmode
      refine ⟨h.cfg_eq, fun _ => ⟨?_, not_le.mp hdone⟩, fun hdirect => absurd rfl hdirect,
        fun hrecovery => (nomatch hrecovery)⟩
      change ((o.history.inRow + 1 : Nat) : Int) ≤ o.controller.failures + 1
      omega
  · simpa only [hmode, if_false] using hcooling

theorem Follows.success_step (h : Follows cfg o now) :
    Follows cfg (o.step ⟨now, .recordSuccess⟩) now := by
  by_cases hmode : o.controller.mode = .proxy
  · obtain ⟨hrow, hless⟩ := h.proxy hmode
    have hsame := Controller.recordSuccess_proxy hmode now
    simp only [Observed.step, Controller.step, History.add, hsame]
    refine ⟨h.cfg_eq, fun _ => ⟨?_, hless⟩, fun hdirect => absurd hmode hdirect,
      fun hrecovery => absurd (hmode.symm.trans hrecovery) (by decide)⟩
    change ((0 : Nat) : Int) ≤ o.controller.failures
    omega
  · obtain ⟨hlast, hcount, hless⟩ := h.direct hmode
    have hlapse := h.lapse_mode hmode
    have hcooled := h.cooled_iff hmode now
    simp only [Observed.step, Controller.step, Controller.recordSuccess, History.add, hcooled]
    by_cases hle : o.controller.untilTime ≤ now
    · have hshape : o.controller.lapse now = { o.controller with mode := .directRecovery } := by
        unfold Controller.lapse at hlapse ⊢
        split_ifs at hlapse ⊢
        · rfl
        · rw [← hlapse]
      simp only [hshape, hle, if_true]
      split_ifs with hdone
      · refine ⟨h.cfg_eq, fun _ => ⟨le_refl _, ?_⟩, fun hdirect => absurd rfl hdirect,
          fun hrecovery => (nomatch hrecovery)⟩
        have hpos := one_le_failures cfg
        rw [← h.cfg_eq] at hpos
        exact hpos
      · refine ⟨h.cfg_eq, fun hproxy => (nomatch hproxy), fun _ => ⟨hlast, ?_, not_le.mp hdone⟩,
          fun _ => hle⟩
        change o.controller.successes + 1 = ((o.history.recovered + 1 : Nat) : Int)
        omega
    · have hshape : o.controller.lapse now = o.controller := by
        unfold Controller.lapse
        exact if_neg fun hboth => hle (not_lt.mp hboth.2)
      rw [hshape, if_neg hle] at hlapse
      simp only [hshape, hle, if_false, hlapse]
      exact ⟨h.cfg_eq, fun hproxy => absurd hproxy hmode, fun _ => ⟨hlast, hcount, hless⟩,
        fun hrecovery => absurd (hlapse.symm.trans hrecovery) (by decide)⟩

theorem Follows.step {e : Event} (h : Follows cfg o e.time) : Follows cfg (o.step e) e.time := by
  obtain ⟨time, call⟩ := e
  cases call with
  | mode => exact h.mode_step
  | recordFailure => exact h.failure_step
  | recordSuccess => exact h.success_step

/-- In the proxy mode a call is as documented exactly when a failure that ends the
mode finds an unbroken row. -/
theorem Follows.documented_proxy_iff {e : Event} (h : Follows cfg o e.time)
    (hmode : o.controller.mode = .proxy) : Documented cfg o e ↔ Unbroken o e := by
  obtain ⟨hrow, hless⟩ := h.proxy hmode
  have hmax : o.controller.cfg.failures = max cfg.failures 1 := by
    rw [h.cfg_eq, new_failures]
  have hcall : Documented cfg o e ↔ ((o.step e).controller.mode ≠ .proxy ↔
      e.call = .recordFailure ∧ ((o.step e).history.inRow : Int) = max cfg.failures 1) :=
    ⟨fun hdoc => hdoc.leaves hmode, fun hleaves =>
      ⟨fun _ => hleaves, fun hne => absurd hmode hne, fun hne => absurd hmode hne⟩⟩
  rw [hcall]
  obtain ⟨time, call⟩ := e
  cases call with
  | mode =>
      simp [Unbroken, Observed.step, Controller.step, Controller.currentMode_proxy hmode, hmode]
  | recordSuccess =>
      simp [Unbroken, Observed.step, Controller.step, Controller.recordSuccess_proxy hmode, hmode]
  | recordFailure =>
      simp only [Unbroken, Observed.step, Controller.step, History.add, ne_eq,
        recordFailure_mode_eq_proxy_iff, hmode, true_and, forall_const, ← hmax]
      push_cast
      omega

/-- Outside the proxy mode every call is as documented. -/
theorem Follows.documented_direct {e : Event} (h : Follows cfg o e.time)
    (hmode : o.controller.mode ≠ .proxy) : Documented cfg o e := by
  obtain ⟨-, hcount, hless⟩ := h.direct hmode
  have hcooldown : o.controller.cfg.cooldown = cfg.cooldown := by
    rw [h.cfg_eq]
    rfl
  have hmax : o.controller.cfg.successes = max cfg.successes 1 := by
    rw [h.cfg_eq, new_successes]
  have hcooled := h.cooled_iff hmode e.time
  rw [hcooldown] at hcooled
  obtain ⟨time, call⟩ := e
  cases call with
  | mode =>
      have hstay : (o.controller.lapse time).mode ≠ .proxy := by
        rw [h.lapse_mode hmode]
        split <;> decide
      exact ⟨fun hproxy => absurd hproxy hmode, fun _ hproxy => absurd hproxy hstay,
        fun _ => iff_of_false hstay fun hcall => (nomatch hcall.1)⟩
  | recordFailure =>
      have hstay : (o.controller.recordFailure time).mode ≠ .proxy := by
        rw [ne_eq, recordFailure_mode_eq_proxy_iff]
        exact fun hproxy => hmode hproxy.1
      exact ⟨fun hproxy => absurd hproxy hmode, fun _ hproxy => absurd hproxy hstay,
        fun _ => iff_of_false hstay fun hcall => (nomatch hcall.1)⟩
  | recordSuccess =>
      have hback := h.recordSuccess_mode hmode
      refine ⟨fun hproxy => absurd hproxy hmode, fun _ hproxy => hcooled.mpr (hback.mp hproxy).1,
        fun _ => ?_⟩
      simp only [Observed.step, Controller.step, History.add, hback, true_and, ← hmax, hcooldown]
      by_cases hle : o.controller.untilTime ≤ time
      · simp only [hle, true_and, hcooled.mpr hle, if_true]
        push_cast
        omega
      · have hnot : ¬ o.history.Cooled cfg.cooldown time := fun hc => hle (hcooled.mp hc)
        simp only [hle, false_and, hnot, if_false, false_iff]
        omega

theorem Follows.documented_iff {e : Event} (h : Follows cfg o e.time) :
    Documented cfg o e ↔ Unbroken o e := by
  by_cases hmode : o.controller.mode = .proxy
  · exact h.documented_proxy_iff hmode
  · exact iff_of_true (h.documented_direct hmode) fun _ hproxy => absurd hproxy hmode

end Step

/-- Before a call that no earlier one comes after, the controller follows its history. -/
theorem follows_run (cfg : Config) {past : List Event} {now : Int}
    (hsorted : past.Pairwise fun a b => a.time ≤ b.time) (hnow : ∀ e ∈ past, e.time ≤ now) :
    Follows cfg (past.foldl Observed.step (start cfg)) now := by
  induction past using List.reverseRecOn generalizing now with
  | nil => exact start_follows cfg now
  | append_singleton past e ih =>
      rw [List.foldl_append]
      obtain ⟨hpast, -, hbefore⟩ := List.pairwise_append.mp hsorted
      have hfollows := ih hpast fun p hp => hbefore p hp e (List.mem_singleton_self e)
      exact hfollows.step.mono (hnow e (by simp))

/-- Under a clock that never goes back, every call of a run is as documented exactly
when no failure ends the proxy mode with a broken row. -/
theorem controller_documented_iff (cfg : Config) (events : List Event)
    (hclock : events.Pairwise fun a b => a.time ≤ b.time) :
    (∀ past e later, events = past ++ e :: later →
      Documented cfg (past.foldl Observed.step (start cfg)) e) ↔
    Allowed Observed.step Unbroken (start cfg) events := by
  rw [allowed_iff_forall_split]
  refine forall_congr' fun past => forall_congr' fun e => forall_congr' fun later =>
    forall_congr' fun hsplit => ?_
  subst hsplit
  obtain ⟨hpast, -, hbefore⟩ := List.pairwise_append.mp hclock
  exact (follows_run cfg hpast fun p hp => hbefore p hp e (by simp)).documented_iff

/-- Three failures in a row, the cooldown, and two successes after it. -/
theorem controller_documented_threshold :
    let events : List Event := [⟨100, .recordFailure⟩, ⟨100, .recordFailure⟩, ⟨101, .mode⟩,
      ⟨102, .recordFailure⟩, ⟨110, .recordSuccess⟩, ⟨132, .recordSuccess⟩, ⟨133, .recordSuccess⟩]
    ∀ past e later, events = past ++ e :: later →
      Documented ⟨3, 2, 30⟩ (past.foldl Observed.step (start ⟨3, 2, 30⟩)) e :=
  (controller_documented_iff ⟨3, 2, 30⟩ _ (by decide)).mpr (by decide)

/-- Two failures with a success between them end the proxy mode at a threshold of two. -/
theorem broken_row_leaves_proxy :
    let past : List Event := [⟨100, .recordFailure⟩, ⟨101, .recordSuccess⟩]
    let o := past.foldl Observed.step (start ⟨2, 1, 30⟩)
    o.controller.mode = .proxy ∧ (o.step ⟨102, .recordFailure⟩).controller.mode ≠ .proxy ∧
      (o.step ⟨102, .recordFailure⟩).history.inRow = 1 ∧
      ¬ Documented ⟨2, 1, 30⟩ o ⟨102, .recordFailure⟩ := by
  refine ⟨by decide, by decide, by decide, fun hdoc => ?_⟩
  exact absurd ((hdoc.leaves (by decide)).mp (by decide)).2 (by decide)

end Hy2Route.Failover
