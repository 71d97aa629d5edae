import Hy2Route.Transport.Routes
import Mathlib.Data.List.Chain

/-!
# Recovery probes

A dialer that fails open leaves its proxy when the controller says so, and looks now and
then whether the proxy has recovered: a dial that finds the controller recovering may
launch a probe. A flag keeps a second probe from starting while one is in flight, and a
moment keeps probes apart in time. Dials, probes and the other users of the controller run
as threads. The flag belongs to one thread at a time: a dial takes it, and gives it back or
hands it on to the probe that it launches.

The dials of the proxy and of the direct route answer at once when their step comes; how
long they take is how long the step is put off.
-/

namespace Hy2Route.Transport

open Foundation Failover

/-- What the dials and the probes share. The zero time of `nextProbe` is none. The reports
of the probes to the controller are recorded with their threads. -/
structure FailOpen where
  controller : Controller
  probeInterval : Int
  probeRunning : Bool
  nextProbe : Option Int
  reports : List (Nat × Bool)

def newFailOpenWithProbe (controller : Controller) (probeInterval : Int) : FailOpen :=
  ⟨controller, if probeInterval ≤ 0 then second else probeInterval, false, none, []⟩

namespace FailOpen

inductive DialResult where
  | proxy
  | direct
  | failed
  deriving DecidableEq

inductive DialPoint where
  | start
  | checking
  | swapping
  | timing (now : Int)
  | clearing
  | dialing
  | succeeded
  | failed
  | dialingDirect
  | done (result : DialResult)
  deriving DecidableEq

inductive ProbePoint where
  | dialing
  | succeeded
  | failed
  | clearing
  | done
  deriving DecidableEq

/-- A step that launches a probe gives the time that it goes by. -/
def dial (d : FailOpen) (input : Input) : DialPoint → Option (FailOpen × DialPoint × Option Int)
  | .start =>
      let (controller, mode) := d.controller.currentMode input.now
      some ({ d with controller := controller },
        if mode ≠ .proxy then .checking else .dialing, none)
  | .checking =>
      let (controller, mode) := d.controller.currentMode input.now
      some ({ d with controller := controller },
        if mode ≠ .directRecovery then .dialingDirect else .swapping, none)
  | .swapping =>
      if d.probeRunning then some (d, .dialingDirect, none)
      else some ({ d with probeRunning := true }, .timing input.now, none)
  | .timing now =>
      if reached d.nextProbe now then
        some ({ d with nextProbe := some (now + d.probeInterval) }, .dialingDirect, some now)
      else some (d, .clearing, none)
  | .clearing => some ({ d with probeRunning := false }, .dialingDirect, none)
  | .dialing => some (d, if input.ok then .succeeded else .failed, none)
  | .succeeded =>
      some ({ d with controller := d.controller.recordSuccess input.now }, .done .proxy, none)
  | .failed =>
      some ({ d with controller := d.controller.recordFailure input.now }, .dialingDirect, none)
  | .dialingDirect => some (d, .done (if input.ok then .direct else .failed), none)
  | .done _ => none

def probe (i : Nat) (d : FailOpen) (input : Input) : ProbePoint → Option (FailOpen × ProbePoint)
  | .dialing => some (d, if input.ok then .succeeded else .failed)
  | .succeeded =>
      some ({ d with
        controller := d.controller.recordSuccess input.now, reports := d.reports ++ [(i, true)] },
        .clearing)
  | .failed =>
      some ({ d with
        controller := d.controller.recordFailure input.now, reports := d.reports ++ [(i, false)] },
        .clearing)
  | .clearing => some ({ d with probeRunning := false }, .done)
  | .done => none

/-- Another user calls the controller once. -/
inductive Thread where
  | dial (point : DialPoint)
  | probe (started : Int) (point : ProbePoint)
  | control (call : Failover.Call) (finished : Bool)
  deriving DecidableEq

inductive Call where
  | dial
  | probe (started : Int)
  | control (call : Failover.Call)

def Call.start : Call → Thread
  | .dial => .dial .start
  | .probe started => .probe started .dialing
  | .control call => .control call false

def exec (d : FailOpen) (i : Nat) (thread : Thread) (input : Input) :
    Option (FailOpen × Thread × List Call) :=
  match thread with
  | .dial point =>
      (d.dial input point).map fun (d, point, launched) =>
        (d, .dial point, launched.toList.map .probe)
  | .probe started point =>
      (d.probe i input point).map fun (d, point) => (d, .probe started point, [])
  | .control call false =>
      some ({ d with controller := d.controller.step ⟨input.now, call⟩ }, .control call true, [])
  | .control _ true => none

def machine : Machine FailOpen Thread Call Input where
  start := Call.start
  exec := exec

/-- Probes are launched by dials only. -/
inductive Client where
  | dial
  | control (call : Failover.Call)

def Client.call : Client → Call
  | .dial => .dial
  | .control call => .control call

def clientMove : Move Client Input → Move Call Input
  | .call client => .call client.call
  | .run i input => .run i input

/-- A run of the clients' calls and of the probes that come of them. -/
def run (d : FailOpen) (moves : List (Move Client Input)) : Threads FailOpen Thread :=
  moves.foldl (fun s move => machine.step s (clientMove move)) ⟨d, []⟩

/-- The controller after a report. -/
def told (controller : Controller) (now : Int) : Bool → Controller
  | true => controller.recordSuccess now
  | false => controller.recordFailure now

/-! ## What a step can do -/

section Steps

variable {d d' : FailOpen} {i : Nat} {input : Input} {thread thread' : Thread}
  {calls : List Call}

/-- The steps of the threads, with the calls that they start. -/
inductive Step (d : FailOpen) (i : Nat) (input : Input) :
    Thread → FailOpen → Thread → List Call → Prop where
  | looked (point : DialPoint) (next : point = .checking ∨ point = .dialing) :
      Step d i input (.dial .start)
        { d with controller := (d.controller.currentMode input.now).1 } (.dial point) []
  | notRecovering :
      Step d i input (.dial .checking)
        { d with controller := (d.controller.currentMode input.now).1 } (.dial .dialingDirect) []
  | recovering (mode : (d.controller.currentMode input.now).2 = .directRecovery) :
      Step d i input (.dial .checking)
        { d with controller := (d.controller.currentMode input.now).1 } (.dial .swapping) []
  | busy (running : d.probeRunning = true) :
      Step d i input (.dial .swapping) d (.dial .dialingDirect) []
  | took (free : d.probeRunning = false) :
      Step d i input (.dial .swapping) { d with probeRunning := true }
        (.dial (.timing input.now)) []
  | launched (now : Int) (due : reached d.nextProbe now = true) :
      Step d i input (.dial (.timing now)) { d with nextProbe := some (now + d.probeInterval) }
        (.dial .dialingDirect) [.probe now]
  | early (now : Int) : Step d i input (.dial (.timing now)) d (.dial .clearing) []
  | gaveBack :
      Step d i input (.dial .clearing) { d with probeRunning := false } (.dial .dialingDirect) []
  | dialed (point : DialPoint) (next : point = .succeeded ∨ point = .failed) :
      Step d i input (.dial .dialing) d (.dial point) []
  | dialSucceeded :
      Step d i input (.dial .succeeded)
        { d with controller := d.controller.recordSuccess input.now } (.dial (.done .proxy)) []
  | dialFailed :
      Step d i input (.dial .failed)
        { d with controller := d.controller.recordFailure input.now } (.dial .dialingDirect) []
  | dialedDirect (result : DialResult) :
      Step d i input (.dial .dialingDirect) d (.dial (.done result)) []
  | probed (started : Int) (point : ProbePoint) (next : point = .succeeded ∨ point = .failed) :
      Step d i input (.probe started .dialing) d (.probe started point) []
  | reported (started : Int) (point : ProbePoint) (ok : Bool)
      (outcome : point = if ok then .succeeded else .failed) :
      Step d i input (.probe started point)
        { d with controller := told d.controller input.now ok, reports := d.reports ++ [(i, ok)] }
        (.probe started .clearing) []
  | finished (started : Int) :
      Step d i input (.probe started .clearing) { d with probeRunning := false }
        (.probe started .done) []
  | controlled (call : Failover.Call) (controller : Controller) :
      Step d i input (.control call false) { d with controller := controller }
        (.control call true) []

theorem dial_spec {point point' : DialPoint} {launched : Option Int}
    (hstep : d.dial input point = some (d', point', launched)) :
    Step d i input (.dial point) d' (.dial point') (launched.toList.map .probe) := by
  cases point with
  | start =>
      cases hstep
      refine .looked _ ?_
      split_ifs
      · exact Or.inl rfl
      · exact Or.inr rfl
  | checking =>
      simp only [dial] at hstep
      split_ifs at hstep with hmode
      · cases hstep
        exact .notRecovering
      · cases hstep
        exact .recovering (not_not.mp hmode)
  | swapping =>
      simp only [dial] at hstep
      split_ifs at hstep with hrunning
      · cases hstep
        exact .busy hrunning
      · cases hstep
        exact .took (Bool.not_eq_true _ ▸ hrunning)
  | timing now =>
      simp only [dial] at hstep
      split_ifs at hstep with hdue
      · cases hstep
        exact .launched now hdue
      · cases hstep
        exact .early now
  | clearing =>
      cases hstep
      exact .gaveBack
  | dialing =>
      cases hstep
      refine .dialed _ ?_
      split_ifs
      · exact Or.inl rfl
      · exact Or.inr rfl
  | succeeded =>
      cases hstep
      exact .dialSucceeded
  | failed =>
      cases hstep
      exact .dialFailed
  | dialingDirect =>
      cases hstep
      exact .dialedDirect _
  | done result => cases hstep

theorem probe_spec (started : Int) {point point' : ProbePoint}
    (hstep : d.probe i input point = some (d', point')) :
    Step d i input (.probe started point) d' (.probe started point') [] := by
  cases point with
  | dialing =>
      cases hstep
      refine .probed started _ ?_
      split_ifs
      · exact Or.inl rfl
      · exact Or.inr rfl
  | succeeded =>
      cases hstep
      exact .reported started _ true rfl
  | failed =>
      cases hstep
      exact .reported started _ false rfl
  | clearing =>
      cases hstep
      exact .finished started
  | done => cases hstep

theorem exec_spec (h : machine.exec d i thread input = some (d', thread', calls)) :
    Step d i input thread d' thread' calls := by
  change d.exec i thread input = _ at h
  cases thread with
  | dial point =>
      obtain ⟨_, hstep, heq⟩ := Option.map_eq_some_iff.mp h
      cases heq
      exact dial_spec hstep
  | probe started point =>
      obtain ⟨_, hstep, heq⟩ := Option.map_eq_some_iff.mp h
      cases heq
      exact probe_spec started hstep
  | control call finished =>
      cases finished with
      | false =>
          cases h
          exact .controlled call _
      | true => cases h

end Steps

/-! ## The flag -/

/-- The threads that own the flag. -/
def Thread.weight : Thread → Int
  | .dial (.timing _) | .dial .clearing => 1
  | .probe _ .done => 0
  | .probe _ _ => 1
  | _ => 0

def flag (d : FailOpen) : Int := if d.probeRunning then 1 else 0

theorem flag_eq_one {d : FailOpen} (h : 1 ≤ d.flag) : d.flag = 1 := by
  unfold flag at h ⊢
  split_ifs at h ⊢ with hrunning
  · rfl
  · exact absurd h (by decide)

/-- The flag is owned by one thread while it is set. -/
theorem machine_shares : machine.Shares flag Thread.weight where
  nonneg := by
    intro t
    unfold Thread.weight
    split <;> decide
  exec := by
    intro d i t input d' t' calls hle hexec
    cases exec_spec hexec with
    | looked point next => rcases next with rfl | rfl <;> simp [flag, Thread.weight]
    | dialed point next => rcases next with rfl | rfl <;> simp [Thread.weight]
    | probed started point next => rcases next with rfl | rfl <;> simp [Thread.weight]
    | took free => simp [flag, Thread.weight, free]
    | launched now due => simp [flag, Thread.weight, machine, Call.start]
    | gaveBack =>
        rw [flag_eq_one hle]
        rfl
    | reported started point ok outcome =>
        subst outcome
        cases ok <;> simp [flag, Thread.weight]
    | finished started =>
        rw [flag_eq_one hle]
        rfl
    | _ => simp [flag, Thread.weight]

theorem held_run (d : FailOpen) (hfree : d.probeRunning = false)
    (moves : List (Move Client Input)) : Machine.Held flag Thread.weight (run d moves) := by
  have hstep (s : Threads FailOpen Thread) (move : Move Client Input)
      (hs : Machine.Held flag Thread.weight s) :
      Machine.Held flag Thread.weight (machine.step s (clientMove move)) := by
    refine machine_shares.step hs fun c hc => ?_
    cases move with
    | call client =>
        cases hc
        cases client <;> rfl
    | run i input => cases hc
  have hstart : Machine.Held flag Thread.weight ⟨d, []⟩ := by
    simp [Machine.Held, flag, hfree]
  exact foldl_invariant hstep hstart moves

/-! ## The times of the probes -/

def Thread.started : Thread → Option Int
  | .probe started _ => some started
  | _ => none

/-- The times that the probes went by, in the order in which they were launched. -/
def starts (s : Threads FailOpen Thread) : List Int := s.threads.filterMap Thread.started

theorem Step.started {d d' : FailOpen} {i : Nat} {input : Input} {t t' : Thread}
    {calls : List Call} (h : Step d i input t d' t' calls) : t'.started = t.started := by
  cases h <;> rfl

/-- A step adds the probe that it launches to the times. -/
theorem starts_step {s : Threads FailOpen Thread} {i : Nat} {t t' : Thread} {calls : List Call}
    {d' : FailOpen} {input : Input} (ht : s.threads[i]? = some t)
    (h : Step s.shared i input t d' t' calls) :
    starts ⟨d', s.threads.set i t' ++ calls.map machine.start⟩ =
      starts s ++ calls.filterMap fun c => c.start.started := by
  have hset : (s.threads.set i t').filterMap Thread.started = starts s := by
    have hmap : (s.threads.set i t').map Thread.started = s.threads.map Thread.started := by
      obtain ⟨hi, rfl⟩ := List.getElem?_eq_some_iff.mp ht
      have hlt : i < (s.threads.map Thread.started).length := by rwa [List.length_map]
      rw [List.map_set, h.started, ← List.getElem_map Thread.started (h := hlt),
        List.set_getElem_self]
    have hid := congrArg (List.filterMap id) hmap
    rwa [List.filterMap_map, List.filterMap_map] at hid
  change (s.threads.set i t' ++ calls.map machine.start).filterMap Thread.started = _
  rw [List.filterMap_append, hset, List.filterMap_map]
  rfl

/-- The probes went by times that are apart, and the next one has to wait for its time. -/
structure Apart (interval : Int) (s : Threads FailOpen Thread) : Prop where
  interval_eq : s.shared.probeInterval = interval
  chain : (starts s).IsChain fun a b => a + interval ≤ b
  next : s.shared.nextProbe = (starts s).getLast?.map (· + interval)

theorem Step.nextProbe {d d' : FailOpen} {i : Nat} {input : Input} {t t' : Thread}
    {calls : List Call} (h : Step d i input t d' t' calls) :
    d'.probeInterval = d.probeInterval ∧
      ((calls = [] ∧ d'.nextProbe = d.nextProbe) ∨
        ∃ now, t = .dial (.timing now) ∧ calls = [.probe now] ∧ reached d.nextProbe now = true ∧
          d'.nextProbe = some (now + d.probeInterval)) := by
  cases h with
  | launched now due => exact ⟨rfl, Or.inr ⟨now, rfl, rfl, due, rfl⟩⟩
  | _ => exact ⟨rfl, Or.inl ⟨rfl, rfl⟩⟩

theorem Apart.exec {interval : Int} {s : Threads FailOpen Thread} (hs : Apart interval s) {i : Nat}
    {t t' : Thread} {calls : List Call} {d' : FailOpen} {input : Input}
    (ht : s.threads[i]? = some t) (h : Step s.shared i input t d' t' calls) :
    Apart interval ⟨d', s.threads.set i t' ++ calls.map machine.start⟩ := by
  have hstarts := starts_step ht h
  obtain ⟨hinterval, ⟨rfl, hnext⟩ | ⟨now, -, rfl, hdue, hnext⟩⟩ := h.nextProbe
  · rw [List.filterMap_nil, List.append_nil] at hstarts
    refine ⟨hinterval.trans hs.interval_eq, ?_, ?_⟩
    · rw [hstarts]
      exact hs.chain
    · rw [hstarts]
      exact hnext.trans hs.next
  · have hone : [Call.probe now].filterMap (fun c => c.start.started) = [now] := rfl
    rw [hone] at hstarts
    refine ⟨hinterval.trans hs.interval_eq, ?_, ?_⟩
    · rw [hstarts]
      refine hs.chain.append (List.isChain_singleton now) fun last hlast first hfirst => ?_
      obtain rfl : first = now := by simpa using hfirst.symm
      rw [hs.next, Option.mem_def.mp hlast] at hdue
      simpa [reached] using hdue
    · rw [hstarts, List.getLast?_concat, Option.map_some]
      exact hnext.trans (by rw [hs.interval_eq])

theorem starts_call (s : Threads FailOpen Thread) (client : Client) :
    starts (machine.step s (.call client.call)) = starts s := by
  change (s.threads ++ [client.call.start]).filterMap Thread.started = _
  cases client <;> simp [starts, Client.call, Call.start, Thread.started]

theorem apart_run (d : FailOpen) (hnext : d.nextProbe = none) (moves : List (Move Client Input)) :
    Apart d.probeInterval (run d moves) := by
  refine foldl_invariant (fun s move hs => ?_) ⟨rfl, List.isChain_nil, hnext⟩ moves
  cases move with
  | call client =>
      refine ⟨hs.interval_eq, ?_, ?_⟩
      · rw [clientMove, starts_call]
        exact hs.chain
      · rw [clientMove, starts_call]
        exact hs.next
  | run i input =>
      rcases machine.step_run_cases s i input with hsame | ⟨t, d', t', calls, ht, hexec, hstep⟩
      · rw [clientMove, hsame]
        exact hs
      · rw [clientMove, hstep]
        exact hs.exec ht (exec_spec hexec)

/-! ## The dials that launch -/

/-- A dial that has seen the controller recovering. -/
inductive Thread.SawRecovery : Thread → Prop where
  | swapping : SawRecovery (.dial .swapping)
  | timing (now : Int) : SawRecovery (.dial (.timing now))
  | clearing : SawRecovery (.dial .clearing)

/-- The step of a dial in which the controller is recovering. -/
def SeesRecovery (s : Threads FailOpen Thread) (move : Move Client Input) (i : Nat) : Prop :=
  ∃ input, move = .run i input ∧ s.threads[i]? = some (.dial .checking) ∧
    (s.shared.controller.currentMode input.now).2 = .directRecovery

theorem sawRecovery_step (s : Threads FailOpen Thread) (move : Move Client Input) (i : Nat)
    (h : ∃ t, (machine.step s (clientMove move)).threads[i]? = some t ∧ t.SawRecovery) :
    (∃ t, s.threads[i]? = some t ∧ t.SawRecovery) ∨ SeesRecovery s move i := by
  obtain ⟨u, hu, hsaw⟩ := h
  cases move with
  | call client =>
      left
      change (s.threads ++ [client.call.start])[i]? = some u at hu
      by_cases hlt : i < s.threads.length
      · rw [List.getElem?_append_left hlt] at hu
        exact ⟨u, hu, hsaw⟩
      · rw [List.getElem?_append_right (Nat.le_of_not_lt hlt)] at hu
        obtain rfl := List.mem_singleton.mp (List.mem_of_getElem? hu)
        cases client <;> cases hsaw
  | run j input =>
      rcases machine.step_run_cases s j input with hsame | ⟨t, d', t', calls, ht, hexec, hstep⟩
      · rw [clientMove, hsame] at hu
        exact Or.inl ⟨u, hu, hsaw⟩
      · have hspec := exec_spec hexec
        rw [clientMove, hstep] at hu
        rcases Machine.getElem?_set_append hu with ⟨rfl, rfl⟩ | ⟨-, hu⟩ | hu
        · -- only a look at the recovering controller gets a dial there
          cases hspec with
          | recovering mode => exact Or.inr ⟨input, rfl, ht, mode⟩
          | took free => exact Or.inl ⟨_, ht, .swapping⟩
          | early now => exact Or.inl ⟨_, ht, .timing now⟩
          | looked point next => rcases next with rfl | rfl <;> cases hsaw
          | dialed point next => rcases next with rfl | rfl <;> cases hsaw
          | _ => cases hsaw
        · exact Or.inl ⟨u, hu, hsaw⟩
        · obtain ⟨c, hc, rfl⟩ := List.mem_map.mp hu
          rcases hspec.nextProbe.2 with ⟨rfl, -⟩ | ⟨now, -, rfl, -⟩
          · cases hc
          · obtain rfl := List.mem_singleton.mp hc
            cases hsaw

/-- A dial between its look at the recovering controller and its launch has seen it. -/
theorem exists_seesRecovery (d : FailOpen) {moves : List (Move Client Input)} {i : Nat}
    {t : Thread} (ht : (run d moves).threads[i]? = some t) (hsaw : t.SawRecovery) :
    ∃ earlier look later, moves = earlier ++ look :: later ∧
      SeesRecovery (run d earlier) look i := by
  have hinv (s : Threads FailOpen Thread) (move : Move Client Input) (_ : True) : True := trivial
  exact exists_call_of_held (fun s i => ∃ t, s.threads[i]? = some t ∧ t.SawRecovery) hinv
    (fun s move i _ h => sawRecovery_step s move i h) trivial (by simp) moves ⟨t, ht, hsaw⟩

/-! ## The reports -/

/-- How many reports a thread has made. -/
def Thread.reported : Thread → Nat
  | .probe _ .clearing | .probe _ .done => 1
  | _ => 0

/-- The reports of a thread. -/
def reportsOf (d : FailOpen) (i : Nat) : List (Nat × Bool) := d.reports.filter (·.1 = i)

theorem Step.reports {d d' : FailOpen} {i : Nat} {input : Input} {t t' : Thread}
    {calls : List Call} (h : Step d i input t d' t' calls) :
    (d'.reports = d.reports ∧ t'.reported = t.reported) ∨
      ∃ ok, d'.reports = d.reports ++ [(i, ok)] ∧ t.reported = 0 ∧ t'.reported = 1 := by
  cases h with
  | reported started point ok outcome =>
      refine Or.inr ⟨ok, rfl, ?_, rfl⟩
      subst outcome
      cases ok <;> rfl
  | looked point next => rcases next with rfl | rfl <;> exact Or.inl ⟨rfl, rfl⟩
  | dialed point next => rcases next with rfl | rfl <;> exact Or.inl ⟨rfl, rfl⟩
  | probed started point next => rcases next with rfl | rfl <;> exact Or.inl ⟨rfl, rfl⟩
  | _ => exact Or.inl ⟨rfl, rfl⟩

/-- A report is a step of a probe and is made to the controller, and otherwise a probe leaves
the controller alone. -/
theorem Step.told {d d' : FailOpen} {i : Nat} {input : Input} {t t' : Thread}
    {calls : List Call} (h : Step d i input t d' t' calls) :
    (∃ started ok, t = .probe started (if ok then .succeeded else .failed) ∧
      d'.reports = d.reports ++ [(i, ok)] ∧
      d'.controller = FailOpen.told d.controller input.now ok) ∨
    (d'.reports = d.reports ∧
      ((∃ started point, t = .probe started point) → d'.controller = d.controller)) := by
  cases h with
  | reported started point ok outcome =>
      subst outcome
      exact Or.inl ⟨started, ok, rfl, rfl, rfl⟩
  | probed | finished => exact Or.inr ⟨rfl, fun _ => rfl⟩
  | _ =>
      refine Or.inr ⟨rfl, ?_⟩
      rintro ⟨started, point, heq⟩
      cases heq

/-- Every thread has made the reports that its point says. -/
theorem machine_keeps_reports :
    machine.Keeps (fun _ _ _ _ => True) (fun d n => ∀ r ∈ d.reports, r.1 < n)
      (fun d i t => (d.reportsOf i).length = t.reported) where
  start := by
    intro d n c hG
    refine ⟨fun r hr => Nat.lt_succ_of_lt (hG r hr), ?_⟩
    have hnone : d.reportsOf n = [] := by
      refine List.filter_eq_nil_iff.mpr fun r hr => ?_
      simpa using (hG r hr).ne
    rw [hnone]
    cases c <;> rfl
  exec := by
    intro d n i t input d' t' calls hG hi hL _ hexec
    rcases (exec_spec hexec).reports with ⟨hreports, hsame⟩ | ⟨ok, hreports, hzero, hone⟩
    · rw [reportsOf, hreports, hsame]
      exact ⟨hG, hL⟩
    · rw [reportsOf, hreports, List.filter_append, List.length_append, hone]
      refine ⟨fun r hr => ?_, ?_⟩
      · rcases List.mem_append.mp hr with hr | hr
        · exact hG r hr
        · obtain rfl := List.mem_singleton.mp hr
          exact hi
      · rw [hzero] at hL
        change (d.reportsOf i).length + _ = 1
        simp [hL]
  other := by
    intro d n i t input d' t' calls j u _ _ _ _ hexec hj hu
    rcases (exec_spec hexec).reports with ⟨hreports, -⟩ | ⟨ok, hreports, -⟩
    · rw [reportsOf, hreports]
      exact hu
    · rw [reportsOf, hreports, List.filter_append, List.length_append]
      change (d.reportsOf j).length + _ = _
      simp [Ne.symm hj, hu]

theorem reports_run (d : FailOpen) (hnone : d.reports = []) (moves : List (Move Client Input)) :
    Invariant (fun d n => ∀ r ∈ d.reports, r.1 < n)
      (fun d i t => (d.reportsOf i).length = t.reported) (run d moves) := by
  rw [run, ← List.foldl_map]
  exact machine_keeps_reports.run_all ⟨by simp [hnone], by simp⟩ _

/-- The steps that a probe has left. -/
def ProbePoint.left : ProbePoint → Nat
  | .dialing => 3
  | .succeeded | .failed => 2
  | .clearing => 1
  | .done => 0

/-- The thread is a probe with at most so many steps left. -/
def ProbeWithin (i : Nat) (started : Int) (left : Nat) (s : Threads FailOpen Thread) : Prop :=
  ∃ point : ProbePoint, s.threads[i]? = some (.probe started point) ∧ point.left ≤ left

theorem ProbeWithin.step {i : Nat} {started : Int} {left : Nat} {s : Threads FailOpen Thread}
    (h : ProbeWithin i started left s) (input : Input) :
    ProbeWithin i started (left - 1) (machine.step s (.run i input)) := by
  obtain ⟨point, hpoint, hleft⟩ := h
  have hexec (next : ProbePoint) (d' : FailOpen)
      (hstep : s.shared.probe i input point = some (d', next)) (hnext : next.left ≤ left - 1) :
      ProbeWithin i started (left - 1) (machine.step s (.run i input)) := by
    have hrun : machine.exec s.shared i (.probe started point) input =
        some (d', .probe started next, []) := by
      change (s.shared.probe i input point).map _ = _
      rw [hstep]
      rfl
    exact ⟨next, (Machine.threads_step_run hpoint hrun).1, hnext⟩
  cases point with
  | dialing =>
      refine hexec _ _ rfl ?_
      split_ifs <;> exact Nat.le_sub_one_of_lt hleft
  | succeeded => exact hexec _ _ rfl (Nat.le_sub_one_of_lt hleft)
  | failed => exact hexec _ _ rfl (Nat.le_sub_one_of_lt hleft)
  | clearing => exact hexec _ _ rfl (Nat.le_sub_one_of_lt hleft)
  | done =>
      rw [Machine.step_blocked hpoint rfl]
      exact ⟨.done, hpoint, Nat.zero_le _⟩

/-- A probe comes to its end with its own steps. -/
theorem probe_finishes {s : Threads FailOpen Thread} {i : Nat} {started : Int} {point : ProbePoint}
    (h : s.threads[i]? = some (.probe started point)) {inputs : List Input}
    (hlen : 3 ≤ inputs.length) :
    ((inputs.map (Move.run i)).foldl machine.step s).threads[i]? =
      some (.probe started .done) := by
  have hwithin : ProbeWithin i started 3 s := ⟨point, h, by cases point <;> decide⟩
  have hstep (left : Nat) (s : Threads FailOpen Thread) (input : Input) (_ : True)
      (hs : ProbeWithin i started (left + 1) s) :
      ProbeWithin i started left (machine.step s (.run i input)) := hs.step input
  have hend (s : Threads FailOpen Thread) (input : Input) (hs : ProbeWithin i started 0 s) :
      ProbeWithin i started 0 (machine.step s (.run i input)) := hs.step input
  obtain ⟨point, hpoint, hleft⟩ :=
    Machine.progress hstep hend hwithin hlen fun _ _ => trivial
  cases point with
  | done => exact hpoint
  | _ => exact absurd hleft (by decide)

/-! ## Single flight -/

/-- A probe that has not come to its end. -/
inductive Thread.InFlight : Thread → Prop where
  | probe (started : Int) (point : ProbePoint) (running : point ≠ .done) :
      InFlight (.probe started point)

/-- A dial that looks whether it should probe. -/
inductive Thread.InMaybeProbe : Thread → Prop where
  | checking : InMaybeProbe (.dial .checking)
  | swapping : InMaybeProbe (.dial .swapping)
  | timing (now : Int) : InMaybeProbe (.dial (.timing now))
  | clearing : InMaybeProbe (.dial .clearing)

theorem Thread.InFlight.weight_eq {t : Thread} (h : t.InFlight) : t.weight = 1 := by
  obtain ⟨started, point, running⟩ := h
  cases point with
  | done => exact absurd rfl running
  | _ => rfl

theorem Thread.weight_eq_zero {t : Thread} (hflight : ¬ t.InFlight) (hmaybe : ¬ t.InMaybeProbe) :
    t.weight = 0 := by
  cases t with
  | dial point =>
      cases point with
      | timing now => exact absurd (.timing now) hmaybe
      | clearing => exact absurd .clearing hmaybe
      | _ => rfl
  | probe started point =>
      cases point with
      | done => rfl
      | _ => exact absurd (.probe started _ nofun) hflight
  | control call finished => rfl

/-- A probe is launched by a dial that has taken the flag. -/
theorem exists_timing_of_starts_ne {s : Threads FailOpen Thread} {move : Move Client Input}
    (h : starts (machine.step s (clientMove move)) ≠ starts s) :
    ∃ i input now, move = .run i input ∧ s.threads[i]? = some (.dial (.timing now)) := by
  cases move with
  | call client => exact absurd (starts_call s client) h
  | run i input =>
      rcases machine.step_run_cases s i input with hsame | ⟨t, d', t', calls, ht, hexec, hstep⟩
      · exact absurd (congrArg starts hsame) h
      · have hspec := exec_spec hexec
        rw [clientMove, hstep, starts_step ht hspec] at h
        rcases hspec.nextProbe.2 with ⟨rfl, -⟩ | ⟨now, rfl, -⟩
        · exact absurd (List.append_nil _) h
        · exact ⟨i, input, now, rfl, ht⟩

/-- Two threads do not own the flag at once. -/
theorem eq_of_inFlight {s : Threads FailOpen Thread} (h : Machine.Held flag Thread.weight s)
    {i j : Nat} {t u : Thread} (ht : s.threads[i]? = some t) (hu : s.threads[j]? = some u)
    (hflight : t.InFlight) (hflight' : u.InFlight) : i = j := by
  by_contra hne
  have hle := h.add_weight_le machine_shares.nonneg ht hu hne
  rw [hflight.weight_eq, hflight'.weight_eq, flag] at hle
  split_ifs at hle
  · exact absurd hle (by decide)
  · exact absurd hle (by decide)

theorem probeRunning_of_idle {s : Threads FailOpen Thread}
    (h : Machine.Held flag Thread.weight s)
    (hidle : ∀ t ∈ s.threads, ¬ t.InFlight ∧ ¬ t.InMaybeProbe) : s.shared.probeRunning = false := by
  have hsum : (s.threads.map Thread.weight).sum = 0 := by
    refine List.sum_eq_zero fun w hw => ?_
    obtain ⟨t, ht, rfl⟩ := List.mem_map.mp hw
    exact Thread.weight_eq_zero (hidle t ht).1 (hidle t ht).2
  rw [Machine.Held, hsum, flag] at h
  split_ifs at h with hrunning
  · exact absurd h (by decide)
  · exact Bool.eq_false_of_not_eq_true hrunning

theorem told_step (s : Threads FailOpen Thread) (move : Move Client Input) :
    let after := machine.step s (clientMove move)
    (∃ i input started ok, move = .run i input ∧
      s.threads[i]? = some (.probe started (if ok then .succeeded else .failed)) ∧
      after.shared.reports = s.shared.reports ++ [(i, ok)] ∧
      after.shared.controller = told s.shared.controller input.now ok) ∨
    (after.shared.reports = s.shared.reports ∧ ∀ i input started point, move = .run i input →
      s.threads[i]? = some (.probe started point) →
      after.shared.controller = s.shared.controller) := by
  cases move with
  | call client => exact Or.inr ⟨rfl, nofun⟩
  | run j input =>
      simp only [clientMove]
      rcases machine.step_run_cases s j input with hsame | ⟨t, d', t', calls, ht, hexec, hstep⟩
      · rw [hsame]
        exact Or.inr ⟨rfl, fun _ _ _ _ _ _ => rfl⟩
      · rw [hstep]
        rcases (exec_spec hexec).told with ⟨started, ok, rfl, hreports, hcontroller⟩ |
          ⟨hsame, hprobe⟩
        · exact Or.inl ⟨j, input, started, ok, rfl, ht, hreports, hcontroller⟩
        · refine Or.inr ⟨hsame, ?_⟩
          rintro i _ started point ⟨⟩ hthread
          rw [ht] at hthread
          exact hprobe ⟨started, point, Option.some.inj hthread⟩

end FailOpen

/-! ## The trusted route -/

/-- The part of the trusted route that fails open. -/
def Routes.failOpen (r : Routes) : FailOpen :=
  ⟨r.controller, r.probeInterval, r.probeRunning, r.nextProbe, []⟩

/-- A dial through the relay is one dial of the proxy. -/
def DialPoint.failOpen : DialPoint → FailOpen.DialPoint
  | .start => .start
  | .checking => .checking
  | .swapping => .swapping
  | .timing now => .timing now
  | .clearing => .clearing
  | .relaying _ => .dialing
  | .succeeded _ => .succeeded
  | .failed => .failed
  | .dialingDirect => .dialingDirect
  | .done (.relay _) => .done .proxy
  | .done .direct => .done .direct
  | .done .failed => .done .failed

def ProbePoint.failOpen : ProbePoint → FailOpen.ProbePoint
  | .relaying _ => .dialing
  | .succeeded => .succeeded
  | .failed => .failed
  | .clearing => .clearing
  | .done => .done

theorem Routes.dial_failOpen {r r' : Routes} {input : Input} {point point' : DialPoint}
    {probes : Bool} (h : r.dial input point = some (r', point', probes)) :
    (r'.failOpen = r.failOpen ∧ point'.failOpen = point.failOpen ∧ probes = false) ∨
      ∃ answer launched, r.failOpen.dial answer point.failOpen =
        some (r'.failOpen, point'.failOpen, launched) ∧ launched.isSome = probes := by
  cases point with
  | start =>
      simp only [Routes.dial] at h
      split_ifs at h with hmode <;> cases h <;>
        exact Or.inr ⟨input, none, by simp [Routes.failOpen, DialPoint.failOpen, FailOpen.dial,
          hmode], rfl⟩
  | checking =>
      simp only [Routes.dial] at h
      split_ifs at h with hmode <;> cases h <;>
        exact Or.inr ⟨input, none, by simp [Routes.failOpen, DialPoint.failOpen, FailOpen.dial,
          hmode], rfl⟩
  | swapping =>
      simp only [Routes.dial] at h
      split_ifs at h with hrunning <;> cases h <;>
        exact Or.inr ⟨input, none, by simp [Routes.failOpen, DialPoint.failOpen, FailOpen.dial,
          hrunning], rfl⟩
  | timing now =>
      simp only [Routes.dial] at h
      split_ifs at h with hdue <;> cases h
      · exact Or.inr ⟨input, some now, by simp [Routes.failOpen, DialPoint.failOpen, FailOpen.dial,
          hdue], rfl⟩
      · exact Or.inr ⟨input, none, by simp [Routes.failOpen, DialPoint.failOpen, FailOpen.dial,
          hdue], rfl⟩
  | relaying relayPoint =>
      obtain ⟨⟨relay, next⟩, -, heq⟩ := Option.map_eq_some_iff.mp h
      cases heq
      cases next with
      | done result =>
          cases result with
          | primary => exact Or.inr ⟨⟨0, true, false⟩, none, rfl, rfl⟩
          | backup => exact Or.inr ⟨⟨0, true, false⟩, none, rfl, rfl⟩
          | cancelled => exact Or.inr ⟨⟨0, false, false⟩, none, rfl, rfl⟩
          | failed => exact Or.inr ⟨⟨0, false, false⟩, none, rfl, rfl⟩
      | _ => exact Or.inl ⟨rfl, rfl, rfl⟩
  | dialingDirect =>
      simp only [Routes.dial] at h
      split_ifs at h with hok <;> cases h <;>
        exact Or.inr ⟨input, none, by simp [Routes.failOpen, DialPoint.failOpen, FailOpen.dial,
          hok], rfl⟩
  | done result => cases h
  | _ =>
      cases h
      exact Or.inr ⟨input, none, rfl, rfl⟩

theorem Routes.probe_failOpen {r r' : Routes} (i : Nat) {input : Input} {point point' : ProbePoint}
    (h : r.probe input point = some (r', point')) :
    (r'.failOpen = r.failOpen ∧ point'.failOpen = point.failOpen) ∨
      ∃ answer d, FailOpen.probe i r.failOpen answer point.failOpen = some (d, point'.failOpen) ∧
        { d with reports := [] } = r'.failOpen := by
  cases point with
  | relaying relayPoint =>
      obtain ⟨⟨relay, next⟩, -, heq⟩ := Option.map_eq_some_iff.mp h
      cases heq
      cases next with
      | done result =>
          cases result with
          | primary => exact Or.inr ⟨⟨0, true, false⟩, r.failOpen, rfl, rfl⟩
          | backup => exact Or.inr ⟨⟨0, true, false⟩, r.failOpen, rfl, rfl⟩
          | cancelled => exact Or.inr ⟨⟨0, false, false⟩, r.failOpen, rfl, rfl⟩
          | failed => exact Or.inr ⟨⟨0, false, false⟩, r.failOpen, rfl, rfl⟩
      | _ => exact Or.inl ⟨rfl, rfl⟩
  | done => cases h
  | _ =>
      cases h
      exact Or.inr ⟨input, _, rfl, rfl⟩

/-- A step of a dial or of a probe on the trusted route is one of a route that fails open, or
one of the relay's own. Its probes keep no record of their reports. -/
structure Routes.FailsOpen : Prop where
  dial : ∀ (r r' : Routes) (input : Input) (point point' : DialPoint) (probes : Bool),
    r.dial input point = some (r', point', probes) →
      (r'.failOpen = r.failOpen ∧ point'.failOpen = point.failOpen ∧ probes = false) ∨
        ∃ answer launched, r.failOpen.dial answer point.failOpen =
          some (r'.failOpen, point'.failOpen, launched) ∧ launched.isSome = probes
  probe : ∀ (r r' : Routes) (i : Nat) (input : Input) (point point' : ProbePoint),
    r.probe input point = some (r', point') →
      (r'.failOpen = r.failOpen ∧ point'.failOpen = point.failOpen) ∨
        ∃ answer d, FailOpen.probe i r.failOpen answer point.failOpen = some (d, point'.failOpen) ∧
          { d with reports := [] } = r'.failOpen

namespace FailOpen

/-- What holds of the probes after a run. -/
structure SingleFlight (d : FailOpen) (moves : List (Move Client Input)) : Prop where
  /-- one probe is in flight at most -/
  one : ∀ (i j : Nat) (t u : Thread), (run d moves).threads[i]? = some t →
    (run d moves).threads[j]? = some u → t.InFlight → u.InFlight → i = j
  /-- successive probes are apart -/
  apart : (starts (run d moves)).IsChain fun a b => a + d.probeInterval ≤ b
  /-- a probe is launched by a dial that has seen the controller recovering -/
  launched : ∀ move, starts (run d (moves ++ [move])) ≠ starts (run d moves) →
    ∃ i input, move = .run i input ∧ ∃ earlier look later, moves = earlier ++ look :: later ∧
      SeesRecovery (run d earlier) look i
  /-- the flag is free when nobody needs it -/
  free : (∀ t ∈ (run d moves).threads, ¬ t.InFlight ∧ ¬ t.InMaybeProbe) →
    (run d moves).shared.probeRunning = false
  /-- a probe has reported once when it is at its end, and not more than once before -/
  reported : ∀ (i : Nat) started point, (run d moves).threads[i]? = some (.probe started point) →
    ((run d moves).shared.reportsOf i).length =
      if point = .clearing ∨ point = .done then 1 else 0
  /-- a report is made to the controller by a probe whose dial has ended so, and by nothing
  else does a probe change the controller -/
  told : ∀ move, let before := run d moves; let after := run d (moves ++ [move])
    (∃ i input started ok, move = .run i input ∧
      before.threads[i]? = some (.probe started (if ok then .succeeded else .failed)) ∧
      after.shared.reports = before.shared.reports ++ [(i, ok)] ∧
      after.shared.controller = FailOpen.told before.shared.controller input.now ok) ∨
    (after.shared.reports = before.shared.reports ∧
      ∀ i input started point, move = .run i input →
        before.threads[i]? = some (.probe started point) →
        after.shared.controller = before.shared.controller)
  /-- a probe comes to its end -/
  finishes : ∀ (i : Nat) started point, (run d moves).threads[i]? = some (.probe started point) →
    ∀ inputs : List Input, 3 ≤ inputs.length →
      (run d (moves ++ inputs.map (Move.run i))).threads[i]? = some (.probe started .done)

/-- Whatever dials and other users of the controller do, and however they and the probes
are interleaved, probes are single-flight and rate-limited. The trusted route takes the
steps of such dials and probes. -/
theorem probes_single_flight (controller : Controller) (probeInterval : Int)
    (moves : List (Move Client Input)) :
    SingleFlight (newFailOpenWithProbe controller probeInterval) moves ∧ Routes.FailsOpen := by
  have hheld := held_run (newFailOpenWithProbe controller probeInterval) rfl moves
  refine ⟨?_, fun _ _ _ _ _ _ => Routes.dial_failOpen, fun _ _ i _ _ _ => Routes.probe_failOpen i⟩
  refine ⟨fun i j t u => eq_of_inFlight hheld, (apart_run _ rfl moves).chain, ?_,
    probeRunning_of_idle hheld, ?_, fun move => ?_, ?_⟩
  · intro move hstarts
    rw [run, List.foldl_append] at hstarts
    obtain ⟨i, input, now, rfl, ht⟩ := exists_timing_of_starts_ne hstarts
    exact ⟨i, input, rfl, exists_seesRecovery _ ht (.timing now)⟩
  · intro i started point ht
    rw [(reports_run _ rfl moves).threads i _ ht]
    cases point <;> rfl
  · rw [run, run, List.foldl_append, List.foldl_cons, List.foldl_nil]
    exact told_step _ move
  · intro i started point ht inputs hlen
    have hrun : run (newFailOpenWithProbe controller probeInterval)
        (moves ++ inputs.map (Move.run i)) = (inputs.map (Move.run i)).foldl machine.step
          (run (newFailOpenWithProbe controller probeInterval) moves) := by
      simp only [run, List.foldl_append, List.foldl_map, clientMove]
    rw [hrun]
    exact probe_finishes ht hlen

/-- A dial launches a probe that fails, and another one launches the next probe when the
cooldown of the controller is over. -/
def twoProbes : List (Move Client Input) :=
  [.call .dial, .run 0 ⟨0, true, false⟩, .run 0 ⟨0, true, false⟩, .run 0 ⟨0, true, false⟩,
    .run 0 ⟨0, true, false⟩, .run 1 ⟨1, false, false⟩, .run 1 ⟨2, true, false⟩,
    .run 1 ⟨2, true, false⟩, .call .dial, .run 2 ⟨12, true, false⟩, .run 2 ⟨12, true, false⟩,
    .run 2 ⟨12, true, false⟩, .run 2 ⟨12, true, false⟩]

theorem probes_single_flight_twice :
    let d := newFailOpenWithProbe ⟨⟨1, 1, 10⟩, .directRecovery, 0, 0, 0⟩ 12
    starts (run d twoProbes) = [0, 12] ∧ (run d twoProbes).shared.reports = [(1, false)] ∧
      SingleFlight d twoProbes :=
  ⟨by decide, by decide, (probes_single_flight _ _ _).1⟩

end FailOpen

end Hy2Route.Transport
