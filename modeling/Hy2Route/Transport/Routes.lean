import Hy2Route.Failover.Controller
import Hy2Route.Foundation.Duration
import Hy2Route.Transport.FailOpenPacket

/-!
# The trusted route and the UDP route

The two routes of an application that fails open and has a TCP relay. A stream is
dialed through Reality, with HY2 as the backup; a packet session is opened through
HY2, with Reality as the backup. Each relay has its own cooldown, but both routes
report to one failover controller and leave the relays when it says so. The stream
route stays on a working Reality as long as no failure on the UDP route completes
the controller's threshold.
-/

namespace Hy2Route.Transport

open Foundation Failover

/-! ## The stream relay -/

/-- The zero time of `retryAt` is none. -/
structure StreamRelay where
  cooldown : Int
  retryAt : Option Int
  active : RelayName
  primaryName : RelayName
  backupName : RelayName

def newStreamRelay (primaryName backupName : RelayName) (cooldown : Int) : StreamRelay :=
  ⟨cooldown, none, primaryName, primaryName, backupName⟩

inductive RelayDialResult where
  | primary
  | backup
  | cancelled
  | failed
  deriving DecidableEq

inductive RelayDialPoint where
  | start
  | dialing
  | adopting
  | failing
  | dialingBackup
  | noting
  | done (result : RelayDialResult)
  deriving DecidableEq

def StreamRelay.dial (relay : StreamRelay) (input : Input) :
    RelayDialPoint → Option (StreamRelay × RelayDialPoint)
  | .start => some (relay, if reached relay.retryAt input.now then .dialing else .dialingBackup)
  | .dialing =>
      if input.ok then some (relay, .adopting)
      else if input.cancelled then some (relay, .done .cancelled)
      else some (relay, .failing)
  | .adopting => some ({ relay with retryAt := none, active := relay.primaryName }, .done .primary)
  | .failing => some ({ relay with retryAt := some (input.now + relay.cooldown) }, .dialingBackup)
  | .dialingBackup =>
      if input.ok then some (relay, .noting) else some (relay, .done .failed)
  | .noting => some ({ relay with active := relay.backupName }, .done .backup)
  | .done _ => none

/-! ## The routes -/

/-- A session of the proxy: one of the UDP relay's own, or one of its backup. -/
inductive ProxySession where
  | relay (session : Nat)
  | backup
  deriving DecidableEq

structure UdpSession where
  proxy : ProxySession
  state : FailOpenSession

/-- What the calls on the two routes share. The zero time of `nextProbe` is none. -/
structure Routes where
  controller : Controller
  tcpRelay : StreamRelay
  probeInterval : Int
  probeRunning : Bool
  nextProbe : Option Int
  udpRelay : PacketRelay
  udpSessions : List UdpSession

/-- The health section of the configuration, in nanoseconds. -/
structure Health where
  failureThreshold : Int
  successThreshold : Int
  cooldown : Int
  probeInterval : Int

def newRoutes (health : Health) : Routes where
  controller := Failover.new ⟨health.failureThreshold, health.successThreshold, health.cooldown⟩
  tcpRelay := newStreamRelay .reality .hy2 health.cooldown
  probeInterval := if health.probeInterval ≤ 0 then second else health.probeInterval
  probeRunning := false
  nextProbe := none
  udpRelay := newPacketRelay health.cooldown
  udpSessions := []

inductive DialResult where
  | relay (backup : Bool)
  | direct
  | failed
  deriving DecidableEq

inductive DialPoint where
  | start
  | checking
  | swapping
  | timing (now : Int)
  | clearing
  | relaying (point : RelayDialPoint)
  | succeeded (backup : Bool)
  | failed
  | dialingDirect
  | done (result : DialResult)
  deriving DecidableEq

inductive ProbePoint where
  | relaying (point : RelayDialPoint)
  | succeeded
  | failed
  | clearing
  | done
  deriving DecidableEq

inductive UdpOpenResult where
  | session (k : Nat)
  | direct
  | failed
  deriving DecidableEq

inductive UdpOpenPoint where
  | start
  | opening (point : OpenPoint)
  | succeeded (proxy : ProxySession)
  | failed
  | openingDirect
  | done (result : UdpOpenResult)
  deriving DecidableEq

/-- Where a dial stands when the relay has come to a point of its own. -/
def DialPoint.afterRelay : RelayDialPoint → DialPoint
  | .done .primary => .succeeded false
  | .done .backup => .succeeded true
  | .done _ => .failed
  | point => .relaying point

def ProbePoint.afterRelay : RelayDialPoint → ProbePoint
  | .done .primary | .done .backup => .succeeded
  | .done _ => .failed
  | point => .relaying point

def UdpOpenPoint.afterRelay : OpenPoint → UdpOpenPoint
  | .done (.opened k) => .succeeded (.relay k)
  | .done .openedBackup => .succeeded .backup
  | .done _ => .failed
  | point => .opening point

/-- The result of a call on a relay's session, when it is over. -/
def SessionThread.outcome : SessionThread → Option Bool
  | .send (.done .sent) | .receive (.done .received) | .close .done => some true
  | .send (.done _) | .receive (.done _) => some false
  | _ => none

/-- The call on the session of the proxy that the next step makes. -/
def FailOpenThread.operation (s : FailOpenSession) : FailOpenThread → Option SessionCall
  | .send (.sending 0 _) => some .send
  | .receive (.receiving 0) => some .receive
  | .send .closing | .close .closing => if s.session = 0 then some .close else none
  | _ => none

def Report.apply (controller : Controller) : Report → Controller
  | .none => controller
  | .failure now => controller.recordFailure now

namespace Routes

/-- A step that starts the recovery probe says so. -/
def dial (r : Routes) (input : Input) : DialPoint → Option (Routes × DialPoint × Bool)
  | .start =>
      let (controller, mode) := r.controller.currentMode input.now
      some ({ r with controller := controller },
        if mode ≠ .proxy then .checking else .relaying .start, false)
  | .checking =>
      let (controller, mode) := r.controller.currentMode input.now
      some ({ r with controller := controller },
        if mode ≠ .directRecovery then .dialingDirect else .swapping, false)
  | .swapping =>
      if r.probeRunning then some (r, .dialingDirect, false)
      else some ({ r with probeRunning := true }, .timing input.now, false)
  | .timing now =>
      if reached r.nextProbe now then
        some ({ r with nextProbe := some (now + r.probeInterval) }, .dialingDirect, true)
      else some (r, .clearing, false)
  | .clearing => some ({ r with probeRunning := false }, .dialingDirect, false)
  | .relaying point =>
      (r.tcpRelay.dial input point).map fun (relay, point) =>
        ({ r with tcpRelay := relay }, .afterRelay point, false)
  | .succeeded backup =>
      some ({ r with controller := r.controller.recordSuccess input.now }, .done (.relay backup),
        false)
  | .failed =>
      some ({ r with controller := r.controller.recordFailure input.now }, .dialingDirect, false)
  | .dialingDirect => some (r, .done (if input.ok then .direct else .failed), false)
  | .done _ => none

/-- The connection of a probe is closed at once. -/
def probe (r : Routes) (input : Input) : ProbePoint → Option (Routes × ProbePoint)
  | .relaying point =>
      (r.tcpRelay.dial input point).map fun (relay, point) =>
        ({ r with tcpRelay := relay }, .afterRelay point)
  | .succeeded => some ({ r with controller := r.controller.recordSuccess input.now }, .clearing)
  | .failed => some ({ r with controller := r.controller.recordFailure input.now }, .clearing)
  | .clearing => some ({ r with probeRunning := false }, .done)
  | .done => none

def openPacket (r : Routes) (input : Input) : UdpOpenPoint → Option (Routes × UdpOpenPoint)
  | .start =>
      let (controller, mode) := r.controller.currentMode input.now
      some ({ r with controller := controller },
        if mode ≠ .proxy then .openingDirect else .opening .start)
  | .opening point =>
      (r.udpRelay.openPacket input point).map fun (relay, point) =>
        ({ r with udpRelay := relay }, .afterRelay point)
  | .succeeded proxy =>
      some ({ r with
        controller := r.controller.recordSuccess input.now
        udpSessions := r.udpSessions ++ [⟨proxy, .opened⟩] }, .done (.session r.udpSessions.length))
  | .failed =>
      some ({ r with controller := r.controller.recordFailure input.now }, .openingDirect)
  | .openingDirect => some (r, .done (if input.ok then .direct else .failed))
  | .done _ => none

/-- One step of a call on a UDP session, with the answer of what it has called. -/
def advance (r : Routes) (i k : Nat) (session : UdpSession) (thread : FailOpenThread)
    (input : Input) : Option (Routes × FailOpenThread × Option SessionThread) :=
  (session.state.exec i input thread).map fun (state, report, thread) =>
    ({ r with
      controller := report.apply r.controller
      udpSessions := r.udpSessions.set k { session with state := state } }, thread, none)

/-- A call on a session of the UDP relay runs as the inner call to its end. The other
sessions answer at once; a call on a session that was never opened is blocked. -/
def onSession (r : Routes) (i k : Nat) (thread : FailOpenThread) (inner : Option SessionThread)
    (input : Input) : Option (Routes × FailOpenThread × Option SessionThread) :=
  match r.udpSessions[k]? with
  | none => none
  | some session =>
      match session.proxy, inner with
      | .relay j, some inner =>
          match inner.outcome with
          | some ok => r.advance i k session thread { input with ok := ok }
          | none =>
              match r.udpRelay.exec i (.onSession j inner) input with
              | some (relay, .onSession _ inner) =>
                  some ({ r with udpRelay := relay }, thread, some inner)
              | _ => none
      | .relay _, none =>
          match thread.operation session.state with
          | some call => some (r, thread, some call.start)
          | none => r.advance i k session thread input
      | .backup, _ => r.advance i k session thread input

end Routes

inductive RouteThread where
  | dial (point : DialPoint)
  | probe (point : ProbePoint)
  | openPacket (point : UdpOpenPoint)
  | onSession (session : Nat) (thread : FailOpenThread) (inner : Option SessionThread)
  deriving DecidableEq

/-- The probe is called by the trusted route itself. -/
inductive RouteCall where
  | dial
  | probe
  | openPacket
  | onSession (session : Nat) (call : SessionCall)

def RouteCall.start : RouteCall → RouteThread
  | .dial => .dial .start
  | .probe => .probe (.relaying .start)
  | .openPacket => .openPacket .start
  | .onSession session call => .onSession session call.startFailOpen none

def Routes.exec (r : Routes) (i : Nat) (thread : RouteThread) (input : Input) :
    Option (Routes × RouteThread × List RouteCall) :=
  match thread with
  | .dial point =>
      (r.dial input point).map fun (r, point, probes) =>
        (r, .dial point, if probes then [.probe] else [])
  | .probe point => (r.probe input point).map fun (r, point) => (r, .probe point, [])
  | .openPacket point => (r.openPacket input point).map fun (r, point) => (r, .openPacket point, [])
  | .onSession k thread inner =>
      (r.onSession i k thread inner input).map fun (r, thread, inner) =>
        (r, .onSession k thread inner, [])

def routesMachine : Machine Routes RouteThread RouteCall Input where
  start := RouteCall.start
  exec := Routes.exec

/-- The routes without calls. -/
def routesStart (health : Health) : Threads Routes RouteThread := ⟨newRoutes health, []⟩

/-! ## The conditions -/

/-- Every dial of Reality succeeds. -/
def RealityWorks (_ : Routes) (_ : Nat) (thread : RouteThread) (input : Input) : Prop :=
  match thread with
  | .dial (.relaying .dialing) | .probe (.relaying .dialing) => input.ok = true
  | _ => True

instance (r : Routes) (i : Nat) (thread : RouteThread) (input : Input) :
    Decidable (RealityWorks r i thread input) := by
  unfold RealityWorks
  split <;> infer_instance

/-- A failure that is reported by the UDP route does not complete the threshold. -/
def UdpBelowThreshold (r : Routes) (_ : Nat) (thread : RouteThread) (_ : Input) : Prop :=
  match thread with
  | .openPacket .failed | .onSession _ (.send .recording) _ =>
      r.controller.failures + 1 < r.controller.cfg.failures
  | _ => True

instance (r : Routes) (i : Nat) (thread : RouteThread) (input : Input) :
    Decidable (UdpBelowThreshold r i thread input) := by
  unfold UdpBelowThreshold
  split <;> infer_instance

/-! ## The invariant -/

/-- Streams are dialed through the relay, and the relay tries its primary. -/
structure OnReality (r : Routes) : Prop where
  mode : r.controller.mode = .proxy
  retryAt : r.tcpRelay.retryAt = none

/-- A dial that goes through the primary of the relay, by the number of steps left. -/
inductive OnRelay : Nat → DialPoint → Prop where
  | start : OnRelay 5 .start
  | relaying : OnRelay 4 (.relaying .start)
  | dialing : OnRelay 3 (.relaying .dialing)
  | adopting : OnRelay 2 (.relaying .adopting)
  | succeeded : OnRelay 1 (.succeeded false)
  | done : OnRelay 0 (.done (.relay false))

/-- A probe that goes through the primary of the relay. -/
inductive ProbesRelay : ProbePoint → Prop where
  | relaying : ProbesRelay (.relaying .start)
  | dialing : ProbesRelay (.relaying .dialing)
  | adopting : ProbesRelay (.relaying .adopting)
  | succeeded : ProbesRelay .succeeded
  | clearing : ProbesRelay .clearing
  | done : ProbesRelay .done

section Step

variable {r r' : Routes} {input : Input}

theorem OnReality.dial (hr : OnReality r) {left : Nat} {point : DialPoint}
    (h : OnRelay (left + 1) point) (input : Input)
    (hok : point = .relaying .dialing → input.ok = true) :
    ∃ r' point', r.dial input point = some (r', point', false) ∧ OnReality r' ∧
      OnRelay left point' := by
  cases h with
  | start =>
      refine ⟨r, .relaying .start, ?_, hr, .relaying⟩
      simp [Routes.dial, Controller.currentMode_proxy hr.mode]
  | relaying =>
      refine ⟨r, .relaying .dialing, ?_, hr, .dialing⟩
      simp [Routes.dial, StreamRelay.dial, reached, hr.retryAt, DialPoint.afterRelay]
  | dialing =>
      refine ⟨r, .relaying .adopting, ?_, hr, .adopting⟩
      simp [Routes.dial, StreamRelay.dial, hok rfl, DialPoint.afterRelay]
  | adopting => exact ⟨_, _, rfl, ⟨hr.mode, rfl⟩, .succeeded⟩
  | succeeded =>
      refine ⟨r, .done (.relay false), ?_, hr, .done⟩
      simp [Routes.dial, Controller.recordSuccess_proxy hr.mode]

theorem OnReality.probe (hr : OnReality r) {point point' : ProbePoint} (h : ProbesRelay point)
    (hok : point = .relaying .dialing → input.ok = true)
    (hstep : r.probe input point = some (r', point')) : OnReality r' ∧ ProbesRelay point' := by
  cases h with
  | relaying =>
      simp only [Routes.probe, StreamRelay.dial, reached, hr.retryAt] at hstep
      cases hstep
      exact ⟨⟨hr.mode, hr.retryAt⟩, .dialing⟩
  | dialing =>
      simp only [Routes.probe, StreamRelay.dial, hok rfl] at hstep
      cases hstep
      exact ⟨⟨hr.mode, hr.retryAt⟩, .adopting⟩
  | adopting =>
      cases hstep
      exact ⟨⟨hr.mode, rfl⟩, .succeeded⟩
  | succeeded =>
      cases hstep
      exact ⟨⟨by rw [Controller.recordSuccess_proxy hr.mode, hr.mode], hr.retryAt⟩, .clearing⟩
  | clearing =>
      cases hstep
      exact ⟨⟨hr.mode, hr.retryAt⟩, .done⟩
  | done => cases hstep

theorem OnReality.openPacket (hr : OnReality r) {point point' : UdpOpenPoint}
    (hbelow : point = .failed → r.controller.failures + 1 < r.controller.cfg.failures)
    (hstep : r.openPacket input point = some (r', point')) : OnReality r' := by
  cases point with
  | start =>
      simp only [Routes.openPacket, Controller.currentMode_proxy hr.mode] at hstep
      cases hstep
      exact ⟨hr.mode, hr.retryAt⟩
  | opening point =>
      obtain ⟨⟨relay, next⟩, -, heq⟩ := Option.map_eq_some_iff.mp hstep
      cases heq
      exact ⟨hr.mode, hr.retryAt⟩
  | succeeded proxy =>
      cases hstep
      exact ⟨by rw [Controller.recordSuccess_proxy hr.mode, hr.mode], hr.retryAt⟩
  | failed =>
      cases hstep
      exact ⟨(recordFailure_mode_eq_proxy_iff _ _).mpr ⟨hr.mode, hbelow rfl⟩, hr.retryAt⟩
  | openingDirect =>
      cases hstep
      exact hr
  | done result => cases hstep

variable {i k : Nat} {thread thread' : FailOpenThread} {inner inner' : Option SessionThread}

theorem OnReality.advance (hr : OnReality r) {session : UdpSession}
    (hbelow : thread = .send .recording → r.controller.failures + 1 < r.controller.cfg.failures)
    (hstep : r.advance i k session thread input = some (r', thread', inner')) : OnReality r' := by
  obtain ⟨⟨state, report, next⟩, hexec, heq⟩ := Option.map_eq_some_iff.mp hstep
  cases heq
  rcases (FailOpenSession.exec_spec hexec).report_eq with rfl | ⟨rfl, hrecording⟩
  · exact ⟨hr.mode, hr.retryAt⟩
  · exact ⟨(recordFailure_mode_eq_proxy_iff _ _).mpr ⟨hr.mode, hbelow hrecording⟩, hr.retryAt⟩

theorem OnReality.onSession (hr : OnReality r)
    (hbelow : thread = .send .recording → r.controller.failures + 1 < r.controller.cfg.failures)
    (hstep : r.onSession i k thread inner input = some (r', thread', inner')) : OnReality r' := by
  unfold Routes.onSession at hstep
  split at hstep
  · cases hstep
  · split at hstep
    · split at hstep
      · exact hr.advance hbelow hstep
      · split at hstep
        · cases hstep
          exact ⟨hr.mode, hr.retryAt⟩
        · cases hstep
    · split at hstep
      · cases hstep
        exact hr
      · exact hr.advance hbelow hstep
    · exact hr.advance hbelow hstep

end Step

/-- What a thread of the trusted route is about; the UDP route may be anywhere. -/
def StaysOnRelay : RouteThread → Prop
  | .dial point => ∃ left ≤ 5, OnRelay left point
  | .probe point => ProbesRelay point
  | _ => True

theorem routesMachine_keeps :
    routesMachine.Keeps
      (fun r i thread input => RealityWorks r i thread input ∧ UdpBelowThreshold r i thread input)
      (fun r _ => OnReality r) (fun _ _ thread => StaysOnRelay thread) where
  start := by
    intro r n call hr
    refine ⟨hr, ?_⟩
    cases call with
    | dial => exact ⟨5, le_refl 5, .start⟩
    | probe => exact .relaying
    | _ => trivial
  exec := by
    rintro r n i thread input r' thread' calls hr - hthread ⟨hreality, hbelow⟩ h
    cases thread with
    | dial point =>
        obtain ⟨left, hleft, hrelay⟩ := hthread
        obtain ⟨⟨r₁, next, probes⟩, hstep, heq⟩ := Option.map_eq_some_iff.mp h
        cases heq
        cases left with
        | zero =>
            cases hrelay
            cases hstep
        | succ left =>
            have hok : point = .relaying .dialing → input.ok = true := by
              rintro rfl
              exact hreality
            obtain ⟨r₂, next₂, hdial, hr₂, hnext⟩ := hr.dial hrelay input hok
            cases hstep.symm.trans hdial
            exact ⟨hr₂, left, by omega, hnext⟩
    | probe point =>
        obtain ⟨⟨r₁, next⟩, hstep, heq⟩ := Option.map_eq_some_iff.mp h
        cases heq
        have hok : point = .relaying .dialing → input.ok = true := by
          rintro rfl
          exact hreality
        exact hr.probe hthread hok hstep
    | openPacket point =>
        obtain ⟨⟨r₁, next⟩, hstep, heq⟩ := Option.map_eq_some_iff.mp h
        cases heq
        have hfailed : point = .failed →
            r.controller.failures + 1 < r.controller.cfg.failures := by
          rintro rfl
          exact hbelow
        exact ⟨hr.openPacket hfailed hstep, trivial⟩
    | onSession k thread inner =>
        obtain ⟨⟨r₁, next, inner₁⟩, hstep, heq⟩ := Option.map_eq_some_iff.mp h
        cases heq
        have hrecording : thread = .send .recording →
            r.controller.failures + 1 < r.controller.cfg.failures := by
          rintro rfl
          exact hbelow
        exact ⟨hr.onSession hrecording hstep, trivial⟩
  other := fun _ _ _ _ _ _ hother => hother

/-- With Reality at work, the steps left bring a dial to a connection of Reality. -/
theorem OnRelay.run {left : Nat} {point : DialPoint} (h : OnRelay left point)
    {state : Threads Routes RouteThread} (hr : OnReality state.shared) {i : Nat}
    (hi : state.threads[i]? = some (.dial point)) {inputs : List Input}
    (hlen : left ≤ inputs.length) (hok : ∀ input ∈ inputs, input.ok = true) :
    ((inputs.map (Move.run i)).foldl routesMachine.step state).threads[i]? =
      some (.dial (.done (.relay false))) := by
  let P (left : Nat) (s : Threads Routes RouteThread) : Prop :=
    OnReality s.shared ∧ ∃ point, s.threads[i]? = some (.dial point) ∧ OnRelay left point
  have hstep (left : Nat) (s : Threads Routes RouteThread) (input : Input)
      (hok : input.ok = true) (hs : P (left + 1) s) :
      P left (routesMachine.step s (.run i input)) := by
    obtain ⟨hreality, point, hpoint, hrelay⟩ := hs
    obtain ⟨r', point', hdial, hr', hnext⟩ := hreality.dial hrelay input fun _ => hok
    have hexec : routesMachine.exec s.shared i (.dial point) input =
        some (r', .dial point', []) := by
      simp [routesMachine, Routes.exec, hdial]
    refine ⟨?_, point', (Machine.threads_step_run hpoint hexec).1, hnext⟩
    rw [Machine.step_run hpoint hexec]
    exact hr'
  have hend (s : Threads Routes RouteThread) (input : Input) (hs : P 0 s) :
      P 0 (routesMachine.step s (.run i input)) := by
    obtain ⟨hreality, point, hpoint, hrelay⟩ := hs
    cases hrelay
    rw [Machine.step_blocked hpoint rfl]
    exact ⟨hreality, _, hpoint, .done⟩
  obtain ⟨-, point', hpoint', hdone⟩ := Machine.progress hstep hend ⟨hr, point, hi, h⟩ hlen hok
  cases hdone
  exact hpoint'

/-- In every run in which the dials of Reality succeed and no failure on the UDP
route completes the threshold, every dial on the trusted route that has returned
did so with a connection of Reality, and every other one does so when its steps
are run. -/
theorem trusted_dials_stay_on_relay (health : Health) (moves : List (Move RouteCall Input))
    (hreality : Allowed routesMachine.step (Machine.Meets RealityWorks) (routesStart health) moves)
    (hudp : Allowed routesMachine.step (Machine.Meets UdpBelowThreshold) (routesStart health)
      moves) :
    let run := moves.foldl routesMachine.step (routesStart health)
    ∀ (i : Nat) (point : DialPoint), run.threads[i]? = some (.dial point) →
      (∀ result, point = .done result → result = .relay false) ∧
      ∀ inputs : List Input, 5 ≤ inputs.length → (∀ input ∈ inputs, input.ok = true) →
        ((inputs.map (Move.run i)).foldl routesMachine.step run).threads[i]? =
          some (.dial (.done (.relay false))) := by
  intro run i point hi
  have hinv : Invariant _ _ run :=
    routesMachine_keeps.run (Machine.allowed_meets_and hreality hudp) ⟨⟨rfl, rfl⟩, nofun⟩
  obtain ⟨left, hleft, hrelay⟩ := hinv.threads i _ hi
  refine ⟨?_, fun inputs hlen hok => hrelay.run hinv.shared hi (hleft.trans hlen) hok⟩
  rintro result rfl
  cases hrelay
  rfl

/-- A dial returns, and then a packet session can be opened neither on HY2 nor on
Reality. -/
def udpOpenFails : List (Move RouteCall Input) :=
  [.call .dial, .run 0 {}, .run 0 {}, .run 0 {}, .run 0 {}, .run 0 {},
    .call .openPacket, .run 1 {}, .run 1 {}, .run 1 { ok := false }, .run 1 {},
    .run 1 { ok := false }, .run 1 {}, .run 1 {}]

/-- At a threshold of two, the next dial goes through Reality. -/
theorem trusted_dials_stay_below_threshold :
    let moves := udpOpenFails ++ [.call .dial]
    let run := moves.foldl routesMachine.step (routesStart ⟨2, 2, 30 * second, 10 * second⟩)
    (run.threads[2]? = some (.dial .start) ∧ run.shared.controller.failures = 1) ∧
      (([{}, {}, {}, {}, {}].map (Move.run 2)).foldl routesMachine.step run).threads[2]? =
        some (.dial (.done (.relay false))) :=
  ⟨by decide, (trusted_dials_stay_on_relay ⟨2, 2, 30 * second, 10 * second⟩ _ (by decide)
    (by decide) 2 .start (by decide)).2 _ (by decide) (by decide)⟩

/-- A second session fails to open during the cooldown of HY2, and the next dial is a
direct one, although no dial of Reality failed. -/
theorem udp_failures_divert_trusted_dials :
    let moves := udpOpenFails ++ [.call .openPacket, .run 2 {}, .run 2 {}, .run 2 { ok := false },
      .run 2 {}, .run 2 {}, .call .dial, .run 3 {}, .run 3 {}, .run 3 {}]
    let start := routesStart ⟨2, 2, 30 * second, 10 * second⟩
    let run := moves.foldl routesMachine.step start
    Allowed routesMachine.step (Machine.Meets RealityWorks) start moves ∧
      run.threads[0]? = some (.dial (.done (.relay false))) ∧
      run.shared.tcpRelay.retryAt = none ∧
      run.threads[3]? = some (.dial (.done .direct)) := by
  decide

end Hy2Route.Transport
