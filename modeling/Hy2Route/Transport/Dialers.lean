import Hy2Route.Foundation.Calls
import Hy2Route.Landing.Connect
import Hy2Route.Transport.Probes

/-!
# Dialers made of dialers

The dialers of an application are put together from a few that open sockets: a relay with
a backup, a dialer that fails open and a landing each call others. A call on such a dialer
is a stack of calls. The relays, the controller and the packet sessions are shared by all
threads. Whatever the threads do at once, a call reaches no other socket and no other
destination than those that its dialer was made for.

## Implementation notes

The sockets, what is said on them, and the clock are inputs of the steps. A session is
recorded with the dialer that made it. The address that a landing server has named for the
datagrams of an association is kept apart from the addresses that clients ask for.
-/

namespace Hy2Route.Transport

open Foundation

/-- What takes traffic out of the router. -/
inductive Carrier where
  | hy2
  | reality
  | direct
  deriving DecidableEq

inductive LandingKind where
  | http
  | socks5
  deriving DecidableEq

structure LandingServer where
  kind : LandingKind
  server : Bytes
  credentials : Landing.Credentials

inductive Destination where
  | address (text : Bytes)
  /-- The relay that the landing server has named. -/
  | relay (landing : LandingServer) (text : Bytes)

inductive StreamDialer where
  | carrier (c : Carrier)
  | relay (primary backup : StreamDialer)
  | failOpen (proxy direct : StreamDialer)
  | landing (server : LandingServer) (base : StreamDialer)

inductive PacketDialer where
  | carrier (c : Carrier)
  | block
  | relay (primary backup : PacketDialer)
  | failOpen (proxy direct : PacketDialer)
  | landing (server : LandingServer) (maxPayload : Int) (control : StreamDialer)
      (packets : PacketDialer)

inductive Exchanger where
  | network (address : Bytes)
  | overStream (dialer : StreamDialer) (endpoint : Bytes)
  | fallback (primary second : Exchanger)

/-! ## Sessions -/

/-- Sessions are known by their numbers. The places of the sessions that one has ever held
are those of its own record. -/
inductive SessionBody where
  | carrier (c : Carrier)
  /-- The record is that of the UDP relay, under its number. -/
  | fallback (number : Nat) (held : List Nat) (backup : PacketDialer)
  | failOpen (state : FailOpenSession) (held : List Nat) (direct : PacketDialer)
  | landing (server : LandingServer) (relay : Bytes) (packet : Nat) (packets : PacketDialer)
      (closed : Bool)

structure Session where
  dialer : PacketDialer
  body : SessionBody

/-- What all calls share. An application has one relay of each kind and one controller. -/
structure Dialers where
  tcpRelay : StreamRelay
  failOpen : FailOpen
  udpRelay : PacketRelay
  sessions : List Session

/-! ## Operations -/

/-- A session is used under a dialer that may have made it. The target is that of a send. -/
inductive Op where
  | dial (dialer : StreamDialer) (target : Destination)
  /-- The recovery probe of a dialer that fails open. -/
  | probe (proxy : StreamDialer) (target : Destination)
  | openPacket (dialer : PacketDialer)
  | session (k : Nat) (dialer : PacketDialer) (call : SessionCall) (target : Destination)
  | exchange (exchanger : Exchanger)

inductive Reply where
  | done
  | failed
  | session (k : Nat)
  deriving DecidableEq

def Reply.ofOk (ok : Bool) : Reply := if ok then .done else .failed

def Reply.ok : Reply → Bool
  | .failed => false
  | _ => true

def Reply.session? : Reply → Option Nat
  | .session k => some k
  | _ => none

/-- What a step is told, with the relay that a landing server names. -/
structure Turn extends Input where
  named : Option Bytes := none

/-- The reply of an inner call is what the step is told about it. -/
def Turn.told (turn : Turn) : Option Reply → Input
  | none => turn.toInput
  | some r => { turn.toInput with ok := r.ok }

inductive FailOpenOpenPoint where
  | start
  | opening
  | succeeded (k : Nat)
  | failed
  | openingDirect
  | done (opened : Option Nat)

inductive AssociatePoint where
  | dialing
  | opening (relay : Bytes)
  | clearing (relay : Bytes) (k : Nat)
  | discarding (k : Nat)

/-- A call and how far it is. -/
inductive Frame where
  | enter (op : Op)
  | relayDial (primary backup : StreamDialer) (target : Destination) (point : RelayDialPoint)
  | failOpenDial (proxy direct : StreamDialer) (target : Destination) (point : FailOpen.DialPoint)
  | probe (proxy : StreamDialer) (target : Destination) (point : FailOpen.ProbePoint)
  | landingDial (server : LandingServer) (base : StreamDialer) (target : Destination)
  | relayOpen (primary backup : PacketDialer) (point : OpenPoint) (opened : Option Nat)
  | failOpenOpen (proxy direct : PacketDialer) (point : FailOpenOpenPoint)
  | landingOpen (server : LandingServer) (maxPayload : Int) (control : StreamDialer)
      (packets : PacketDialer) (point : AssociatePoint)
  | fallbackCall (k : Nat) (dialer : PacketDialer) (target : Destination) (number : Nat)
      (backup : PacketDialer) (thread : SessionThread)
  | failOpenCall (k : Nat) (dialer : PacketDialer) (target : Destination)
      (direct : PacketDialer) (thread : FailOpenThread)
  | landingCall (k : Nat) (dialer : PacketDialer) (call : SessionCall) (target : Destination)
      (server : LandingServer) (relay : Bytes) (packet : Nat) (packets : PacketDialer)
  | overStream (dialer : StreamDialer) (endpoint : Bytes)
  | dnsFallback (primary second : Exchanger) (failed : Bool)

abbrev DialerStep := Outcome Dialers Frame Op Reply (Carrier × Destination)

/-- The session that a call on a session uses next, or the one that it opens. -/
inductive Want where
  | held (place : Nat) (call : SessionCall)
  | current (call : SessionCall)
  | replacement

def SessionThread.call : SessionThread → SessionCall
  | .send _ => .send
  | .receive _ => .receive
  | .close _ => .close

def FailOpenThread.call : FailOpenThread → SessionCall
  | .send _ => .send
  | .receive _ => .receive
  | .close _ => .close

def SessionThread.wants : SessionThread → Option Want
  | .send (.sending packet _) => some (.held packet .send)
  | .send (.opening _) => some .replacement
  | .send (.closing packet) => some (.held packet .close)
  | .send .resending => some (.current .send)
  | .receive (.receiving packet) => some (.held packet .receive)
  | .close .closing => some (.current .close)
  | _ => none

def FailOpenThread.wants : FailOpenThread → Option Want
  | .send (.sending session _) => some (.held session .send)
  | .send .closing => some (.current .close)
  | .send .opening => some .replacement
  | .receive (.receiving session) => some (.held session .receive)
  | .close .closing => some (.current .close)
  | _ => none

def FailOpenThread.outcome : FailOpenThread → Option Bool
  | .send (.done .sent) | .close .done => some true
  | .send (.done _) => some false
  | .receive (.done ok) => some ok
  | _ => none

def SessionBody.held : SessionBody → List Nat
  | .fallback _ held _ | .failOpen _ held _ => held
  | _ => []

/-- One more session is held. -/
def SessionBody.hold (k : Nat) : SessionBody → SessionBody
  | .fallback number held backup => .fallback number (held ++ [k]) backup
  | .failOpen state held direct => .failOpen state (held ++ [k]) direct
  | body => body

namespace Dialers

def goes (s : Dialers) (act : Act Frame Op Reply) : Option DialerStep := some ⟨s, none, act, []⟩

def replies (s : Dialers) (r : Reply) : Option DialerStep := s.goes (.reply r)

def append (s : Dialers) (session : Session) : Dialers :=
  { s with sessions := s.sessions ++ [session] }

/-- A session is made, and is returned or worked on. -/
def add (s : Dialers) (session : Session) (act : Nat → Act Frame Op Reply) : Option DialerStep :=
  (s.append session).goes (act s.sessions.length)

def update (s : Dialers) (k : Nat) (f : SessionBody → SessionBody) : Dialers :=
  { s with sessions := s.sessions.modify k fun session => { session with body := f session.body } }

/-- A step that the controller takes part in. -/
def control (s : Dialers) (controller : Failover.Controller) : Dialers :=
  { s with failOpen := { s.failOpen with controller := controller } }

/-- A call on a session that another one holds. -/
def onHeld (s : Dialers) (k place : Nat) (call : SessionCall) (target : Destination) :
    Option Op := do
  let session ← s.sessions[k]?
  let inner ← session.body.held[place]?
  let held ← s.sessions[inner]?
  return .session inner held.dialer call target

def resolve (s : Dialers) (k current : Nat) (replacement : PacketDialer) (target : Destination) :
    Want → Option Op
  | .held place call => s.onHeld k place call target
  | .current call => s.onHeld k current call target
  | .replacement => some (.openPacket replacement)

/-- A replacement that was opened is held from now on. -/
def adopt (s : Dialers) (k : Nat) (want : Option Want) (reply : Option Reply) : Dialers :=
  match want, reply with
  | some .replacement, some (.session inner) => s.update k (.hold inner)
  | _, _ => s

/-! ### The steps -/

def sends (c : Carrier) (target : Destination) : SessionCall → Option (Carrier × Destination)
  | .send => some (c, target)
  | _ => none

def enter (s : Dialers) (turn : Turn) : Op → Option DialerStep
  | .dial (.carrier c) target => some ⟨s, some (c, target), .reply (.ofOk turn.ok), []⟩
  | .dial (.relay primary backup) target =>
      s.goes (.goto (.relayDial primary backup target .start))
  | .dial (.failOpen proxy direct) target =>
      s.goes (.goto (.failOpenDial proxy direct target .start))
  | .dial (.landing server base) target => s.goes (.goto (.landingDial server base target))
  | .probe proxy target => s.goes (.goto (.probe proxy target .dialing))
  | .openPacket (.carrier c) =>
      if turn.ok then s.add ⟨.carrier c, .carrier c⟩ fun k => .reply (.session k)
      else s.replies .failed
  | .openPacket .block => s.replies .failed
  | .openPacket (.relay primary backup) => s.goes (.goto (.relayOpen primary backup .start none))
  | .openPacket (.failOpen proxy direct) => s.goes (.goto (.failOpenOpen proxy direct .start))
  | .openPacket (.landing server maxPayload control packets) =>
      s.goes (.goto (.landingOpen server maxPayload control packets .dialing))
  | .session k dialer call target =>
      match s.sessions[k]? with
      | none => none
      | some session =>
          match session.body with
          | .carrier c => some ⟨s, sends c target call, .reply (.ofOk turn.ok), []⟩
          | .fallback number _ backup =>
              s.goes (.goto (.fallbackCall k dialer target number backup call.start))
          | .failOpen _ _ direct =>
              s.goes (.goto (.failOpenCall k dialer target direct call.startFailOpen))
          | .landing server relay packet packets _ =>
              s.goes (.goto (.landingCall k dialer call target server relay packet packets))
  | .exchange (.network address) =>
      some ⟨s, some (.direct, .address address), .reply (.ofOk turn.ok), []⟩
  -- A query that cannot be packed, or is too large, is not sent.
  | .exchange (.overStream dialer endpoint) =>
      if turn.ok then s.goes (.goto (.overStream dialer endpoint)) else s.replies .failed
  | .exchange (.fallback primary second) => s.goes (.goto (.dnsFallback primary second false))

def relayDial (s : Dialers) (primary backup : StreamDialer) (target : Destination)
    (point : RelayDialPoint) (reply : Option Reply) (turn : Turn) : Option DialerStep :=
  match point, reply with
  | .dialing, none => s.goes (.call (.relayDial primary backup target point) (.dial primary target))
  | .dialingBackup, none =>
      s.goes (.call (.relayDial primary backup target point) (.dial backup target))
  | .done result, _ => s.replies (.ofOk (result = .primary ∨ result = .backup))
  | point, reply =>
      (s.tcpRelay.dial (turn.told reply) point).bind fun (relay, point) =>
        { s with tcpRelay := relay }.goes (.goto (.relayDial primary backup target point))

def failOpenDial (s : Dialers) (proxy direct : StreamDialer) (target : Destination)
    (point : FailOpen.DialPoint) (reply : Option Reply) (turn : Turn) : Option DialerStep :=
  match point, reply with
  | .dialing, none => s.goes (.call (.failOpenDial proxy direct target point) (.dial proxy target))
  | .dialingDirect, none =>
      s.goes (.call (.failOpenDial proxy direct target point) (.dial direct target))
  | .done result, _ => s.replies (.ofOk (result ≠ .failed))
  | point, reply =>
      (s.failOpen.dial (turn.told reply) point).map fun (failOpen, point, launched) =>
        ⟨{ s with failOpen := failOpen }, none, .goto (.failOpenDial proxy direct target point),
          launched.toList.map fun _ => .probe proxy target⟩

def probe (s : Dialers) (i : Nat) (proxy : StreamDialer) (target : Destination)
    (point : FailOpen.ProbePoint) (reply : Option Reply) (turn : Turn) : Option DialerStep :=
  match point, reply with
  | .dialing, none => s.goes (.call (.probe proxy target point) (.dial proxy target))
  | .done, _ => s.replies .done
  | point, reply =>
      (s.failOpen.probe i (turn.told reply) point).bind fun (failOpen, point) =>
        { s with failOpen := failOpen }.goes (.goto (.probe proxy target point))

/-- The connection is returned when the landing server has accepted the target. -/
def landingDial (s : Dialers) (server : LandingServer) (base : StreamDialer)
    (target : Destination) (reply : Option Reply) (turn : Turn) : Option DialerStep :=
  match reply with
  | none => s.goes (.call (.landingDial server base target) (.dial base (.address server.server)))
  | some r => s.replies (.ofOk (r.ok && turn.ok))

/-- The session that a relay returns: its own, or the one of the backup. -/
def openedSession : OpenResult → Option Nat → Reply
  | .opened _, some k | .openedBackup, some k => .session k
  | _, _ => .failed

def advanceOpen (s : Dialers) (primary backup : PacketDialer) (point : OpenPoint)
    (opened : Option Nat) (input : Input) : Option DialerStep :=
  (s.udpRelay.openPacket input point).bind fun (relay, point) =>
    { s with udpRelay := relay }.goes (.goto (.relayOpen primary backup point opened))

def relayOpen (s : Dialers) (primary backup : PacketDialer) (point : OpenPoint)
    (opened : Option Nat) (reply : Option Reply) (turn : Turn) : Option DialerStep :=
  match point, reply with
  | .dialing, none =>
      s.goes (.call (.relayOpen primary backup point opened) (.openPacket primary))
  | .dialingBackup, none =>
      s.goes (.call (.relayOpen primary backup point opened) (.openPacket backup))
  | .dialing, some r | .dialingBackup, some r =>
      s.advanceOpen primary backup point r.session? (turn.told (some r))
  | .adopting, _ =>
      match opened, s.udpRelay.openPacket turn.toInput .adopting with
      | some k, some (relay, point) =>
          { s with udpRelay := relay }.add
            ⟨.relay primary backup, .fallback s.udpRelay.sessions.length [k] backup⟩
            fun k => .goto (.relayOpen primary backup point (some k))
      | _, _ => none
  | .done result, _ => s.replies (openedSession result opened)
  | _, _ => s.advanceOpen primary backup point opened turn.toInput

def failOpenOpen (s : Dialers) (proxy direct : PacketDialer) (point : FailOpenOpenPoint)
    (reply : Option Reply) (turn : Turn) : Option DialerStep :=
  match point, reply with
  | .start, _ =>
      let (controller, mode) := s.failOpen.controller.currentMode turn.now
      (s.control controller).goes
        (.goto (.failOpenOpen proxy direct (if mode ≠ .proxy then .openingDirect else .opening)))
  | .opening, none => s.goes (.call (.failOpenOpen proxy direct .opening) (.openPacket proxy))
  | .opening, some (.session k) => s.goes (.goto (.failOpenOpen proxy direct (.succeeded k)))
  | .opening, some _ => s.goes (.goto (.failOpenOpen proxy direct .failed))
  | .succeeded k, _ =>
      (s.control (s.failOpen.controller.recordSuccess turn.now)).add
        ⟨.failOpen proxy direct, .failOpen .opened [k] direct⟩
        fun k => .goto (.failOpenOpen proxy direct (.done (some k)))
  | .failed, _ =>
      (s.control (s.failOpen.controller.recordFailure turn.now)).goes
        (.goto (.failOpenOpen proxy direct .openingDirect))
  | .openingDirect, none =>
      s.goes (.call (.failOpenOpen proxy direct .openingDirect) (.openPacket direct))
  | .openingDirect, some r => s.goes (.goto (.failOpenOpen proxy direct (.done r.session?)))
  | .done (some k), _ => s.replies (.session k)
  | .done none, _ => s.replies .failed

def landingOpen (s : Dialers) (server : LandingServer) (maxPayload : Int) (control : StreamDialer)
    (packets : PacketDialer) (point : AssociatePoint) (reply : Option Reply) (turn : Turn) :
    Option DialerStep :=
  let frame := Frame.landingOpen server maxPayload control packets
  match point, reply with
  | .dialing, none => s.goes (.call (frame .dialing) (.dial control (.address server.server)))
  | .dialing, some r =>
      match r.ok, turn.named with
      | true, some relay => s.goes (.goto (frame (.opening relay)))
      | _, _ => s.replies .failed
  | .opening relay, none => s.goes (.call (frame (.opening relay)) (.openPacket packets))
  | .opening relay, some (.session k) => s.goes (.goto (frame (.clearing relay k)))
  | .opening _, some _ => s.replies .failed
  | .clearing relay k, _ =>
      if turn.ok then
        s.add ⟨.landing server maxPayload control packets,
          .landing server relay k packets false⟩ fun k => .reply (.session k)
      else s.goes (.goto (frame (.discarding k)))
  | .discarding k, none =>
      s.goes (.call (frame (.discarding k)) (.session k packets .close (.address [])))
  | .discarding _, some _ => s.replies .failed

def fallbackCall (s : Dialers) (i k : Nat) (dialer : PacketDialer) (target : Destination)
    (number : Nat) (backup : PacketDialer) (thread : SessionThread) (reply : Option Reply)
    (turn : Turn) : Option DialerStep :=
  let frame := Frame.fallbackCall k dialer target number backup
  match thread.outcome, thread.wants, reply with
  | some ok, _, _ => s.replies (.ofOk ok)
  | none, some want, none => do
      let session ← s.udpRelay.sessions[number]?
      let op ← s.resolve k session.session backup target want
      s.goes (.call (frame thread) op)
  | none, want, reply =>
      match s.udpRelay.exec i (.onSession number thread) (turn.told reply) with
      | some (relay, .onSession _ thread) =>
          ({ s with udpRelay := relay }.adopt k want reply).goes (.goto (frame thread))
      | _ => none

def failOpenCall (s : Dialers) (i k : Nat) (dialer : PacketDialer) (target : Destination)
    (direct : PacketDialer) (thread : FailOpenThread) (reply : Option Reply) (turn : Turn) :
    Option DialerStep :=
  let frame := Frame.failOpenCall k dialer target direct
  match s.sessions[k]? with
  | some ⟨_, .failOpen state held _⟩ =>
      match thread.outcome, thread.wants, reply with
      | some ok, _, _ => s.replies (.ofOk ok)
      | none, some want, none => do
          let op ← s.resolve k state.session direct target want
          s.goes (.call (frame thread) op)
      | none, want, reply => do
          let (state, report, thread) ← state.exec i (turn.told reply) thread
          let s := s.control (report.apply s.failOpen.controller)
          let s := s.update k fun _ => .failOpen state held direct
          (s.adopt k want reply).goes (.goto (frame thread))
  | _ => none

/-- What arrives from elsewhere than the relay is passed over. Only the first call closes. -/
def landingCall (s : Dialers) (k : Nat) (dialer : PacketDialer) (call : SessionCall)
    (target : Destination) (server : LandingServer) (relay : Bytes) (packet : Nat)
    (packets : PacketDialer) (reply : Option Reply) (turn : Turn) : Option DialerStep :=
  let frame := Frame.landingCall k dialer call target server relay packet packets
  match call, reply with
  | .send, none =>
      if turn.ok then s.goes (.call frame (.session packet packets .send (.relay server relay)))
      else s.replies .failed
  | .receive, none => s.goes (.call frame (.session packet packets .receive target))
  | .receive, some r =>
      if r.ok && !turn.ok then s.goes (.goto frame) else s.replies (.ofOk r.ok)
  | .close, none =>
      match s.sessions[k]? with
      | some ⟨_, .landing _ _ _ _ false⟩ =>
          (s.update k fun _ => .landing server relay packet packets true).goes
            (.call frame (.session packet packets .close target))
      | _ => s.replies .done
  | _, some r => s.replies (.ofOk r.ok)

def overStream (s : Dialers) (dialer : StreamDialer) (endpoint : Bytes) (reply : Option Reply)
    (turn : Turn) : Option DialerStep :=
  match reply with
  | none => s.goes (.call (.overStream dialer endpoint) (.dial dialer (.address endpoint)))
  | some r => s.replies (.ofOk (r.ok && turn.ok))

def dnsFallback (s : Dialers) (primary second : Exchanger) (failed : Bool)
    (reply : Option Reply) : Option DialerStep :=
  match failed, reply with
  | false, none => s.goes (.call (.dnsFallback primary second false) (.exchange primary))
  | false, some r =>
      if r.ok then s.replies .done else s.goes (.goto (.dnsFallback primary second true))
  | true, none => s.goes (.call (.dnsFallback primary second true) (.exchange second))
  | true, some r => s.replies (.ofOk r.ok)

def step (s : Dialers) (i : Nat) (frame : Frame) (reply : Option Reply) (turn : Turn) :
    Option DialerStep :=
  match frame with
  | .enter op => s.enter turn op
  | .relayDial primary backup target point => s.relayDial primary backup target point reply turn
  | .failOpenDial proxy direct target point => s.failOpenDial proxy direct target point reply turn
  | .probe proxy target point => s.probe i proxy target point reply turn
  | .landingDial server base target => s.landingDial server base target reply turn
  | .relayOpen primary backup point opened => s.relayOpen primary backup point opened reply turn
  | .failOpenOpen proxy direct point => s.failOpenOpen proxy direct point reply turn
  | .landingOpen server maxPayload control packets point =>
      s.landingOpen server maxPayload control packets point reply turn
  | .fallbackCall k dialer target number backup thread =>
      s.fallbackCall i k dialer target number backup thread reply turn
  | .failOpenCall k dialer target direct thread =>
      s.failOpenCall i k dialer target direct thread reply turn
  | .landingCall k dialer call target server relay packet packets =>
      s.landingCall k dialer call target server relay packet packets reply turn
  | .overStream dialer endpoint => s.overStream dialer endpoint reply turn
  | .dnsFallback primary second failed => s.dnsFallback primary second failed reply

end Dialers

def dialerCalls : Calls Dialers Frame Op Reply Turn (Carrier × Destination) where
  enter := .enter
  step := Dialers.step

end Hy2Route.Transport
