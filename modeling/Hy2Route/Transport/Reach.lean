import Hy2Route.Transport.Dialers

/-!
# What dialers reach

A dialer reaches the sockets that it is made of, and a landing on the way replaces the
destination. What is recorded in a run of the dialers is never more than what the operation
that a client had asked for reaches. A session reaches what the dialer reaches that made it,
also after it has replaced the sessions that it holds.
-/

namespace Hy2Route.Transport

open Foundation

/-! ## The reach of an operation -/

def StreamDialer.Reaches : StreamDialer → Destination → Carrier → Destination → Prop
  | .carrier own, target, c, t => c = own ∧ t = target
  | .relay primary backup, target, c, t =>
      primary.Reaches target c t ∨ backup.Reaches target c t
  | .failOpen proxy direct, target, c, t => proxy.Reaches target c t ∨ direct.Reaches target c t
  | .landing server base, _, c, t => base.Reaches (.address server.server) c t

/-- What is dialed when a session is opened. -/
def PacketDialer.Opens : PacketDialer → Carrier → Destination → Prop
  | .carrier _, _, _ => False
  | .block, _, _ => False
  | .relay primary backup, c, t => primary.Opens c t ∨ backup.Opens c t
  | .failOpen proxy direct, c, t => proxy.Opens c t ∨ direct.Opens c t
  | .landing server _ control packets, c, t =>
      control.Reaches (.address server.server) c t ∨ packets.Opens c t

/-- Where the datagrams of a session go. -/
def PacketDialer.Sends : PacketDialer → Destination → Carrier → Destination → Prop
  | .carrier own, target, c, t => c = own ∧ t = target
  | .block, _, _, _ => False
  | .relay primary backup, target, c, t => primary.Sends target c t ∨ backup.Sends target c t
  | .failOpen proxy direct, target, c, t => proxy.Sends target c t ∨ direct.Sends target c t
  | .landing server _ _ packets, _, c, t => ∃ relay, packets.Sends (.relay server relay) c t

def Exchanger.Reaches : Exchanger → Carrier → Destination → Prop
  | .network address, c, t => c = .direct ∧ t = .address address
  | .overStream dialer endpoint, c, t => dialer.Reaches (.address endpoint) c t
  | .fallback primary second, c, t => primary.Reaches c t ∨ second.Reaches c t

/-- A send may have to open another session. Nothing is sent to receive or to close. -/
def Op.Reaches : Op → Carrier → Destination → Prop
  | .dial dialer target, c, t => dialer.Reaches target c t
  | .probe proxy target, c, t => proxy.Reaches target c t
  | .openPacket dialer, c, t => dialer.Opens c t
  | .session _ dialer .send target, c, t => dialer.Sends target c t ∨ dialer.Opens c t
  | .session _ _ _ _, _, _ => False
  | .exchange exchanger, c, t => exchanger.Reaches c t

def Op.Within (op root : Op) : Prop := ∀ c t, op.Reaches c t → root.Reaches c t

theorem Op.Within.trans {op mid root : Op} (h : op.Within mid) (hmid : mid.Within root) :
    op.Within root :=
  fun c t hreach => hmid c t (h c t hreach)

/-- The sessions of the first dialer reach no more than those of the second. -/
structure PacketDialer.Under (d d' : PacketDialer) : Prop where
  opens : ∀ c t, d.Opens c t → d'.Opens c t
  sends : ∀ target c t, d.Sends target c t → d'.Sends target c t

namespace PacketDialer.Under

variable {d d₁ d₂ d₃ : PacketDialer}

theorem refl (d : PacketDialer) : d.Under d := ⟨fun _ _ h => h, fun _ _ _ h => h⟩

theorem trans (h : d₁.Under d₂) (h' : d₂.Under d₃) : d₁.Under d₃ :=
  ⟨fun c t hopens => h'.opens c t (h.opens c t hopens),
    fun target c t hsends => h'.sends target c t (h.sends target c t hsends)⟩

theorem primary (p b : PacketDialer) : p.Under (.relay p b) :=
  ⟨fun _ _ => Or.inl, fun _ _ _ => Or.inl⟩

theorem backup (p b : PacketDialer) : b.Under (.relay p b) :=
  ⟨fun _ _ => Or.inr, fun _ _ _ => Or.inr⟩

theorem proxy (p d : PacketDialer) : p.Under (.failOpen p d) :=
  ⟨fun _ _ => Or.inl, fun _ _ _ => Or.inl⟩

theorem direct (p d : PacketDialer) : d.Under (.failOpen p d) :=
  ⟨fun _ _ => Or.inr, fun _ _ _ => Or.inr⟩

theorem send {k k' : Nat} {call : SessionCall} {target : Destination} (h : d₁.Under d₂) :
    (Op.session k d₁ call target).Within (.session k' d₂ .send target) := by
  intro c t hreach
  cases call with
  | send => exact hreach.imp (h.sends target c t) (h.opens c t)
  | receive => exact hreach.elim
  | close => exact hreach.elim

end PacketDialer.Under

/-! ## Sessions -/

def Dialers.Made (s : Dialers) (k : Nat) (own : PacketDialer) : Prop :=
  ∃ session : Session, s.sessions[k]? = some session ∧ session.dialer = own

/-- The session was made by a dialer that reaches no more than the given one. -/
def Dialers.Holds (s : Dialers) (k : Nat) (d : PacketDialer) : Prop :=
  ∃ own, s.Made k own ∧ own.Under d

def Session.Sound (s : Dialers) (session : Session) : Prop :=
  match session.body with
  | .carrier c => session.dialer = .carrier c
  | .fallback _ held backup =>
      (∃ primary, session.dialer = .relay primary backup) ∧ ∀ k ∈ held, s.Holds k session.dialer
  | .failOpen _ held direct =>
      (∃ proxy, session.dialer = .failOpen proxy direct) ∧ ∀ k ∈ held, s.Holds k session.dialer
  | .landing server _ packet packets _ =>
      (∃ maxPayload control, session.dialer = .landing server maxPayload control packets) ∧
        s.Holds packet packets

/-- Every session is there with its dialer. -/
def Dialers.Later (s s' : Dialers) : Prop := ∀ k own, s.Made k own → s'.Made k own

def Dialers.Sound (s : Dialers) : Prop :=
  ∀ (k : Nat) (session : Session), s.sessions[k]? = some session → session.Sound s

namespace Dialers

variable {s s' s'' : Dialers} {k : Nat} {d d' : PacketDialer}

theorem Later.refl (s : Dialers) : s.Later s := fun _ _ h => h

theorem Later.of_sessions (h : s'.sessions = s.sessions) : s.Later s' := by
  rintro k own ⟨session, hk, hown⟩
  exact ⟨session, by rw [h, hk], hown⟩

theorem Later.trans (h : s.Later s') (h' : s'.Later s'') : s.Later s'' :=
  fun k own hmade => h' k own (h k own hmade)

theorem Holds.later (h : s.Holds k d) (hlater : s.Later s') : s'.Holds k d := by
  obtain ⟨own, hmade, hunder⟩ := h
  exact ⟨own, hlater k own hmade, hunder⟩

theorem Holds.mono (h : s.Holds k d) (hunder : d.Under d') : s.Holds k d' := by
  obtain ⟨own, hmade, hown⟩ := h
  exact ⟨own, hmade, hown.trans hunder⟩

end Dialers

theorem Session.Sound.later {s s' : Dialers} {session : Session} (h : session.Sound s)
    (hlater : s.Later s') : session.Sound s' := by
  unfold Session.Sound at h ⊢
  cases hbody : session.body <;> simp only [hbody] at h ⊢
  case carrier => exact h
  case fallback => exact ⟨h.1, fun k hk => (h.2 k hk).later hlater⟩
  case failOpen => exact ⟨h.1, fun k hk => (h.2 k hk).later hlater⟩
  case landing => exact ⟨h.1, h.2.later hlater⟩

namespace Dialers

variable {s s' : Dialers} {k : Nat} {d : PacketDialer}

theorem Sound.of_sessions (hsound : s.Sound) (h : s'.sessions = s.sessions) : s'.Sound :=
  fun k session hk => (hsound k session (h ▸ hk)).later (.of_sessions h)

theorem Later.append (s : Dialers) (session : Session) : s.Later (s.append session) := by
  rintro k own ⟨old, hk, hown⟩
  refine ⟨old, ?_, hown⟩
  rw [Dialers.append, List.getElem?_append_left (List.getElem?_eq_some_iff.mp hk).1, hk]

theorem holds_append (s : Dialers) (session : Session) :
    (s.append session).Holds s.sessions.length session.dialer :=
  ⟨_, ⟨session, by simp [append], rfl⟩, .refl _⟩

theorem Sound.append {session : Session} (hsound : s.Sound) (hnew : session.Sound s) :
    (s.append session).Sound := by
  have hlater := Later.append s session
  intro k other hk
  change (s.sessions ++ [session])[k]? = some other at hk
  by_cases hlt : k < s.sessions.length
  · rw [List.getElem?_append_left hlt] at hk
    exact (hsound k other hk).later hlater
  · rw [List.getElem?_append_right (Nat.le_of_not_lt hlt)] at hk
    obtain rfl := List.mem_singleton.mp (List.mem_of_getElem? hk)
    exact hnew.later hlater

/-- The record of a session is changed. -/
theorem Later.update (s : Dialers) (k : Nat) (f : SessionBody → SessionBody) :
    s.Later (s.update k f) := by
  rintro j own ⟨session, hj, hown⟩
  by_cases hjk : k = j
  · exact ⟨{ session with body := f session.body }, by simp [Dialers.update, hjk, hj], hown⟩
  · exact ⟨session, by simp only [Dialers.update, List.getElem?_modify_ne _ _ hjk, hj], hown⟩

theorem Sound.update {f : SessionBody → SessionBody} (hsound : s.Sound)
    (h : ∀ session, s.sessions[k]? = some session →
      Session.Sound s { session with body := f session.body }) : (s.update k f).Sound := by
  intro j session hj
  refine Session.Sound.later ?_ (Later.update s k f)
  by_cases hjk : k = j
  · subst hjk
    simp only [Dialers.update, List.getElem?_modify_eq] at hj
    obtain ⟨old, hold, rfl⟩ := Option.map_eq_some_iff.mp hj
    exact h old hold
  · simp only [Dialers.update, List.getElem?_modify_ne _ _ hjk] at hj
    exact hsound j session hj

end Dialers

/-! ## The discipline -/

namespace Frame

def op : Frame → Op
  | .enter op => op
  | .relayDial primary backup target _ => .dial (.relay primary backup) target
  | .failOpenDial proxy direct target _ => .dial (.failOpen proxy direct) target
  | .probe proxy target _ => .probe proxy target
  | .landingDial server base target => .dial (.landing server base) target
  | .relayOpen primary backup _ _ => .openPacket (.relay primary backup)
  | .failOpenOpen proxy direct _ => .openPacket (.failOpen proxy direct)
  | .landingOpen server maxPayload control packets _ =>
      .openPacket (.landing server maxPayload control packets)
  | .fallbackCall k dialer target _ _ thread => .session k dialer thread.call target
  | .failOpenCall k dialer target _ thread => .session k dialer thread.call target
  | .landingCall k dialer call target _ _ _ _ => .session k dialer call target
  | .overStream dialer endpoint => .exchange (.overStream dialer endpoint)
  | .dnsFallback primary second _ => .exchange (.fallback primary second)

/-- The dialer whose session the call waits for. -/
def awaits : Frame → Option PacketDialer
  | .relayOpen primary _ .dialing _ => some primary
  | .relayOpen _ backup .dialingBackup _ => some backup
  | .failOpenOpen proxy _ .opening => some proxy
  | .failOpenOpen _ direct .openingDirect => some direct
  | .landingOpen _ _ _ packets (.opening _) => some packets
  | .fallbackCall _ _ _ _ backup (.send (.opening _)) => some backup
  | .failOpenCall _ _ _ direct (.send .opening) => some direct
  | _ => none

/-- The sessions that a call knows were made for it. -/
def Knows (s : Dialers) : Frame → Prop
  | .enter (.session k dialer _ _) => s.Holds k dialer
  | .relayOpen primary backup _ opened => ∀ k ∈ opened, s.Holds k (.relay primary backup)
  | .failOpenOpen proxy direct (.succeeded k) => s.Holds k (.failOpen proxy direct)
  | .failOpenOpen proxy direct (.done opened) => ∀ k ∈ opened, s.Holds k (.failOpen proxy direct)
  | .landingOpen _ _ _ packets (.clearing _ k) => s.Holds k packets
  | .landingOpen _ _ _ packets (.discarding k) => s.Holds k packets
  | .fallbackCall k dialer _ _ backup _ =>
      ∃ primary, s.Made k (.relay primary backup) ∧
        (PacketDialer.relay primary backup).Under dialer
  | .failOpenCall k dialer _ direct _ =>
      ∃ proxy, s.Made k (.failOpen proxy direct) ∧ (PacketDialer.failOpen proxy direct).Under dialer
  | .landingCall k dialer _ _ server _ packet packets => s.Holds packet packets ∧
      ∃ maxPayload control, s.Made k (.landing server maxPayload control packets) ∧
        (PacketDialer.landing server maxPayload control packets).Under dialer
  | _ => True

theorem Knows.later {s s' : Dialers} {frame : Frame} (h : frame.Knows s) (hlater : s.Later s') :
    frame.Knows s' := by
  unfold Knows at h ⊢
  split <;> simp only at h ⊢
  case h_2 => exact fun k hk => (h k hk).later hlater
  case h_4 => exact fun k hk => (h k hk).later hlater
  case h_7 =>
    obtain ⟨primary, hmade, hunder⟩ := h
    exact ⟨primary, hlater _ _ hmade, hunder⟩
  case h_8 =>
    obtain ⟨proxy, hmade, hunder⟩ := h
    exact ⟨proxy, hlater _ _ hmade, hunder⟩
  case h_9 =>
    obtain ⟨hpacket, maxPayload, control, hmade, hunder⟩ := h
    exact ⟨hpacket.later hlater, maxPayload, control, hlater _ _ hmade, hunder⟩
  all_goals exact h.later hlater

end Frame

def reachDiscipline : Discipline Dialers Frame Op Reply (Carrier × Destination) where
  op := Frame.op
  Later := Dialers.Later
  Sound := Dialers.Sound
  Good s root frame := frame.op.Within root ∧ frame.Knows s
  Fits s frame r := ∀ k d, r = .session k → frame.awaits = some d → s.Holds k d
  Answers s op r := ∀ k d, op = .openPacket d → r = .session k → s.Holds k d
  Permits root e := root.Reaches e.1 e.2

section Steps

variable {s s' : Dialers} {root : Op} {frame next : Frame} {o : DialerStep}
  {reply : Option Reply} {turn : Turn}

theorem Op.Within.refl (op : Op) : op.Within op := fun _ _ h => h

theorem kept_goto (hop : next.op = frame.op) (hwithin : frame.op.Within root)
    (hknows : next.Knows s') (hsound : s'.Sound) (hlater : s.Later s') :
    reachDiscipline.Kept dialerCalls s root frame ⟨s', none, .goto next, []⟩ where
  sound := hsound
  later := hlater
  event _ he := absurd he (by simp)
  started _ hop := absurd hop List.not_mem_nil
  act := ⟨⟨hop ▸ hwithin, hknows⟩, hop⟩

theorem kept_call {op : Op} (hop : next.op = frame.op) (hwithin : frame.op.Within root)
    (hknows : next.Knows s') (hinner : op.Within frame.op) (henter : (Frame.enter op).Knows s')
    (hawaits : ∀ d, next.awaits = some d → op = .openPacket d) (hsound : s'.Sound)
    (hlater : s.Later s') :
    reachDiscipline.Kept dialerCalls s root frame ⟨s', none, .call next op, []⟩ where
  sound := hsound
  later := hlater
  event _ he := absurd he (by simp)
  started _ hop := absurd hop List.not_mem_nil
  act := ⟨⟨hop ▸ hwithin, hknows⟩, hop, ⟨hinner.trans hwithin, henter⟩,
    fun _ _ _ hanswers k d hr hd => hanswers k d (hawaits d hd) hr⟩

theorem kept_reply {r : Reply} (h : ∀ k d, frame.op = .openPacket d → r = .session k → s'.Holds k d)
    (hsound : s'.Sound) (hlater : s.Later s') :
    reachDiscipline.Kept dialerCalls s root frame ⟨s', none, .reply r, []⟩ where
  sound := hsound
  later := hlater
  event _ he := absurd he (by simp)
  started _ hop := absurd hop List.not_mem_nil
  act := h

theorem Reply.ofOk_ne_session (ok : Bool) (k : Nat) : Reply.ofOk ok ≠ .session k := by
  cases ok <;> simp [Reply.ofOk]

/-- A reply that is no session. -/
theorem kept_replies {ok : Bool} (hsound : s.Sound) (h : s.replies (.ofOk ok) = some o) :
    reachDiscipline.Kept dialerCalls s root frame o := by
  cases h
  exact kept_reply (fun k d _ hr => absurd hr (Reply.ofOk_ne_session ok k)) hsound (.refl s)

theorem kept_failed (hsound : s.Sound) (h : s.replies .failed = some o) :
    reachDiscipline.Kept dialerCalls s root frame o := by
  cases h
  exact kept_reply (fun k d _ hr => nomatch hr) hsound (.refl s)

/-! ### Streams -/

theorem kept_relayDial {primary backup : StreamDialer} {target : Destination}
    {point : RelayDialPoint} (hsound : s.Sound)
    (hwithin : (Op.dial (.relay primary backup) target).Within root)
    (h : s.relayDial primary backup target point reply turn = some o) :
    reachDiscipline.Kept dialerCalls s root (.relayDial primary backup target point) o := by
  unfold Dialers.relayDial at h
  split at h
  · cases h
    exact kept_call rfl hwithin trivial (fun c t => Or.inl) trivial (fun d hd => nomatch hd) hsound
      (.refl s)
  · cases h
    exact kept_call rfl hwithin trivial (fun c t => Or.inr) trivial (fun d hd => nomatch hd) hsound
      (.refl s)
  · exact kept_replies hsound h
  · obtain ⟨⟨relay, point'⟩, -, hgoes⟩ := Option.bind_eq_some_iff.mp h
    cases hgoes
    exact kept_goto rfl hwithin trivial (hsound.of_sessions rfl) (.of_sessions rfl)

theorem kept_failOpenDial {proxy direct : StreamDialer} {target : Destination}
    {point : FailOpen.DialPoint} (hsound : s.Sound)
    (hwithin : (Op.dial (.failOpen proxy direct) target).Within root)
    (h : s.failOpenDial proxy direct target point reply turn = some o) :
    reachDiscipline.Kept dialerCalls s root (.failOpenDial proxy direct target point) o := by
  unfold Dialers.failOpenDial at h
  split at h
  · cases h
    exact kept_call rfl hwithin trivial (fun c t => Or.inl) trivial (fun d hd => nomatch hd) hsound
      (.refl s)
  · cases h
    exact kept_call rfl hwithin trivial (fun c t => Or.inr) trivial (fun d hd => nomatch hd) hsound
      (.refl s)
  · exact kept_replies hsound h
  · obtain ⟨⟨failOpen, point', launched⟩, -, ho⟩ := Option.map_eq_some_iff.mp h
    cases ho
    refine ⟨hsound.of_sessions rfl, .of_sessions rfl, fun e he => absurd he (by simp), ?_,
      ⟨hwithin, trivial⟩, rfl⟩
    -- The probe dials the proxy for the same target.
    intro op hop
    obtain ⟨-, -, rfl⟩ := List.mem_map.mp hop
    exact ⟨fun c t hreach => hwithin c t (Or.inl hreach), trivial⟩

theorem kept_probe {i : Nat} {proxy : StreamDialer} {target : Destination}
    {point : FailOpen.ProbePoint} (hsound : s.Sound) (hwithin : (Op.probe proxy target).Within root)
    (h : s.probe i proxy target point reply turn = some o) :
    reachDiscipline.Kept dialerCalls s root (.probe proxy target point) o := by
  unfold Dialers.probe at h
  split at h
  · cases h
    exact kept_call rfl hwithin trivial (fun c t hreach => hreach) trivial (fun d hd => nomatch hd)
      hsound (.refl s)
  · cases h
    exact kept_reply (fun k d hop => nomatch hop) hsound (.refl s)
  · obtain ⟨⟨failOpen, point'⟩, -, hgoes⟩ := Option.bind_eq_some_iff.mp h
    cases hgoes
    exact kept_goto rfl hwithin trivial (hsound.of_sessions rfl) (.of_sessions rfl)

theorem kept_landingDial {server : LandingServer} {base : StreamDialer} {target : Destination}
    (hsound : s.Sound) (hwithin : (Op.dial (.landing server base) target).Within root)
    (h : s.landingDial server base target reply turn = some o) :
    reachDiscipline.Kept dialerCalls s root (.landingDial server base target) o := by
  unfold Dialers.landingDial at h
  split at h
  · cases h
    exact kept_call rfl hwithin trivial (fun c t hreach => hreach) trivial (fun d hd => nomatch hd)
      hsound (.refl s)
  · exact kept_replies hsound h

/-! ### Exchanges -/

theorem kept_overStream {dialer : StreamDialer} {endpoint : Bytes} (hsound : s.Sound)
    (hwithin : (Op.exchange (.overStream dialer endpoint)).Within root)
    (h : s.overStream dialer endpoint reply turn = some o) :
    reachDiscipline.Kept dialerCalls s root (.overStream dialer endpoint) o := by
  unfold Dialers.overStream at h
  split at h
  · cases h
    exact kept_call rfl hwithin trivial (fun c t hreach => hreach) trivial (fun d hd => nomatch hd)
      hsound (.refl s)
  · exact kept_replies hsound h

theorem kept_dnsFallback {primary second : Exchanger} {failed : Bool} (hsound : s.Sound)
    (hwithin : (Op.exchange (.fallback primary second)).Within root)
    (h : s.dnsFallback primary second failed reply = some o) :
    reachDiscipline.Kept dialerCalls s root (.dnsFallback primary second failed) o := by
  unfold Dialers.dnsFallback at h
  split at h
  · cases h
    exact kept_call rfl hwithin trivial (fun c t => Or.inl) trivial (fun d hd => nomatch hd) hsound
      (.refl s)
  · split_ifs at h
    · have hdone : s.replies (.ofOk true) = some o := h
      exact kept_replies hsound hdone
    · cases h
      exact kept_goto rfl hwithin trivial hsound (.refl s)
  · cases h
    exact kept_call rfl hwithin trivial (fun c t => Or.inr) trivial (fun d hd => nomatch hd) hsound
      (.refl s)
  · exact kept_replies hsound h

/-! ### Opening sessions -/

theorem kept_advanceOpen {primary backup : PacketDialer} {point : OpenPoint}
    {opened opened' : Option Nat} {input : Input} (hsound : s.Sound)
    (hwithin : (Op.openPacket (.relay primary backup)).Within root)
    (hopened : ∀ k ∈ opened', s.Holds k (.relay primary backup))
    (h : s.advanceOpen primary backup point opened' input = some o) :
    reachDiscipline.Kept dialerCalls s root (.relayOpen primary backup point opened) o := by
  obtain ⟨⟨relay, point'⟩, -, hgoes⟩ := Option.bind_eq_some_iff.mp h
  cases hgoes
  exact kept_goto rfl hwithin (fun k hk => (hopened k hk).later (.of_sessions rfl))
    (hsound.of_sessions rfl) (.of_sessions rfl)

theorem Reply.eq_session {r : Reply} {k : Nat} (h : k ∈ r.session?) : r = .session k := by
  cases r <;> cases h
  rfl

theorem kept_relayOpen {primary backup : PacketDialer} {point : OpenPoint} {opened : Option Nat}
    (hsound : s.Sound) (hwithin : (Op.openPacket (.relay primary backup)).Within root)
    (hknows : (Frame.relayOpen primary backup point opened).Knows s)
    (hfits : ∀ r ∈ reply, reachDiscipline.Fits s (.relayOpen primary backup point opened) r)
    (h : s.relayOpen primary backup point opened reply turn = some o) :
    reachDiscipline.Kept dialerCalls s root (.relayOpen primary backup point opened) o := by
  unfold Dialers.relayOpen at h
  split at h
  · cases h
    exact kept_call rfl hwithin hknows (fun c t => Or.inl) trivial
      (fun d hd => congrArg _ (Option.some.inj hd)) hsound (.refl s)
  · cases h
    exact kept_call rfl hwithin hknows (fun c t => Or.inr) trivial
      (fun d hd => congrArg _ (Option.some.inj hd)) hsound (.refl s)
  · refine kept_advanceOpen hsound hwithin (fun k hk => ?_) h
    exact (hfits _ rfl k _ (Reply.eq_session hk) rfl).mono (.primary _ _)
  · refine kept_advanceOpen hsound hwithin (fun k hk => ?_) h
    exact (hfits _ rfl k _ (Reply.eq_session hk) rfl).mono (.backup _ _)
  · split at h
    · rename_i k relay point' _
      cases h
      let before : Dialers := { s with udpRelay := relay }
      let session : Session :=
        ⟨.relay primary backup, .fallback s.udpRelay.sessions.length [k] backup⟩
      have hnew : session.Sound before := by
        refine ⟨⟨primary, rfl⟩, fun j hj => ?_⟩
        obtain rfl := List.mem_singleton.mp hj
        exact (hknows j rfl).later (.of_sessions rfl)
      have hbefore : before.Sound := hsound.of_sessions rfl
      refine kept_goto rfl hwithin (fun j hj => ?_) (hbefore.append hnew)
        (Dialers.Later.trans (.of_sessions rfl) (.append before session))
      obtain rfl := Option.some.inj hj
      exact before.holds_append session
    · cases h
  · cases h
    refine kept_reply (fun k d hop hr => ?_) hsound (.refl s)
    cases hop
    unfold Dialers.openedSession at hr
    split at hr <;> cases hr <;> exact hknows _ rfl
  · exact kept_advanceOpen hsound hwithin hknows h

theorem Dialers.Sound.control (hsound : s.Sound) (controller : Failover.Controller) :
    (s.control controller).Sound :=
  hsound.of_sessions rfl

theorem kept_failOpenOpen {proxy direct : PacketDialer} {point : FailOpenOpenPoint}
    (hsound : s.Sound) (hwithin : (Op.openPacket (.failOpen proxy direct)).Within root)
    (hknows : (Frame.failOpenOpen proxy direct point).Knows s)
    (hfits : ∀ r ∈ reply, reachDiscipline.Fits s (.failOpenOpen proxy direct point) r)
    (h : s.failOpenOpen proxy direct point reply turn = some o) :
    reachDiscipline.Kept dialerCalls s root (.failOpenOpen proxy direct point) o := by
  unfold Dialers.failOpenOpen at h
  split at h
  · cases h
    refine kept_goto rfl hwithin ?_ (hsound.control _) (.of_sessions rfl)
    split_ifs <;> trivial
  · cases h
    exact kept_call rfl hwithin trivial (fun c t => Or.inl) trivial
      (fun d hd => congrArg _ (Option.some.inj hd)) hsound (.refl s)
  · cases h
    exact kept_goto rfl hwithin ((hfits _ rfl _ _ rfl rfl).mono (.proxy _ _)) hsound (.refl s)
  · cases h
    exact kept_goto rfl hwithin trivial hsound (.refl s)
  · rename_i k
    cases h
    let before := s.control (s.failOpen.controller.recordSuccess turn.now)
    let session : Session := ⟨.failOpen proxy direct, .failOpen .opened [k] direct⟩
    have hnew : session.Sound before := by
      refine ⟨⟨proxy, rfl⟩, fun j hj => ?_⟩
      obtain rfl := List.mem_singleton.mp hj
      exact hknows.later (.of_sessions rfl)
    refine kept_goto rfl hwithin (fun j hj => ?_) ((hsound.control _).append hnew)
      (Dialers.Later.trans (.of_sessions rfl) (.append before session))
    obtain rfl := Option.some.inj hj
    exact before.holds_append session
  · cases h
    exact kept_goto rfl hwithin trivial (hsound.control _) (.of_sessions rfl)
  · cases h
    exact kept_call rfl hwithin trivial (fun c t => Or.inr) trivial
      (fun d hd => congrArg _ (Option.some.inj hd)) hsound (.refl s)
  · cases h
    refine kept_goto rfl hwithin (fun k hk => ?_) hsound (.refl s)
    exact (hfits _ rfl k _ (Reply.eq_session hk) rfl).mono (.direct _ _)
  · cases h
    refine kept_reply (fun k d hop hr => ?_) hsound (.refl s)
    cases hop
    cases hr
    exact hknows _ rfl
  · exact kept_failed hsound h

theorem kept_landingOpen {server : LandingServer} {maxPayload : Int} {control : StreamDialer}
    {packets : PacketDialer} {point : AssociatePoint} (hsound : s.Sound)
    (hwithin : (Op.openPacket (.landing server maxPayload control packets)).Within root)
    (hknows : (Frame.landingOpen server maxPayload control packets point).Knows s)
    (hfits : ∀ r ∈ reply,
      reachDiscipline.Fits s (.landingOpen server maxPayload control packets point) r)
    (h : s.landingOpen server maxPayload control packets point reply turn = some o) :
    reachDiscipline.Kept dialerCalls s root
      (.landingOpen server maxPayload control packets point) o := by
  unfold Dialers.landingOpen at h
  split at h
  · cases h
    exact kept_call rfl hwithin trivial (fun c t => Or.inl) trivial (fun d hd => nomatch hd) hsound
      (.refl s)
  · split at h
    · cases h
      exact kept_goto rfl hwithin trivial hsound (.refl s)
    · exact kept_failed hsound h
  · cases h
    exact kept_call rfl hwithin trivial (fun c t => Or.inr) trivial
      (fun d hd => congrArg _ (Option.some.inj hd)) hsound (.refl s)
  · cases h
    exact kept_goto rfl hwithin (hfits _ rfl _ _ rfl rfl) hsound (.refl s)
  · exact kept_failed hsound h
  · rename_i relay k
    split_ifs at h
    · cases h
      let session : Session :=
        ⟨.landing server maxPayload control packets, .landing server relay k packets false⟩
      have hnew : session.Sound s := ⟨⟨maxPayload, control, rfl⟩, hknows⟩
      refine kept_reply (fun j d hop hr => ?_) (hsound.append hnew) (.append s session)
      cases hop
      cases hr
      exact s.holds_append session
    · cases h
      exact kept_goto rfl hwithin hknows hsound (.refl s)
  · cases h
    exact kept_call rfl hwithin hknows (fun c t hreach => hreach.elim) hknows
      (fun d hd => nomatch hd) hsound (.refl s)
  · exact kept_failed hsound h

/-! ### Calls on sessions -/

theorem Dialers.Made.unique {k : Nat} {own own' : PacketDialer} (h : s.Made k own)
    (h' : s.Made k own') : own = own' := by
  obtain ⟨session, hk, rfl⟩ := h
  obtain ⟨session', hk', rfl⟩ := h'
  rw [hk] at hk'
  cases hk'
  rfl

theorem onHeld_eq {k place : Nat} {call : SessionCall} {target : Destination} {op : Op}
    {own : PacketDialer} (hsound : s.Sound) (hmade : s.Made k own)
    (h : s.onHeld k place call target = some op) :
    ∃ inner d, op = .session inner d call target ∧ d.Under own ∧ s.Holds inner d := by
  simp only [Dialers.onHeld, Option.bind_eq_bind, Option.bind_eq_some_iff] at h
  obtain ⟨session, hk, inner, hinner, held, hheld, hop⟩ := h
  cases hop
  obtain rfl := hmade.unique ⟨session, hk, rfl⟩
  have hholds : s.Holds inner session.dialer := by
    have hsession := hsound k session hk
    have hmem := List.mem_of_getElem? hinner
    unfold Session.Sound at hsession
    cases hbody : session.body with
    | carrier c => simp [hbody, SessionBody.held] at hmem
    | landing server relay packet packets closed => simp [hbody, SessionBody.held] at hmem
    | fallback number places backup =>
        simp only [hbody] at hsession hmem
        exact hsession.2 inner hmem
    | failOpen state places direct =>
        simp only [hbody] at hsession hmem
        exact hsession.2 inner hmem
  obtain ⟨d, hd, hunder⟩ := hholds
  obtain rfl := hd.unique ⟨held, hheld, rfl⟩
  exact ⟨inner, _, rfl, hunder, _, hd, .refl _⟩

/-- What a send calls on the sessions that are held. -/
theorem resolve_send {k current : Nat} {replacement own d : PacketDialer} {target : Destination}
    {want : Want} {op : Op} (hsound : s.Sound) (hmade : s.Made k own) (hown : own.Under d)
    (hreplacement : replacement.Under own)
    (h : s.resolve k current replacement target want = some op) :
    op.Within (.session k d .send target) ∧ (Frame.enter op).Knows s := by
  cases want with
  | replacement =>
      cases h
      exact ⟨fun c t hreach => Or.inr (hown.opens c t (hreplacement.opens c t hreach)), trivial⟩
  | held place call =>
      obtain ⟨inner, d', rfl, hunder, hholds⟩ := onHeld_eq hsound hmade h
      exact ⟨(hunder.trans hown).send, hholds⟩
  | current call =>
      obtain ⟨inner, d', rfl, hunder, hholds⟩ := onHeld_eq hsound hmade h
      exact ⟨(hunder.trans hown).send, hholds⟩

/-- A call that sends nothing calls what sends nothing. -/
theorem resolve_quiet {k place : Nat} {call : SessionCall} {own : PacketDialer}
    {target : Destination} {op root : Op} (hsound : s.Sound) (hmade : s.Made k own)
    (hcall : call ≠ .send) (h : s.onHeld k place call target = some op) :
    op.Within root ∧ (Frame.enter op).Knows s := by
  obtain ⟨inner, d', rfl, -, hholds⟩ := onHeld_eq hsound hmade h
  refine ⟨fun c t hreach => ?_, hholds⟩
  cases call with
  | send => exact absurd rfl hcall
  | receive => exact hreach.elim
  | close => exact hreach.elim

theorem SessionThread.resolve_within {k current : Nat} {backup own d : PacketDialer}
    {target : Destination} {thread : SessionThread} {want : Want} {op : Op} (hsound : s.Sound)
    (hmade : s.Made k own) (hown : own.Under d) (hbackup : backup.Under own)
    (hwant : thread.wants = some want) (h : s.resolve k current backup target want = some op) :
    op.Within (.session k d thread.call target) ∧ (Frame.enter op).Knows s := by
  cases thread with
  | send point => exact resolve_send hsound hmade hown hbackup h
  | receive point =>
      cases point <;> cases hwant
      exact resolve_quiet hsound hmade (by simp) h
  | close point =>
      cases point <;> cases hwant
      exact resolve_quiet hsound hmade (by simp) h

theorem FailOpenThread.resolve_within {k current : Nat} {direct own d : PacketDialer}
    {target : Destination} {thread : FailOpenThread} {want : Want} {op : Op} (hsound : s.Sound)
    (hmade : s.Made k own) (hown : own.Under d) (hdirect : direct.Under own)
    (hwant : thread.wants = some want) (h : s.resolve k current direct target want = some op) :
    op.Within (.session k d thread.call target) ∧ (Frame.enter op).Knows s := by
  cases thread with
  | send point => exact resolve_send hsound hmade hown hdirect h
  | receive point =>
      cases point <;> cases hwant
      exact resolve_quiet hsound hmade (by simp) h
  | close point =>
      cases point <;> cases hwant
      exact resolve_quiet hsound hmade (by simp) h

/-- A session that holds one more. -/
theorem Dialers.Sound.hold {k inner : Nat} {own : PacketDialer} (hsound : s.Sound)
    (hmade : s.Made k own) (hinner : s.Holds inner own) : (s.update k (.hold inner)).Sound := by
  refine hsound.update fun session hk => ?_
  obtain rfl := hmade.unique ⟨session, hk, rfl⟩
  have hsession := hsound k session hk
  have hmore {held : List Nat} (hheld : ∀ j ∈ held, s.Holds j session.dialer) :
      ∀ j ∈ held ++ [inner], s.Holds j session.dialer := by
    intro j hj
    rcases List.mem_append.mp hj with hold | hnew
    · exact hheld j hold
    · obtain rfl := List.mem_singleton.mp hnew
      exact hinner
  unfold Session.Sound at hsession ⊢
  cases hbody : session.body with
  | carrier c =>
      simp only [hbody, SessionBody.hold] at hsession ⊢
      exact hsession
  | landing server relay packet packets closed =>
      simp only [hbody, SessionBody.hold] at hsession ⊢
      exact hsession
  | fallback number held backup =>
      simp only [hbody, SessionBody.hold] at hsession ⊢
      exact ⟨hsession.1, hmore hsession.2⟩
  | failOpen state held direct =>
      simp only [hbody, SessionBody.hold] at hsession ⊢
      exact ⟨hsession.1, hmore hsession.2⟩

theorem Dialers.Sound.adopt {k : Nat} {own : PacketDialer} {want : Option Want}
    (hsound : s.Sound) (hmade : s.Made k own)
    (hfits : ∀ inner, want = some .replacement → reply = some (.session inner) →
      s.Holds inner own) :
    (s.adopt k want reply).Sound ∧ s.Later (s.adopt k want reply) := by
  unfold Dialers.adopt
  split
  · exact ⟨hsound.hold hmade (hfits _ rfl rfl), .update _ _ _⟩
  · exact ⟨hsound, .refl s⟩

theorem SessionStep.call_eq {i : Nat} {a a' : FallbackSession} {input : Input} {effect : Effect}
    {thread thread' : SessionThread} (h : SessionStep i a input thread a' effect thread') :
    thread'.call = thread.call := by
  cases h <;> rfl

theorem FailOpenStep.call_eq {i : Nat} {a a' : FailOpenSession} {input : Input}
    {report : Report} {thread thread' : FailOpenThread}
    (h : FailOpenStep i a input thread a' report thread') : thread'.call = thread.call := by
  cases h <;> rfl

theorem SessionThread.awaits_iff {k number : Nat} {dialer backup d : PacketDialer}
    {target : Destination} {thread : SessionThread} :
    (Frame.fallbackCall k dialer target number backup thread).awaits = some d ↔
      thread.wants = some .replacement ∧ d = backup := by
  rcases thread with point | point | point <;> cases point <;>
    simp [Frame.awaits, SessionThread.wants, eq_comm]

theorem FailOpenThread.awaits_iff {k : Nat} {dialer direct d : PacketDialer}
    {target : Destination} {thread : FailOpenThread} :
    (Frame.failOpenCall k dialer target direct thread).awaits = some d ↔
      thread.wants = some .replacement ∧ d = direct := by
  rcases thread with point | point | point <;> cases point <;>
    simp [Frame.awaits, FailOpenThread.wants, eq_comm]

theorem kept_fallbackCall {i k number : Nat} {dialer backup : PacketDialer} {target : Destination}
    {thread : SessionThread} (hsound : s.Sound)
    (hwithin : (Op.session k dialer thread.call target).Within root)
    (hknows : (Frame.fallbackCall k dialer target number backup thread).Knows s)
    (hfits : ∀ r ∈ reply,
      reachDiscipline.Fits s (.fallbackCall k dialer target number backup thread) r)
    (h : s.fallbackCall i k dialer target number backup thread reply turn = some o) :
    reachDiscipline.Kept dialerCalls s root
      (.fallbackCall k dialer target number backup thread) o := by
  obtain ⟨primary, hmade, hunder⟩ := hknows
  unfold Dialers.fallbackCall at h
  split at h
  · exact kept_replies hsound h
  · rename_i want _ hwant
    simp only [Option.bind_eq_bind, Option.bind_eq_some_iff] at h
    obtain ⟨session, -, op, hop, hgoes⟩ := h
    cases hgoes
    obtain ⟨hinner, henter⟩ :=
      SessionThread.resolve_within hsound hmade hunder (.backup _ _) hwant hop
    refine kept_call rfl hwithin ⟨primary, hmade, hunder⟩ hinner henter (fun d hd => ?_) hsound
      (.refl s)
    obtain ⟨hreplacement, rfl⟩ := SessionThread.awaits_iff.mp hd
    rw [hwant] at hreplacement
    cases hreplacement
    cases hop
    rfl
  · split at h
    · rename_i relay _ thread' hexec
      obtain ⟨_, _, _, _, -, hstep, -, hthread⟩ := PacketRelay.exec_onSession hexec
      cases hthread
      cases h
      let before : Dialers := { s with udpRelay := relay }
      have hbefore : before.Sound := hsound.of_sessions rfl
      have hlater : s.Later before := .of_sessions rfl
      obtain ⟨hafter, hlater'⟩ := hbefore.adopt (hlater _ _ hmade) fun inner hreplacement hreply =>
        ((hfits _ hreply inner backup rfl
          (SessionThread.awaits_iff.mpr ⟨hreplacement, rfl⟩)).mono (.backup _ _)).later hlater
      have hcall := hstep.call_eq
      refine kept_goto (congrArg (Op.session k dialer · target) hcall) hwithin ?_ hafter
        (hlater.trans hlater')
      exact ⟨primary, hlater' _ _ (hlater _ _ hmade), hunder⟩
    · cases h

theorem kept_failOpenCall {i k : Nat} {dialer direct : PacketDialer} {target : Destination}
    {thread : FailOpenThread} (hsound : s.Sound)
    (hwithin : (Op.session k dialer thread.call target).Within root)
    (hknows : (Frame.failOpenCall k dialer target direct thread).Knows s)
    (hfits : ∀ r ∈ reply, reachDiscipline.Fits s (.failOpenCall k dialer target direct thread) r)
    (h : s.failOpenCall i k dialer target direct thread reply turn = some o) :
    reachDiscipline.Kept dialerCalls s root (.failOpenCall k dialer target direct thread) o := by
  obtain ⟨proxy, hmade, hunder⟩ := hknows
  unfold Dialers.failOpenCall at h
  split at h
  swap
  · cases h
  rename_i own state held old hk
  obtain rfl : own = .failOpen proxy direct := (hmade.unique ⟨_, hk, rfl⟩).symm
  have hheld : ∀ j ∈ held, s.Holds j (.failOpen proxy direct) := (hsound k _ hk).2
  split at h
  · exact kept_replies hsound h
  · rename_i want _ hwant
    simp only [Option.bind_eq_bind, Option.bind_eq_some_iff] at h
    obtain ⟨op, hop, hgoes⟩ := h
    cases hgoes
    obtain ⟨hinner, henter⟩ :=
      FailOpenThread.resolve_within hsound hmade hunder (.direct _ _) hwant hop
    refine kept_call rfl hwithin ⟨proxy, hmade, hunder⟩ hinner henter (fun d hd => ?_) hsound
      (.refl s)
    obtain ⟨hreplacement, rfl⟩ := FailOpenThread.awaits_iff.mp hd
    rw [hwant] at hreplacement
    cases hreplacement
    cases hop
    rfl
  · simp only [Option.bind_eq_bind, Option.bind_eq_some_iff] at h
    obtain ⟨⟨state', report, thread'⟩, hexec, hgoes⟩ := h
    cases hgoes
    let told := s.control (report.apply s.failOpen.controller)
    let before := told.update k fun _ => .failOpen state' held direct
    have hlater : s.Later before := Dialers.Later.trans (.of_sessions rfl) (.update told k _)
    have hbefore : before.Sound := by
      refine (hsound.control _).update fun session hsession => ?_
      change s.sessions[k]? = some session at hsession
      rw [hk] at hsession
      cases hsession
      exact ⟨⟨proxy, rfl⟩, fun j hj => (hheld j hj).later (.of_sessions rfl)⟩
    obtain ⟨hafter, hlater'⟩ := hbefore.adopt (hlater _ _ hmade) fun inner hreplacement hreply =>
      ((hfits _ hreply inner direct rfl
        (FailOpenThread.awaits_iff.mpr ⟨hreplacement, rfl⟩)).mono (.direct _ _)).later hlater
    have hcall := (FailOpenSession.exec_spec hexec).call_eq
    refine kept_goto (congrArg (Op.session k dialer · target) hcall) hwithin ?_ hafter
      (hlater.trans hlater')
    exact ⟨proxy, hlater' _ _ (hlater _ _ hmade), hunder⟩

theorem kept_landingCall {k packet : Nat} {dialer packets : PacketDialer} {call : SessionCall}
    {target : Destination} {server : LandingServer} {relay : Bytes} (hsound : s.Sound)
    (hwithin : (Op.session k dialer call target).Within root)
    (hknows : (Frame.landingCall k dialer call target server relay packet packets).Knows s)
    (h : s.landingCall k dialer call target server relay packet packets reply turn = some o) :
    reachDiscipline.Kept dialerCalls s root
      (.landingCall k dialer call target server relay packet packets) o := by
  obtain ⟨hpacket, maxPayload, control, hmade, hunder⟩ := id hknows
  unfold Dialers.landingCall at h
  split at h
  · split_ifs at h
    · cases h
      refine kept_call rfl hwithin hknows (fun c t hreach => ?_) hpacket (fun d hd => nomatch hd)
        hsound (.refl s)
      -- The datagram goes to the relay that was named.
      rcases hreach with hsends | hopens
      · exact Or.inl (hunder.sends target c t ⟨relay, hsends⟩)
      · exact Or.inr (hunder.opens c t (Or.inr hopens))
    · exact kept_failed hsound h
  · cases h
    exact kept_call rfl hwithin hknows (fun c t hreach => hreach.elim) hpacket
      (fun d hd => nomatch hd) hsound (.refl s)
  · split_ifs at h
    · cases h
      exact kept_goto rfl hwithin hknows hsound (.refl s)
    · exact kept_replies hsound h
  · split at h
    · cases h
      have hlater := Dialers.Later.update s k fun _ => .landing server relay packet packets true
      refine kept_call rfl hwithin (hknows.later hlater) (fun c t hreach => hreach.elim)
        (hpacket.later hlater) (fun d hd => nomatch hd) (hsound.update fun session hk => ?_) hlater
      exact ⟨⟨maxPayload, control, (hmade.unique ⟨session, hk, rfl⟩).symm⟩, hpacket⟩
    · have hdone : s.replies (.ofOk true) = some o := h
      exact kept_replies hsound hdone
  · exact kept_replies hsound h

/-! ### All calls -/

/-- Traffic that the operation itself sends. -/
theorem kept_event {ok : Bool} {e : Option (Carrier × Destination)} (hsound : s.Sound)
    (hwithin : frame.op.Within root) (he : ∀ x ∈ e, frame.op.Reaches x.1 x.2) :
    reachDiscipline.Kept dialerCalls s root frame ⟨s, e, .reply (.ofOk ok), []⟩ where
  sound := hsound
  later := .refl s
  event x hx := hwithin _ _ (he x hx)
  started _ hop := absurd hop List.not_mem_nil
  act k _ _ hr := absurd hr (Reply.ofOk_ne_session ok k)

theorem kept_enter_session {k : Nat} {dialer : PacketDialer} {call : SessionCall}
    {target : Destination} (hsound : s.Sound)
    (hwithin : (Op.session k dialer call target).Within root) (hholds : s.Holds k dialer)
    (h : s.enter turn (.session k dialer call target) = some o) :
    reachDiscipline.Kept dialerCalls s root (.enter (.session k dialer call target)) o := by
  obtain ⟨own, hmade, hunder⟩ := hholds
  simp only [Dialers.enter] at h
  split at h
  · cases h
  rename_i session hk
  obtain rfl := hmade.unique ⟨session, hk, rfl⟩
  have hsession := hsound k session hk
  unfold Session.Sound at hsession
  cases hbody : session.body with
  | carrier c =>
      simp only [hbody] at h hsession
      cases h
      refine kept_event hsound hwithin fun x hx => ?_
      cases call with
      | send =>
          cases hx
          exact Or.inl (hunder.sends _ _ _ (hsession ▸ ⟨rfl, rfl⟩))
      | receive => cases hx
      | close => cases hx
  | fallback number held backup =>
      simp only [hbody] at h hsession
      obtain ⟨⟨primary, hdialer⟩, -⟩ := hsession
      cases h
      rw [hdialer] at hmade hunder
      refine kept_goto ?_ hwithin ⟨primary, hmade, hunder⟩ hsound (.refl s)
      cases call <;> rfl
  | failOpen state held direct =>
      simp only [hbody] at h hsession
      obtain ⟨⟨proxy, hdialer⟩, -⟩ := hsession
      cases h
      rw [hdialer] at hmade hunder
      refine kept_goto ?_ hwithin ⟨proxy, hmade, hunder⟩ hsound (.refl s)
      cases call <;> rfl
  | landing server relay packet packets closed =>
      simp only [hbody] at h hsession
      obtain ⟨⟨maxPayload, control, hdialer⟩, hpacket⟩ := hsession
      cases h
      rw [hdialer] at hmade hunder
      exact kept_goto rfl hwithin ⟨hpacket, maxPayload, control, hmade, hunder⟩ hsound (.refl s)

theorem kept_enter {op : Op} (hsound : s.Sound) (hwithin : op.Within root)
    (hknows : (Frame.enter op).Knows s) (h : s.enter turn op = some o) :
    reachDiscipline.Kept dialerCalls s root (.enter op) o := by
  cases op with
  | dial dialer target =>
      cases dialer with
      | carrier c =>
          cases h
          refine kept_event hsound hwithin fun x hx => ?_
          cases hx
          exact ⟨rfl, rfl⟩
      | relay primary backup =>
          cases h
          exact kept_goto rfl hwithin trivial hsound (.refl s)
      | failOpen proxy direct =>
          cases h
          exact kept_goto rfl hwithin trivial hsound (.refl s)
      | landing server base =>
          cases h
          exact kept_goto rfl hwithin trivial hsound (.refl s)
  | probe proxy target =>
      cases h
      exact kept_goto rfl hwithin trivial hsound (.refl s)
  | openPacket dialer =>
      cases dialer with
      | carrier c =>
          simp only [Dialers.enter] at h
          split_ifs at h
          · cases h
            have hnew : Session.Sound s ⟨.carrier c, .carrier c⟩ := rfl
            refine kept_reply (fun k d hop hr => ?_) (hsound.append hnew) (.append s _)
            cases hop
            cases hr
            exact s.holds_append ⟨.carrier c, .carrier c⟩
          · exact kept_failed hsound h
      | block => exact kept_failed hsound h
      | relay primary backup =>
          cases h
          exact kept_goto rfl hwithin (fun _ hk => nomatch hk) hsound (.refl s)
      | failOpen proxy direct =>
          cases h
          exact kept_goto rfl hwithin trivial hsound (.refl s)
      | landing server maxPayload control packets =>
          cases h
          exact kept_goto rfl hwithin trivial hsound (.refl s)
  | session k dialer call target => exact kept_enter_session hsound hwithin hknows h
  | exchange exchanger =>
      cases exchanger with
      | network address =>
          cases h
          refine kept_event hsound hwithin fun x hx => ?_
          cases hx
          exact ⟨rfl, rfl⟩
      | overStream dialer endpoint =>
          simp only [Dialers.enter] at h
          split_ifs at h
          · cases h
            exact kept_goto rfl hwithin trivial hsound (.refl s)
          · exact kept_failed hsound h
      | fallback primary second =>
          cases h
          exact kept_goto rfl hwithin trivial hsound (.refl s)

/-- One step of a call on behalf of an operation reaches what the operation reaches. -/
theorem reachDiscipline_lawful : reachDiscipline.Lawful dialerCalls where
  op_enter _ := rfl
  later_refl := .refl
  later_trans := .trans
  good_later hlater hgood := ⟨hgood.1, hgood.2.later hlater⟩
  fits_later hlater hfits := fun k d hr hd => (hfits k d hr hd).later hlater
  answers_later hlater hanswers := fun k d hop hr => (hanswers k d hop hr).later hlater
  step := by
    intro s i root frame reply turn o hsound hgood hfits h
    obtain ⟨hwithin, hknows⟩ := hgood
    cases frame with
    | enter op => exact kept_enter hsound hwithin hknows h
    | relayDial primary backup target point => exact kept_relayDial hsound hwithin h
    | failOpenDial proxy direct target point => exact kept_failOpenDial hsound hwithin h
    | probe proxy target point => exact kept_probe hsound hwithin h
    | landingDial server base target => exact kept_landingDial hsound hwithin h
    | relayOpen primary backup point opened => exact kept_relayOpen hsound hwithin hknows hfits h
    | failOpenOpen proxy direct point => exact kept_failOpenOpen hsound hwithin hknows hfits h
    | landingOpen server maxPayload control packets point =>
        exact kept_landingOpen hsound hwithin hknows hfits h
    | fallbackCall k dialer target number backup thread =>
        exact kept_fallbackCall hsound hwithin hknows hfits h
    | failOpenCall k dialer target direct thread =>
        exact kept_failOpenCall hsound hwithin hknows hfits h
    | landingCall k dialer call target server relay packet packets =>
        exact kept_landingCall hsound hwithin hknows h
    | overStream dialer endpoint => exact kept_overStream hsound hwithin h
    | dnsFallback primary second failed => exact kept_dnsFallback hsound hwithin h

end Steps

/-! ## Runs -/

/-- The calls that are made and the record of what they did. -/
abbrev DialerSystem :=
  Threads (Recorded Dialers Op (Carrier × Destination)) (CallStack Frame Op Reply)

/-- A session is only used by who has opened it, under the dialer that was asked. -/
def Owned (s : DialerSystem) : Move Op Turn → Prop
  | .call (.session k dialer _ _) =>
      ∃ t ∈ s.threads, t.op = .openPacket dialer ∧ t.frames = [] ∧ t.reply = some (.session k)
  | _ => True

theorem Owned.asks {s : DialerSystem} {move : Move Op Turn} (hs : reachDiscipline.Holds s)
    (h : Owned s move) : reachDiscipline.Asks dialerCalls s move := by
  cases move with
  | run i turn => trivial
  | call op =>
      refine ⟨.refl op, ?_⟩
      cases op with
      | session k dialer call target =>
          obtain ⟨t, ht, hop, hframes, hreply⟩ := h
          have hproper := hs.threads t ht
          unfold Discipline.Proper at hproper
          rw [hframes] at hproper
          exact hproper _ hreply k dialer hop rfl
      | _ => trivial

/-- In every run of the dialers, no call reaches anything that the operation that its client
had asked for does not reach. -/
theorem reaches_run (state : Dialers) (hstate : state.sessions = []) {moves : List (Move Op Turn)}
    (hmoves : Allowed dialerCalls.move Owned (Calls.initial state) moves) :
    reachDiscipline.Holds (moves.foldl dialerCalls.move (Calls.initial state)) := by
  have hstep (s : DialerSystem) (move : Move Op Turn) (hok : Owned s move)
      (hs : reachDiscipline.Holds s) : reachDiscipline.Holds (dialerCalls.move s move) :=
    hs.move reachDiscipline_lawful (hok.asks hs)
  refine hmoves.invariant hstep ⟨?_, fun _ hentry => absurd hentry List.not_mem_nil,
    fun _ ht => absurd ht List.not_mem_nil⟩
  intro k session hk
  change state.sessions[k]? = some session at hk
  rw [hstate] at hk
  cases hk

end Hy2Route.Transport
