import Hy2Route.Landing.Connect

/-!
# Opening a UDP association

The packet dialer keeps a SOCKS5 control connection for each session: it authenticates,
asks for an association and reads the relay's address from the reply. Only then it opens
a packet session. A relay with an unspecified address is reached at the landing server.

The relay's host and port are joined to a text and split again before they are looked
at, and an error of the split is ignored. A name with brackets in it is therefore not
always seen as it was sent.
-/

namespace Hy2Route.Landing

open Foundation

inductive OpenError where
  | control (err : DialError)
  | associateWrite
  | associateRead
  | invalidReply
  | rejected (status : UInt8)
  | relayAddress (err : AddressError)
  | zeroPort
  | openPacket
  | deadline
  deriving DecidableEq

/-- The sixteen bytes of `0.0.0.0` or `::`. -/
def isUnspecified (ip : Bytes) : Bool :=
  ip == v4InV6Prefix ++ List.replicate 4 0 || ip == List.replicate 16 0

section Relay

variable (text : AddressText)

/-- The host is the text of an unspecified address. -/
def unspecified (host : Bytes) : Bool :=
  match text.parseIP host with
  | some ip => isUnspecified ip
  | none => false

/-- What reads as an IP address is not empty and has no brackets. -/
def Unbracketed : Prop :=
  ∀ s ip, text.parseIP s = some ip → s ≠ [] ∧ (0x5B : UInt8) ∉ s ∧ (0x5D : UInt8) ∉ s

/-- The host of the landing server, empty when its address does not split. -/
def serverHost (server : Bytes) : Bytes := ((splitHostPort server).getD ([], [])).1

/-- The relay of the session, none for the port zero. -/
def relayTarget (server relay : Bytes) : Option Bytes :=
  let (host, port) := (splitHostPort relay).getD ([], [])
  if port = ascii "0" then none
  else if unspecified text host then some (joinHostPort (serverHost server) port)
  else some relay

open Exchange

/-- The host of an address of the given type, read from the connection. -/
def relayHost (typ : UInt8) : Exchange OpenError Bytes :=
  if typ = 1 then do
    let b ← readFull 4 (.relayAddress .read)
    pure (text.ipString b)
  else if typ = 4 then do
    let b ← readFull 16 (.relayAddress .read)
    pure (text.ipString b)
  else if typ = 3 then do
    let n ← readFull 1 (.relayAddress .read)
    failIf (n.getD 0 0 = 0) (.relayAddress .emptyDomain)
    readFull (n.getD 0 0).toNat (.relayAddress .read)
  else fail (.relayAddress .unknownType)

/-- The host and the port of the relay. -/
def relayParts (creds : Credentials) : Exchange OpenError (Bytes × Nat) := do
  withError .control (authenticatedConn creds)
  write [5, 3, 0, 1, 0, 0, 0, 0, 0, 0] .associateWrite
  let header ← readFull 4 .associateRead
  failIf (header.getD 0 0 ≠ 5 ∨ header.getD 2 0 ≠ 0) .invalidReply
  failIf (header.getD 1 0 ≠ 0) (.rejected (header.getD 1 0))
  let host ← relayHost text (header.getD 3 0)
  let port ← readFull 2 (.relayAddress .read)
  pure (host, ofBigEndian port)

/-- The relay of the session, when it has a port. -/
def adoptRelay (server : Bytes) (parts : Bytes × Nat) : Exchange OpenError Bytes :=
  match relayTarget text server (joinHostPort parts.1 (Json.numeral parts.2)) with
  | none => fail .zeroPort
  | some relay => pure relay

def associate (creds : Credentials) (server : Bytes) : Exchange OpenError Bytes := do
  let parts ← relayParts text creds
  adoptRelay text server parts

/-- What became of a call: the relay of the session that is returned, the control
connection, and the packet session that was opened by whether it was closed. -/
structure OpenOutcome where
  session : Except OpenError Bytes
  control : Option Conn
  packet : Option Bool

/-- Open a session; `packets` and `clears` tell whether the packet dialer opens a session
and whether the deadline of the control connection can be cleared. -/
def openPacket (creds : Credentials) (server : Bytes) (packets clears : Bool)
    (base : Option Conn) : OpenOutcome :=
  match base with
  | none => ⟨.error (.control .upstreamDial), none, none⟩
  | some conn =>
      match associate text creds server conn with
      | (.error err, after) => ⟨.error err, some after, none⟩
      | (.ok relay, after) =>
          if !packets then ⟨.error .openPacket, some { after with closed := true }, none⟩
          else if !clears then ⟨.error .deadline, some { after with closed := true }, some true⟩
          else ⟨.ok relay, some { after with armed := false }, some false⟩

/-! ## What the server has to send -/

/-- A reply that grants the association, with the host and the port of the relay. -/
inductive AssociateReply : Bytes → Nat → Bytes → Prop where
  | ipv4 (address port : Bytes) (whole : address.length = 4) (whole_port : port.length = 2) :
      AssociateReply (text.ipString address) (ofBigEndian port) ([5, 0, 0, 1] ++ address ++ port)
  | domain (name port : Bytes) (nonempty : name ≠ []) (fits : name.length ≤ 255)
      (whole_port : port.length = 2) :
      AssociateReply name (ofBigEndian port)
        ([5, 0, 0, 3, UInt8.ofNat name.length] ++ name ++ port)
  | ipv6 (address port : Bytes) (whole : address.length = 16) (whole_port : port.length = 2) :
      AssociateReply (text.ipString address) (ofBigEndian port) ([5, 0, 0, 4] ++ address ++ port)

/-- The server answers the greeting and the credentials and grants the association. -/
def Associated (creds : Credentials) (s host : Bytes) (port : Nat) (rest : Bytes) : Prop :=
  (creds.Given → creds.user.length ≤ 255 ∧ creds.password.length ≤ 255) ∧
    ∃ reply, AssociateReply text host port reply ∧ s = authReply creds ++ reply ++ rest

/-- Where the datagrams for a relay go: to the relay, or to the landing server when the
relay's address is unspecified. -/
def landingRelay (server host : Bytes) (port : Nat) : Bytes :=
  joinHostPort (if unspecified text host then serverHost server else host) (Json.numeral port)

/-- The text of the relay is read as it was sent, as far as it matters: the port zero is
seen, and no unspecified address is read from a host that is none. -/
def PlainRelay (host : Bytes) (port : Nat) : Prop :=
  let relay := joinHostPort host (Json.numeral port)
  if port = 0 then (splitHostPort relay).isSome = true
  else ∀ inner, splitHostPort relay = some (inner, Json.numeral port) →
    unspecified text inner = true → inner = host

end Relay

section Reading

open Exchange

variable (text : AddressText)

theorem relayHost_closes (typ : UInt8) : Closes (relayHost text typ) := by
  unfold relayHost
  split_ifs
  · exact .bind (.readFull _ _) fun _ => .pure _
  · exact .bind (.readFull _ _) fun _ => .pure _
  · exact .bind (.readFull _ _) fun _ => .bind (.failIf _ _) fun _ => .readFull _ _
  · exact .fail _

theorem relayParts_closes (creds : Credentials) : Closes (relayParts text creds) := by
  unfold relayParts
  exact .bind ((authenticatedConn_closes creds).withError _) fun _ => .bind (.write _ _) fun _ =>
    .bind (.readFull _ _) fun _ => .bind (.failIf _ _) fun _ => .bind (.failIf _ _) fun _ =>
      .bind (relayHost_closes text _) fun _ => .bind (.readFull _ _) fun _ => .pure _

theorem associate_closes (creds : Credentials) (server : Bytes) :
    Closes (associate text creds server) := by
  refine .bind (relayParts_closes text creds) fun parts => ?_
  unfold adoptRelay
  cases relayTarget text server (joinHostPort parts.1 (Json.numeral parts.2)) with
  | none => exact .fail _
  | some relay => exact .pure relay

theorem readIP_accepts (n : Nat) (err : OpenError) :
    Accepts (readFull n err >>= fun b => pure (text.ipString b)) fun host s rest =>
      ∃ address, address.length = n ∧ host = text.ipString address ∧ s = address ++ rest := by
  refine (Accepts.bind (.readFull _ _) fun _ => .pure _).congr fun host s rest => ?_
  constructor
  · rintro ⟨address, _, ⟨hlen, rfl⟩, rfl, rfl⟩
    exact ⟨address, hlen, rfl, rfl⟩
  · rintro ⟨address, hlen, rfl, rfl⟩
    exact ⟨address, rest, ⟨hlen, rfl⟩, rfl, rfl⟩

/-- A name is read after the byte of its length, which is not zero. -/
theorem readDomain_accepts (err empty : OpenError) :
    Accepts (readFull 1 err >>= fun n => failIf (n.getD 0 0 = 0) empty >>= fun _ =>
        readFull (n.getD 0 0).toNat err) fun host s rest =>
      host ≠ [] ∧ host.length ≤ 255 ∧ s = UInt8.ofNat host.length :: (host ++ rest) := by
  refine (Accepts.bind (.readFull _ _) fun _ => .bind (.failIf _ _) fun _ =>
    .readFull _ _).congr fun host s rest => ?_
  constructor
  · rintro ⟨data, _, ⟨hlen, rfl⟩, -, _, ⟨hzero, rfl⟩, hhost, rfl⟩
    obtain ⟨b, rfl⟩ := List.length_eq_one_iff.mp hlen
    rw [List.getD_cons_zero] at hzero hhost
    have hb : b.toNat < 256 := b.toNat_lt
    refine ⟨?_, by omega, ?_⟩
    · rintro rfl
      exact hzero (UInt8.toNat_inj.mp hhost.symm)
    · rw [hhost, UInt8.ofNat_toNat]
      rfl
  · rintro ⟨hne, hfits, rfl⟩
    have hlength := toNat_lengthByte hfits
    refine ⟨[UInt8.ofNat host.length], host ++ rest, ⟨rfl, rfl⟩, (), _, ⟨?_, rfl⟩, ?_, rfl⟩
    · intro hzero
      rw [List.getD_cons_zero] at hzero
      rw [hzero] at hlength
      exact hne (List.length_eq_zero_iff.mp hlength.symm)
    · rw [List.getD_cons_zero, hlength]

theorem relayHost_accepts (typ : UInt8) :
    Accepts (relayHost text typ) fun host s rest =>
      typ = 1 ∧ (∃ address, address.length = 4 ∧ host = text.ipString address ∧
        s = address ++ rest) ∨
      typ = 3 ∧ host ≠ [] ∧ host.length ≤ 255 ∧
        s = UInt8.ofNat host.length :: (host ++ rest) ∨
      typ = 4 ∧ ∃ address, address.length = 16 ∧ host = text.ipString address ∧
        s = address ++ rest := by
  unfold relayHost
  split_ifs with hone hfour hthree
  · exact (readIP_accepts text 4 _).congr fun host s rest => by simp [hone]
  · exact (readIP_accepts text 16 _).congr fun host s rest => by simp [hfour]
  · exact (readDomain_accepts _ _).congr fun host s rest => by simp [hthree]
  · exact (Accepts.fail _).congr fun host s rest => by simp [hone, hthree, hfour]

/-- The host and the port are read exactly from a stream that grants the association. -/
theorem relayParts_accepts (creds : Credentials) :
    Accepts (relayParts text creds) fun parts s rest =>
      Associated text creds s parts.1 parts.2 rest := by
  unfold relayParts
  refine (Accepts.bind ((authenticatedConn_accepts creds).withError _) fun _ =>
    .bind (.write _ _) fun _ => .bind (.readFull _ _) fun _ => .bind (.failIf _ _) fun _ =>
      .bind (.failIf _ _) fun _ => .bind (relayHost_accepts text _) fun _ =>
        .bind (.readFull _ _) fun _ => .pure _).congr ?_
  rintro ⟨host, number⟩ s rest
  have hfits : (creds.Given → ¬ creds.TooLong) ↔
      (creds.Given → creds.user.length ≤ 255 ∧ creds.password.length ≤ 255) := by
    refine imp_congr_right fun _ => ?_
    unfold Credentials.TooLong
    omega
  constructor
  · rintro ⟨-, _, ⟨hshort, rfl⟩, -, _, rfl, header, _, ⟨hlen, rfl⟩, -, _, ⟨hversion, rfl⟩, -, _,
      ⟨hstatus, rfl⟩, host', _, hhost, port, _, ⟨hport, rfl⟩, heq, rfl⟩
    obtain ⟨rfl, rfl⟩ := Prod.mk.injEq _ _ _ _ ▸ heq
    obtain ⟨version, status, reserved, typ, rfl⟩ := List.length_eq_four.mp hlen
    simp only [List.getD_cons_zero, List.getD_cons_succ, ne_eq, not_not, not_or]
      at hversion hstatus hhost
    obtain ⟨rfl, rfl⟩ := hversion
    subst hstatus
    refine ⟨hfits.mp hshort, ?_⟩
    rcases hhost with ⟨rfl, address, hwhole, rfl, rfl⟩ | ⟨rfl, hne, hle, rfl⟩ |
      ⟨rfl, address, hwhole, rfl, rfl⟩
    · exact ⟨_, .ipv4 address port hwhole hport, by simp⟩
    · exact ⟨_, .domain host port hne hle hport, by simp⟩
    · exact ⟨_, .ipv6 address port hwhole hport, by simp⟩
  · rintro ⟨hshort, reply, hreply, rfl⟩
    refine ⟨(), reply ++ rest, ⟨hfits.mpr hshort, by simp⟩, (), _, rfl, ?_⟩
    cases hreply with
    | ipv4 address port whole whole_port =>
        exact ⟨[5, 0, 0, 1], address ++ (port ++ rest), ⟨rfl, by simp⟩, (), _, ⟨by decide, rfl⟩,
          (), _, ⟨by decide, rfl⟩, _, _, Or.inl ⟨rfl, address, whole, rfl, rfl⟩, port, rest,
          ⟨whole_port, rfl⟩, rfl, rfl⟩
    | domain name port nonempty fits whole_port =>
        exact ⟨[5, 0, 0, 3], UInt8.ofNat host.length :: (host ++ (port ++ rest)),
          ⟨rfl, by simp⟩, (), _, ⟨by decide, rfl⟩, (), _, ⟨by decide, rfl⟩, host, _,
          Or.inr (Or.inl ⟨rfl, nonempty, fits, rfl⟩), port, rest, ⟨whole_port, rfl⟩, rfl, rfl⟩
    | ipv6 address port whole whole_port =>
        exact ⟨[5, 0, 0, 4], address ++ (port ++ rest), ⟨rfl, by simp⟩, (), _, ⟨by decide, rfl⟩,
          (), _, ⟨by decide, rfl⟩, _, _, Or.inr (Or.inr ⟨rfl, address, whole, rfl, rfl⟩), port,
          rest, ⟨whole_port, rfl⟩, rfl, rfl⟩

/-- A stream grants one association only. -/
theorem Associated.unique {creds : Credentials} {s host host' rest rest' : Bytes}
    {port port' : Nat} (h : Associated text creds s host port rest)
    (h' : Associated text creds s host' port' rest') : host = host' ∧ port = port' := by
  obtain ⟨heq, -⟩ :=
    (relayParts_accepts text creds).unique (a := (host, port)) (b := (host', port')) h h'
  exact Prod.mk.injEq _ _ _ _ ▸ heq

end Reading

/-! ## The relay -/

theorem colon_not_mem_numeral (n : Nat) : (0x3A : UInt8) ∉ Json.numeral n := by
  intro hmem
  exact absurd (Json.isDigit_of_mem_numeral _ hmem) (by decide)

theorem numeral_eq_zero_iff (n : Nat) : Json.numeral n = ascii "0" ↔ n = 0 := by
  constructor
  · intro h
    rw [← Json.foldl_numeral n, h]
    rfl
  · rintro rfl
    rfl

section Target

variable {text : AddressText} (htext : Unbracketed text) (server : Bytes) {host : Bytes}

theorem unspecified_eq_false (h : text.parseIP host = none) : unspecified text host = false := by
  rw [unspecified, h]

/-- The host of the server has no brackets. -/
theorem serverHost_open : (0x5B : UInt8) ∉ serverHost server := by
  unfold serverHost
  cases hsplit : splitHostPort server with
  | none => simp
  | some parts => exact (splitHostPort_eq_some_iff.mp hsplit).1.open_host

include htext

theorem parseIP_of_not_hostPort (host : Bytes) (port : Nat)
    (h : ¬ HostPort host (Json.numeral port)) : text.parseIP host = none := by
  cases hip : text.parseIP host with
  | none => rfl
  | some ip =>
      obtain ⟨-, hopen, hclose⟩ := htext host ip hip
      have hdigit (b : UInt8) (hb : isDigit b = false) : b ∉ Json.numeral port := by
        intro hmem
        rw [Json.isDigit_of_mem_numeral b hmem] at hb
        cases hb
      exact absurd ⟨hopen, hclose, hdigit _ (by decide), hdigit _ (by decide),
        hdigit _ (by decide)⟩ h

/-- The relay is the one that was sent, or refused for its port, exactly when its text is
read as it was sent. -/
theorem relayTarget_eq_iff (port : Nat) :
    relayTarget text server (joinHostPort host (Json.numeral port)) =
        (if port = 0 then none else some (landingRelay text server host port)) ↔
      PlainRelay text host port := by
  have hnone : unspecified text [] = false := by
    refine unspecified_eq_false ?_
    cases hip : text.parseIP [] with
    | none => rfl
    | some ip => exact absurd rfl (htext [] ip hip).1
  have hempty : ([] : Bytes) ≠ ascii "0" := by decide
  simp only [relayTarget, PlainRelay]
  cases hsplit : splitHostPort (joinHostPort host (Json.numeral port)) with
  | none =>
      have hhost := parseIP_of_not_hostPort htext host port fun hparts => by
        rw [hparts.split_join] at hsplit
        cases hsplit
      by_cases hzero : port = 0
      · simp [hzero, hempty, hnone]
      · simp [hzero, hempty, hnone, landingRelay, unspecified_eq_false hhost]
  | some parts =>
      obtain ⟨inner, port'⟩ := parts
      obtain rfl := port_of_splitHostPort_join (colon_not_mem_numeral port) hsplit
      simp only [Option.getD_some, numeral_eq_zero_iff]
      by_cases hzero : port = 0
      · simp [hzero]
      · simp only [if_neg hzero, Option.some.injEq, Prod.mk.injEq, and_true, forall_eq']
        by_cases hsame : inner = host
        · subst hsame
          cases hunspecified : unspecified text inner <;> simp [landingRelay, hunspecified]
        · have hhost := parseIP_of_not_hostPort htext host port fun hparts => by
            rw [hparts.split_join] at hsplit
            exact hsame (Prod.mk.injEq _ _ _ _ ▸ Option.some.inj hsplit).1.symm
          obtain ⟨hbracketed, hcolon⟩ := eq_bracketed_of_splitHostPort_join hsplit hsame
          have hother : joinHostPort (serverHost server) (Json.numeral port) ≠
              joinHostPort host (Json.numeral port) := by
            rw [hbracketed, joinHostPort]
            split_ifs with hserver
            · intro heq
              exact hcolon (bracketed_inj heq ▸ hserver)
            · intro heq
              refine serverHost_open server ?_
              rw [eq_of_eq_bracketed heq]
              exact List.mem_cons_self
          cases hunspecified : unspecified text inner <;>
            simp [landingRelay, unspecified_eq_false hhost, hsame, hother]

end Target

/-! ## The whole call -/

section Call

open Exchange

variable (text : AddressText) (creds : Credentials) (server : Bytes)

/-- UDP does not skip the landing: over the connection a packet session is opened exactly
when the server grants an association with a port, and its relay is the one of the reply. -/
structure KeepsLanding (conn : Conn) : Prop where
  opens : ∀ packets clears,
    (openPacket text creds server packets clears (some conn)).packet ≠ none ↔
      packets = true ∧
        ∃ host port rest, Associated text creds conn.stream host port rest ∧ port ≠ 0
  relay : ∀ packets clears relay,
    (openPacket text creds server packets clears (some conn)).session = .ok relay →
    ∀ host port rest, Associated text creds conn.stream host port rest →
      relay = landingRelay text server host port

/-- A call whose control connection has come to the relay's address. -/
theorem openPacket_eq {conn after : Conn} {parts : Bytes × Nat}
    (h : relayParts text creds conn = (.ok parts, after)) (packets clears : Bool) :
    openPacket text creds server packets clears (some conn) =
      match relayTarget text server (joinHostPort parts.1 (Json.numeral parts.2)) with
      | none => ⟨.error .zeroPort, some { after with closed := true }, none⟩
      | some relay =>
          if !packets then ⟨.error .openPacket, some { after with closed := true }, none⟩
          else if !clears then ⟨.error .deadline, some { after with closed := true }, some true⟩
          else ⟨.ok relay, some { after with armed := false }, some false⟩ := by
  have hassociate : associate text creds server conn = adoptRelay text server parts after :=
    bind_of_ok _ h
  rw [openPacket, hassociate, adoptRelay]
  cases relayTarget text server (joinHostPort parts.1 (Json.numeral parts.2)) with
  | none => rfl
  | some relay => rfl

theorem openPacket_closes {packets clears : Bool} {base : Option Conn} {err : OpenError}
    (h : (openPacket text creds server packets clears base).session = .error err) :
    (∀ after, (openPacket text creds server packets clears base).control = some after →
      after.closed = true) ∧
    (openPacket text creds server packets clears base).packet ≠ some false := by
  unfold openPacket at h ⊢
  cases base with
  | none => exact ⟨nofun, nofun⟩
  | some conn =>
      simp only at h ⊢
      cases hrun : associate text creds server conn with
      | mk result next =>
          cases result with
          | error err' =>
              refine ⟨fun after heq => ?_, nofun⟩
              obtain rfl := Option.some.inj heq
              exact associate_closes text creds server conn err' _ hrun
          | ok relay =>
              rw [hrun] at h
              cases packets with
              | false =>
                  refine ⟨fun after heq => ?_, nofun⟩
                  obtain rfl := Option.some.inj heq
                  rfl
              | true =>
                  cases clears with
                  | false =>
                      refine ⟨fun after heq => ?_, nofun⟩
                      obtain rfl := Option.some.inj heq
                      rfl
                  | true => cases h

/-- Over a connection on which the relay's address was read, the landing is kept exactly
when the relay is the one that was sent. -/
theorem keepsLanding_iff_relayTarget {conn after : Conn} (hworks : conn.Works)
    {parts : Bytes × Nat} (hrun : relayParts text creds conn = (.ok parts, after)) :
    KeepsLanding text creds server conn ↔
      relayTarget text server (joinHostPort parts.1 (Json.numeral parts.2)) =
        if parts.2 = 0 then none else some (landingRelay text server parts.1 parts.2) := by
  obtain ⟨host, port⟩ := parts
  obtain ⟨hassociated, -⟩ := (relayParts_accepts text creds).derives hworks hrun
  have hopen := openPacket_eq text creds server hrun
  constructor
  · rintro ⟨hopens, hrelay⟩
    have hiff := hopens true true
    rw [hopen true true] at hiff
    cases htarget : relayTarget text server (joinHostPort host (Json.numeral port)) with
    | none =>
        simp only [htarget, ne_eq, not_true_eq_false, true_and, false_iff] at hiff
        by_cases hzero : port = 0
        · rw [if_pos hzero]
        · exact absurd ⟨host, port, after.stream, hassociated, hzero⟩ hiff
    | some relay =>
        have hsession := hrelay true true relay (by simp [hopen true true, htarget])
        simp only [htarget, Bool.not_true, Bool.false_eq_true, if_false] at hiff
        obtain ⟨host', port', rest', hother, hport⟩ := (hiff.mp (by simp)).2
        obtain ⟨rfl, rfl⟩ := hother.unique text hassociated
        rw [if_neg hport, hsession _ _ _ hassociated]
  · intro htarget
    refine ⟨fun packets clears => ?_, fun packets clears relay hsession host' port' rest' h => ?_⟩
    · rw [hopen packets clears, htarget]
      by_cases hzero : port = 0
      · simp only [hzero, if_true, ne_eq, not_true_eq_false, false_iff, not_and]
        rintro - ⟨host', port', rest', hother, hport⟩
        exact hport ((hother.unique text hassociated).2.trans hzero)
      · have hgranted : ∃ host port rest, Associated text creds conn.stream host port rest ∧
            port ≠ 0 := ⟨host, port, after.stream, hassociated, hzero⟩
        simp only [if_neg hzero, hgranted, and_true]
        cases packets <;> cases clears <;> simp
    · obtain ⟨rfl, rfl⟩ := h.unique text hassociated
      rw [hopen packets clears, htarget] at hsession
      by_cases hzero : port' = 0
      · simp [hzero] at hsession
      · simp only [if_neg hzero] at hsession
        cases packets with
        | false => simp at hsession
        | true =>
            cases clears with
            | false => simp at hsession
            | true => exact (Except.ok.inj hsession).symm

/-- Whatever happens, a call that fails leaves the control connection closed and no packet
session open. Over a connection that works the landing is kept exactly when the text of
the relay, if there is one, is read as it was sent. -/
theorem openPacket_keeps_landing_iff (htext : Unbracketed text) :
    (∀ packets clears base err,
      (openPacket text creds server packets clears base).session = .error err →
      (∀ after, (openPacket text creds server packets clears base).control = some after →
        after.closed = true) ∧
      (openPacket text creds server packets clears base).packet ≠ some false) ∧
    ∀ conn : Conn, conn.Works → (KeepsLanding text creds server conn ↔
      ∀ host port rest, Associated text creds conn.stream host port rest →
        PlainRelay text host port) := by
  refine ⟨fun packets clears base err h => openPacket_closes text creds server h,
    fun conn hworks => ?_⟩
  have haccepts := relayParts_accepts text creds
  cases hrun : relayParts text creds conn with
  | mk result after =>
      cases result with
      | ok parts =>
          obtain ⟨hassociated, -⟩ := haccepts.derives hworks hrun
          rw [keepsLanding_iff_relayTarget text creds server hworks hrun,
            relayTarget_eq_iff htext server parts.2]
          refine ⟨fun hplain host port rest h => ?_, fun h => h _ _ _ hassociated⟩
          obtain ⟨rfl, rfl⟩ := h.unique text hassociated
          exact hplain
      | error err =>
          -- Nothing was granted, and the call has ended without a packet session.
          have hnone : ∀ host port rest, ¬ Associated text creds conn.stream host port rest := by
            intro host port rest h
            obtain ⟨parts, after', hok⟩ :=
              (haccepts.ok_iff hworks).mpr ⟨(host, port), rest, h⟩
            rw [hrun] at hok
            cases hok
          have hassociate : associate text creds server conn = (.error err, after) :=
            bind_of_error _ hrun
          refine iff_of_true ⟨fun packets clears => ?_, fun packets clears relay hsession => ?_⟩
            fun host port rest h => absurd h (hnone host port rest)
          · rw [openPacket, hassociate]
            simp [hnone]
          · rw [openPacket, hassociate] at hsession
            cases hsession

theorem dotted_unbracketed : Unbracketed .dotted := by
  intro s ip h
  obtain ⟨a, hread, -⟩ := Option.map_eq_some_iff.mp h
  have hempty : s ≠ [] := by
    rintro rfl
    cases hread
  rw [parseIPv4_iff.mp hread] at hempty ⊢
  exact ⟨hempty, Addr.not_mem_text4 rfl (by decide) a, Addr.not_mem_text4 rfl (by decide) a⟩

theorem openPacket_keeps_landing_behind_unspecified :
    KeepsLanding .dotted ⟨[], []⟩ (ascii "landing.example:1080")
      ⟨[[5, 0, 5, 0], [0, 1, 0, 0, 0, 0, 0, 53]], true, fun _ => true, [], false, false⟩ := by
  have hgranted : Associated .dotted ⟨[], []⟩ [5, 0, 5, 0, 0, 1, 0, 0, 0, 0, 0, 53]
      (ascii "0.0.0.0") 53 [] :=
    ⟨fun hgiven => absurd hgiven (by decide), _, .ipv4 [0, 0, 0, 0] [0, 53] rfl rfl, rfl⟩
  refine ((openPacket_keeps_landing_iff .dotted ⟨[], []⟩ (ascii "landing.example:1080")
    dotted_unbracketed).2 _ ⟨rfl, fun _ => rfl, rfl⟩).mpr fun host port rest h => ?_
  obtain ⟨rfl, rfl⟩ := h.unique .dotted hgranted
  intro inner hsplit _
  have hread : splitHostPort (ascii "0.0.0.0:53") = some (ascii "0.0.0.0", ascii "53") := by
    decide
  exact (Prod.mk.injEq _ _ _ _ ▸ Option.some.inj (hsplit.symm.trans hread)).1

/-- The name `a]` with the port zero: the text of the relay does not split, so its port is
not seen. -/
theorem openPacket_misses_zero_port :
    let conn : Conn := ⟨[[5, 0, 5, 0, 0, 3, 2, 0x61, 0x5D, 0, 0]], true, fun _ => true, [], false,
      false⟩
    Associated .dotted ⟨[], []⟩ conn.stream (ascii "a]") 0 [] ∧
    (openPacket .dotted ⟨[], []⟩ (ascii "landing.example:1080") true true (some conn)).session =
      .ok (ascii "a]:0") ∧
    ¬ KeepsLanding .dotted ⟨[], []⟩ (ascii "landing.example:1080") conn := by
  intro conn
  have hgranted : Associated .dotted ⟨[], []⟩ conn.stream (ascii "a]") 0 [] :=
    ⟨fun hgiven => absurd hgiven (by decide), _, .domain (ascii "a]") [0, 0] (by decide) (by decide)
      rfl, rfl⟩
  refine ⟨hgranted, by decide +kernel, fun hkeeps => ?_⟩
  obtain ⟨-, host, port, rest, hother, hport⟩ := (hkeeps.opens true true).mp nofun
  exact hport (hother.unique .dotted hgranted).2

end Call

end Hy2Route.Landing
