import Hy2Route.Foundation.Exchange
import Hy2Route.Landing.Address

/-!
# The SOCKS5 CONNECT handshake

The dialer offers one method, authenticates when it has credentials, asks for the target
and reads the reply to its last byte. The connection that it returns then continues
right behind the reply, however the server's bytes arrive; on every other way out the
connection is closed.
-/

namespace Hy2Route.Landing

open Foundation

inductive DialError where
  | upstreamDial
  | deadline
  | greetingWrite
  | greetingRead
  | greetingVersion (version : UInt8)
  | methodRejected
  | unofferedMethod (method : UInt8)
  | credentialsTooLong
  | authWrite
  | authRead
  | authVersion (version : UInt8)
  | authRejected (status : UInt8)
  | hostPort
  | invalidPort
  | invalidDomain
  | connectWrite
  | connectRead
  | replyHeader
  | connectRejected (status : UInt8)
  | lengthRead
  | invalidReply
  | addressRead
  deriving DecidableEq

structure Credentials where
  user : Bytes
  password : Bytes

/-- Credentials are set. -/
def Credentials.Given (creds : Credentials) : Prop := creds.user ≠ [] ∨ creds.password ≠ []

instance (creds : Credentials) : Decidable creds.Given := inferInstanceAs (Decidable (_ ∨ _))

/-- The method that is offered. -/
def Credentials.method (creds : Credentials) : UInt8 := if creds.Given then 2 else 0

/-- The user name and password do not fit their length bytes. -/
def Credentials.TooLong (creds : Credentials) : Prop :=
  255 < creds.user.length ∨ 255 < creds.password.length

instance (creds : Credentials) : Decidable creds.TooLong := inferInstanceAs (Decidable (_ ∨ _))

open Exchange

def authenticate (creds : Credentials) : Exchange DialError Unit := do
  failIf creds.TooLong .credentialsTooLong
  write ([1, UInt8.ofNat creds.user.length] ++ creds.user ++
    [UInt8.ofNat creds.password.length] ++ creds.password) .authWrite
  let response ← readFull 2 .authRead
  failIf (response.getD 0 0 ≠ 1) (.authVersion (response.getD 0 0))
  failIf (response.getD 1 0 ≠ 0) (.authRejected (response.getD 1 0))

def authenticatedConn (creds : Credentials) : Exchange DialError Unit := do
  setDeadline .deadline
  write [5, 1, creds.method] .greetingWrite
  let response ← readFull 2 .greetingRead
  failIf (response.getD 0 0 ≠ 5) (.greetingVersion (response.getD 0 0))
  failIf (response.getD 1 0 = 0xFF) .methodRejected
  failIf (response.getD 1 0 ≠ creds.method) (.unofferedMethod (response.getD 1 0))
  if response.getD 1 0 = 2 then authenticate creds else pure ()

/-- The address of the request: an IPv4 address, or the host as a name. -/
def requestAddress (text : AddressText) (host : Bytes) : Option Bytes :=
  match (text.parseIP host).bind to4 with
  | some ip => some (1 :: ip)
  | none =>
      if host.length = 0 ∨ 255 < host.length then none
      else some (3 :: UInt8.ofNat host.length :: host)

def connectRequest (text : AddressText) (target : Bytes) : Except DialError Bytes :=
  match splitHostPort target with
  | none => .error .hostPort
  | some (host, portText) =>
      match targetPort portText with
      | none => .error .invalidPort
      | some port =>
          match requestAddress text host with
          | none => .error .invalidDomain
          | some address => .ok ([5, 1, 0] ++ address ++ bigEndian 2 port)

/-- How many bytes of the address follow, for its type. -/
def remaining (typ : UInt8) : Exchange DialError Nat :=
  if typ = 1 then pure 4
  else if typ = 3 then do
    let n ← readFull 1 .lengthRead
    pure (n.getD 0 0).toNat
  else if typ = 4 then pure 16
  else fail .invalidReply

def connectReply : Exchange DialError Unit := do
  let response ← readFull 4 .connectRead
  failIf (response.getD 0 0 ≠ 5 ∨ response.getD 2 0 ≠ 0) .replyHeader
  failIf (response.getD 1 0 ≠ 0) (.connectRejected (response.getD 1 0))
  let n ← remaining (response.getD 3 0)
  let _ ← readFull (n + 2) .addressRead
  pure ()

def connect (text : AddressText) (target : Bytes) : Exchange DialError Unit :=
  match connectRequest text target with
  | .error err => fail err
  | .ok request => do
      write request .connectWrite
      connectReply

def handshake (text : AddressText) (creds : Credentials) (target : Bytes) :
    Exchange DialError Unit := do
  authenticatedConn creds
  clearingDeadline (connect text target)

/-- Dial the server through the base dialer, then the target through the server: the
connection that is returned, and the connection of the base dialer afterwards. -/
def dial (text : AddressText) (creds : Credentials) (target : Bytes) (base : Option Conn) :
    Except DialError Conn × Option Conn :=
  match base with
  | none => (.error .upstreamDial, none)
  | some conn =>
      match handshake text creds target conn with
      | (.ok (), after) => (.ok after, some after)
      | (.error err, after) => (.error err, some after)

/-! ## Every failure closes the connection -/

theorem authenticate_closes (creds : Credentials) : Closes (authenticate creds) := by
  unfold authenticate
  exact .bind (.failIf _ _) fun _ => .bind (.write _ _) fun _ => .bind (.readFull _ _) fun _ =>
    .bind (.failIf _ _) fun _ => .failIf _ _

theorem authenticatedConn_closes (creds : Credentials) : Closes (authenticatedConn creds) := by
  unfold authenticatedConn
  refine .bind (.setDeadline _) fun _ => .bind (.write _ _) fun _ => .bind (.readFull _ _)
    fun response => .bind (.failIf _ _) fun _ => .bind (.failIf _ _) fun _ =>
      .bind (.failIf _ _) fun _ => ?_
  split_ifs
  · exact authenticate_closes creds
  · exact .pure ()

theorem remaining_closes (typ : UInt8) : Closes (remaining typ) := by
  unfold remaining
  split_ifs
  · exact .pure 4
  · exact .bind (.readFull _ _) fun _ => .pure _
  · exact .pure 16
  · exact .fail _

theorem connectReply_closes : Closes connectReply := by
  unfold connectReply
  exact .bind (.readFull _ _) fun _ => .bind (.failIf _ _) fun _ => .bind (.failIf _ _) fun _ =>
    .bind (remaining_closes _) fun _ => .bind (.readFull _ _) fun _ => .pure ()

theorem handshake_closes (text : AddressText) (creds : Credentials) (target : Bytes) :
    Closes (handshake text creds target) := by
  refine .bind (authenticatedConn_closes creds) fun _ => .clearingDeadline ?_
  unfold connect
  split
  · exact .fail _
  · exact .bind (.write _ _) fun _ => connectReply_closes

/-! ## What the server has to send -/

/-- The answer to the greeting and to the credentials. -/
def authReply (creds : Credentials) : Bytes := if creds.Given then [5, 2, 1, 0] else [5, 0]

/-- A reply that grants the request, with its whole address and port. -/
inductive ConnectReply : Bytes → Prop where
  | ipv4 (address port : Bytes) (whole : address.length = 4) (whole_port : port.length = 2) :
      ConnectReply ([5, 0, 0, 1] ++ address ++ port)
  | domain (name port : Bytes) (fits : name.length ≤ 255) (whole_port : port.length = 2) :
      ConnectReply ([5, 0, 0, 3, UInt8.ofNat name.length] ++ name ++ port)
  | ipv6 (address port : Bytes) (whole : address.length = 16) (whole_port : port.length = 2) :
      ConnectReply ([5, 0, 0, 4] ++ address ++ port)

/-- A target with a port and a host that is an IPv4 address or fits a name. -/
def Dialable (text : AddressText) (target : Bytes) : Prop :=
  ∃ host portText, ∃ port : Int, splitHostPort target = some (host, portText) ∧
    atoi portText = some port ∧ 1 ≤ port ∧ port ≤ 65535 ∧
    (((text.parseIP host).bind to4).isSome = true ∨ 1 ≤ host.length ∧ host.length ≤ 255)

theorem authenticate_accepts (creds : Credentials) :
    Accepts (authenticate creds) fun _ s rest => ¬ creds.TooLong ∧ s = [1, 0] ++ rest := by
  unfold authenticate
  refine (Accepts.bind (.failIf _ _) fun _ => .bind (.write _ _) fun _ => .bind (.readFull _ _)
    fun response => .bind (.failIf _ _) fun _ => .failIf _ _).congr ?_
  intro a s rest
  constructor
  · rintro ⟨-, _, ⟨hshort, rfl⟩, -, _, rfl, response, _, ⟨hlen, rfl⟩, -, _, ⟨hversion, rfl⟩,
      hstatus, rfl⟩
    obtain ⟨version, status, rfl⟩ := List.length_eq_two.mp hlen
    simp only [List.getD_cons_zero, List.getD_cons_succ, ne_eq, not_not] at hversion hstatus
    exact ⟨hshort, by rw [hversion, hstatus]⟩
  · rintro ⟨hshort, rfl⟩
    exact ⟨(), _, ⟨hshort, rfl⟩, (), _, rfl, [1, 0], rest, ⟨rfl, rfl⟩, (), rest,
      ⟨by decide, rfl⟩, by decide, rfl⟩

theorem authenticatedConn_accepts (creds : Credentials) :
    Accepts (authenticatedConn creds) fun _ s rest =>
      (creds.Given → ¬ creds.TooLong) ∧ s = authReply creds ++ rest := by
  unfold authenticatedConn
  refine (Accepts.bind (.setDeadline _) fun _ => .bind (.write _ _) fun _ => .bind (.readFull _ _)
    fun response => .bind (.failIf _ _) fun _ => .bind (.failIf _ _) fun _ =>
      .bind (.failIf _ _) fun _ => .ite _ (authenticate_accepts creds) (.pure ())).congr ?_
  intro a s rest
  constructor
  · rintro ⟨-, _, rfl, -, _, rfl, response, _, ⟨hlen, rfl⟩, -, _, ⟨hversion, rfl⟩, -, _,
      ⟨-, rfl⟩, -, _, ⟨hmethod, rfl⟩, hlast⟩
    obtain ⟨version, method, rfl⟩ := List.length_eq_two.mp hlen
    simp only [List.getD_cons_zero, List.getD_cons_succ, ne_eq, not_not] at hversion hmethod hlast
    subst hversion hmethod
    unfold authReply Credentials.method at *
    by_cases hgiven : creds.Given
    · simp only [hgiven, if_true, true_and, not_true_eq_false, false_and, or_false] at hlast ⊢
      obtain ⟨hshort, rfl⟩ := hlast
      exact ⟨fun _ => hshort, rfl⟩
    · have hzero : ¬ (0 : UInt8) = 2 := by decide
      simp only [hgiven, if_false, hzero, false_and, not_false_eq_true, true_and, false_or]
        at hlast ⊢
      obtain ⟨-, rfl⟩ := hlast
      exact ⟨fun h => h.elim, rfl⟩
  · rintro ⟨hshort, rfl⟩
    by_cases hgiven : creds.Given
    · have hmethod : creds.method = 2 := if_pos hgiven
      have hreply : authReply creds = [5, 2, 1, 0] := if_pos hgiven
      rw [hreply, hmethod]
      exact ⟨(), _, rfl, (), _, rfl, [5, 2], [1, 0] ++ rest, ⟨rfl, rfl⟩, (), _, ⟨by decide, rfl⟩,
        (), _, ⟨by decide, rfl⟩, (), _, ⟨by decide, rfl⟩, Or.inl ⟨rfl, hshort hgiven, rfl⟩⟩
    · have hmethod : creds.method = 0 := if_neg hgiven
      have hreply : authReply creds = [5, 0] := if_neg hgiven
      rw [hreply, hmethod]
      exact ⟨(), _, rfl, (), _, rfl, [5, 0], rest, ⟨rfl, rfl⟩, (), _, ⟨by decide, rfl⟩,
        (), _, ⟨by decide, rfl⟩, (), _, ⟨by decide, rfl⟩, Or.inr ⟨by decide, rfl, rfl⟩⟩

theorem remaining_accepts (typ : UInt8) :
    Accepts (remaining typ) fun n s rest =>
      typ = 1 ∧ n = 4 ∧ s = rest ∨ typ = 3 ∧ (∃ b : UInt8, n = b.toNat ∧ s = b :: rest) ∨
        typ = 4 ∧ n = 16 ∧ s = rest := by
  unfold remaining
  split_ifs with hone hthree hfour
  · refine (Accepts.pure 4).congr fun n s rest => ?_
    simp [hone]
  · refine (Accepts.bind (.readFull _ _) fun _ => .pure _).congr fun n s rest => ?_
    subst hthree
    constructor
    · rintro ⟨data, _, ⟨hlen, rfl⟩, rfl, rfl⟩
      obtain ⟨b, rfl⟩ := List.length_eq_one_iff.mp hlen
      exact Or.inr (Or.inl ⟨rfl, b, rfl, rfl⟩)
    · rintro (⟨hone, -⟩ | ⟨-, b, rfl, rfl⟩ | ⟨hfour, -⟩)
      · exact absurd hone (by decide)
      · exact ⟨[b], rest, ⟨rfl, rfl⟩, rfl, rfl⟩
      · exact absurd hfour (by decide)
  · refine (Accepts.pure 16).congr fun n s rest => ?_
    simp [hfour]
  · refine (Accepts.fail _).congr fun n s rest => ?_
    simp [hone, hthree, hfour]

theorem connectReply_accepts :
    Accepts connectReply fun _ s rest => ∃ reply, ConnectReply reply ∧ s = reply ++ rest := by
  unfold connectReply
  refine (Accepts.bind (.readFull _ _) fun _ => .bind (.failIf _ _) fun _ => .bind (.failIf _ _)
    fun _ => .bind (remaining_accepts _) fun _ => .bind (.readFull _ _) fun _ => .pure ()).congr ?_
  intro a s rest
  constructor
  · rintro ⟨response, _, ⟨hlen, rfl⟩, -, _, ⟨hheader, rfl⟩, -, _, ⟨hstatus, rfl⟩, n, _, htyp,
      address, _, ⟨haddress, rfl⟩, -, rfl⟩
    obtain ⟨version, status, reserved, typ, rfl⟩ := List.length_eq_four.mp hlen
    simp only [List.getD_cons_zero, List.getD_cons_succ, ne_eq, not_not, not_or]
      at hheader hstatus htyp
    obtain ⟨rfl, rfl⟩ := hheader
    subst hstatus
    obtain ⟨front, port, rfl, hfront, hport⟩ :
        ∃ front port, address = front ++ port ∧ front.length = n ∧ port.length = 2 :=
      ⟨address.take n, address.drop n, (List.take_append_drop n address).symm,
        by rw [List.length_take]; omega, by rw [List.length_drop]; omega⟩
    rcases htyp with ⟨rfl, rfl, rfl⟩ | ⟨rfl, b, rfl, rfl⟩ | ⟨rfl, rfl, rfl⟩
    · exact ⟨_, .ipv4 front port hfront hport, by simp⟩
    · refine ⟨_, .domain front port ?_ hport, by simp [hfront]⟩
      have hb : b.toNat < 256 := b.toNat_lt
      omega
    · exact ⟨_, .ipv6 front port hfront hport, by simp⟩
  · rintro ⟨reply, hreply, rfl⟩
    cases hreply with
    | ipv4 address port whole whole_port =>
        refine ⟨[5, 0, 0, 1], address ++ port ++ rest, ⟨rfl, by simp⟩, (), _, ⟨by decide, rfl⟩,
          (), _, ⟨by decide, rfl⟩, 4, _, Or.inl ⟨rfl, rfl, rfl⟩, address ++ port, rest,
          ⟨?_, rfl⟩, rfl, rfl⟩
        rw [List.length_append, whole, whole_port]
    | domain name port fits whole_port =>
        refine ⟨[5, 0, 0, 3], UInt8.ofNat name.length :: (name ++ port ++ rest), ⟨rfl, by simp⟩,
          (), _, ⟨by decide, rfl⟩, (), _, ⟨by decide, rfl⟩, name.length, _,
          Or.inr (Or.inl ⟨rfl, _, (toNat_lengthByte fits).symm, rfl⟩), name ++ port, rest,
          ⟨?_, rfl⟩, rfl, rfl⟩
        rw [List.length_append, whole_port]
    | ipv6 address port whole whole_port =>
        refine ⟨[5, 0, 0, 4], address ++ port ++ rest, ⟨rfl, by simp⟩, (), _, ⟨by decide, rfl⟩,
          (), _, ⟨by decide, rfl⟩, 16, _, Or.inr (Or.inr ⟨rfl, rfl, rfl⟩), address ++ port, rest,
          ⟨?_, rfl⟩, rfl, rfl⟩
        rw [List.length_append, whole, whole_port]

theorem requestAddress_isSome_iff {text : AddressText} {host : Bytes} :
    (requestAddress text host).isSome = true ↔
      ((text.parseIP host).bind to4).isSome = true ∨ 1 ≤ host.length ∧ host.length ≤ 255 := by
  unfold requestAddress
  cases (text.parseIP host).bind to4 with
  | some ip => simp
  | none =>
      split_ifs with hbad
      · simp only [Option.isSome_none, Bool.false_eq_true, false_or, false_iff, not_and]
        omega
      · simp only [Option.isSome_some, Option.isSome_none, Bool.false_eq_true, false_or, true_iff]
        omega

theorem targetPort_isSome_iff {portText : Bytes} : (targetPort portText).isSome = true ↔
    ∃ port : Int, atoi portText = some port ∧ 1 ≤ port ∧ port ≤ 65535 := by
  unfold targetPort
  cases atoi portText with
  | none => simp
  | some port =>
      simp only [Option.some.injEq, exists_eq_left']
      split_ifs with hbad
      · simp only [Option.isSome_none, Bool.false_eq_true, false_iff, not_and]
        omega
      · simp only [Option.isSome_some, true_iff]
        omega

/-- A request can be written exactly for a target that can be dialled. -/
theorem connectRequest_ok_iff {text : AddressText} {target : Bytes} :
    (∃ request, connectRequest text target = .ok request) ↔ Dialable text target := by
  constructor
  · rintro ⟨request, h⟩
    unfold connectRequest at h
    split at h
    · cases h
    · rename_i host portText hsplit
      split at h
      · cases h
      · rename_i port hport
        split at h
        · cases h
        · rename_i address haddress
          obtain ⟨number, hatoi, hpos, hle⟩ :=
            targetPort_isSome_iff.mp (Option.isSome_of_eq_some hport)
          have hhost := requestAddress_isSome_iff.mp (Option.isSome_of_eq_some haddress)
          exact ⟨host, portText, number, hsplit, hatoi, hpos, hle, hhost⟩
  · rintro ⟨host, portText, number, hsplit, hatoi, hpos, hle, hhost⟩
    obtain ⟨port, hport⟩ :=
      Option.isSome_iff_exists.mp (targetPort_isSome_iff.mpr ⟨number, hatoi, hpos, hle⟩)
    obtain ⟨address, haddress⟩ :=
      Option.isSome_iff_exists.mp (requestAddress_isSome_iff.mpr hhost)
    exact ⟨_, by simp only [connectRequest, hsplit, hport, haddress]; rfl⟩

theorem connect_accepts (text : AddressText) (target : Bytes) :
    Accepts (connect text target) fun _ s rest =>
      Dialable text target ∧ ∃ reply, ConnectReply reply ∧ s = reply ++ rest := by
  unfold connect
  cases hrequest : connectRequest text target with
  | error err =>
      have hnot : ¬ Dialable text target := fun hdialable => by
        obtain ⟨request, hok⟩ := connectRequest_ok_iff.mpr hdialable
        rw [hrequest] at hok
        cases hok
      exact (Accepts.fail err).congr fun a s rest => by simp [hnot]
  | ok request =>
      have hdialable : Dialable text target := connectRequest_ok_iff.mp ⟨request, hrequest⟩
      refine (Accepts.bind (.write _ _) fun _ => connectReply_accepts).congr fun a s rest => ?_
      simp [hdialable]

/-- The bytes that the server has to send for a handshake, and the rest. -/
def Granted (text : AddressText) (creds : Credentials) (target s rest : Bytes) : Prop :=
  (creds.Given → creds.user.length ≤ 255 ∧ creds.password.length ≤ 255) ∧ Dialable text target ∧
    ∃ reply, ConnectReply reply ∧ s = authReply creds ++ reply ++ rest

theorem handshake_accepts (text : AddressText) (creds : Credentials) (target : Bytes) :
    Accepts (handshake text creds target) fun _ s rest => Granted text creds target s rest := by
  unfold handshake
  refine (Accepts.bind (authenticatedConn_accepts creds) fun _ =>
    (connect_accepts text target).clearingDeadline).congr fun a s rest => ?_
  have hfits : (creds.Given → ¬ creds.TooLong) ↔
      (creds.Given → creds.user.length ≤ 255 ∧ creds.password.length ≤ 255) := by
    refine imp_congr_right fun _ => ?_
    unfold Credentials.TooLong
    omega
  rw [hfits]
  constructor
  · rintro ⟨-, _, ⟨hshort, rfl⟩, hdialable, reply, hreply, rfl⟩
    exact ⟨hshort, hdialable, reply, hreply, by rw [List.append_assoc]⟩
  · rintro ⟨hshort, hdialable, reply, hreply, rfl⟩
    exact ⟨(), reply ++ rest, ⟨hshort, by rw [List.append_assoc]⟩, hdialable, reply, hreply, rfl⟩

/-- Over a connection whose deadlines and writes succeed, and however the server's bytes
arrive, the dialer returns the connection exactly when the server grants the request; it
then continues right behind the reply, and otherwise the connection is closed. -/
theorem dial_consumes_handshake (text : AddressText) (creds : Credentials) (target : Bytes)
    (conn : Conn) (hworks : conn.Works) :
    ((∃ returned under, dial text creds target (some conn) = (.ok returned, under)) ↔
      ∃ rest, Granted text creds target conn.stream rest) ∧
    (∀ returned under, dial text creds target (some conn) = (.ok returned, under) →
      under = some returned ∧ returned.closed = false ∧ returned.armed = false ∧
        ∀ rest, Granted text creds target conn.stream rest → returned.stream = rest) ∧
    ∀ err under, dial text creds target (some conn) = (.error err, under) →
      ∃ after, under = some after ∧ after.closed = true := by
  have haccepts := handshake_accepts text creds target
  have hok := haccepts.ok_iff hworks
  rw [exists_const] at hok
  cases hrun : handshake text creds target conn with
  | mk result after =>
      cases result with
      | ok value =>
          have hdial : dial text creds target (some conn) = (.ok after, some after) := by
            simp only [dial, hrun]
          rw [hdial]
          refine ⟨iff_of_true ⟨after, some after, rfl⟩ (hok.mp ⟨value, after, hrun⟩), ?_, nofun⟩
          rintro _ _ ⟨⟩
          obtain ⟨rest, hrest⟩ := hok.mp ⟨value, after, hrun⟩
          refine ⟨rfl, (haccepts.rest hworks hrun () hrest).1.live, ?_, fun rest' hrest' =>
            (haccepts.rest hworks hrun () hrest').2⟩
          obtain ⟨-, middle, -, hlast⟩ := bind_eq_ok hrun
          have hcleared := congrArg (fun r => r.2.armed) hlast
          exact hcleared.symm
      | error err =>
          have hdial : dial text creds target (some conn) = (.error err, some after) := by
            simp only [dial, hrun]
          have hclosed := handshake_closes text creds target conn err after hrun
          have hnot : ¬ ∃ rest, Granted text creds target conn.stream rest := fun hgranted => by
            obtain ⟨value, after', hrun'⟩ := hok.mpr hgranted
            rw [hrun] at hrun'
            cases hrun'
          rw [hdial]
          refine ⟨iff_of_false nofun hnot, nofun, ?_⟩
          rintro _ _ ⟨⟩
          exact ⟨after, rfl, hclosed⟩

theorem dial_consumes_reply_to_domain :
    let conn : Conn := ⟨[[5], [0, 5, 0], [0, 3, 1], [97, 0, 80, 7], [8]], true, fun _ => true, [],
      false, false⟩
    ∃ returned, dial .dotted ⟨[], []⟩ (ascii "example.com:443") (some conn) =
        (.ok returned, some returned) ∧ returned.stream = [7, 8] := by
  intro conn
  have hgranted : Granted .dotted ⟨[], []⟩ (ascii "example.com:443") conn.stream [7, 8] := by
    refine ⟨fun hgiven => absurd hgiven (by decide), ⟨ascii "example.com", ascii "443", 443,
      by decide, by decide, by decide, by decide, Or.inr (by decide)⟩,
      [5, 0, 0, 3, 1, 97, 0, 80], .domain [97] [0, 80] (by decide) rfl, rfl⟩
  obtain ⟨hiff, hreturned, -⟩ := dial_consumes_handshake .dotted ⟨[], []⟩ (ascii "example.com:443")
    conn ⟨rfl, fun _ => rfl, rfl⟩
  obtain ⟨returned, under, hdial⟩ := hiff.mpr ⟨[7, 8], hgranted⟩
  obtain ⟨rfl, -, -, hstream⟩ := hreturned returned under hdial
  exact ⟨returned, hdial, hstream [7, 8] hgranted⟩

end Hy2Route.Landing
