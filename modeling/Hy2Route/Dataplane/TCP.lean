import Hy2Route.Dataplane.Select
import Hy2Route.Foundation.HostPort
import Hy2Route.Sniff.Bounds
import Hy2Route.Sniff.ClientHello
import Hy2Route.Sniff.Peek

/-!
# Handling a TCP connection

The server reads where a connection was going, sniffs its first bytes, chooses a dialer
and a target, and dials. The dialer and the target are chosen apart from each other,
from the same sniffed result and the same classifier. The target is the original address,
or the sniffed name of a TLS server with the original port; a name is only dialed through
the proxy.
-/

namespace Hy2Route.Dataplane

open Foundation Policy Sniff

/-- A TCP server. The dialers are recorded by whether they are set. -/
structure TCPSettings where
  listenAddr : Bytes
  classifier : Option Classifier
  learned : Option LearningTable
  direct : Bool
  proxy : Bool
  sniff : Limits
  domainDial : Bool

/-- A connection that was accepted: the texts of the destination that its socket tells
and of its local address, what it delivers, and whether a deadline can be set. -/
structure Inbound where
  destination : Option Bytes
  localAddr : Option Bytes
  conn : Sniff.Conn
  settable : Bool

inductive HandleError where
  /-- TCP server is not configured -/
  | notConfigured
  /-- read redirected original destination -/
  | redirected
  /-- original destination is missing -/
  | missing
  /-- the destination has no host and port -/
  | address
  /-- original destination must be IPv4 -/
  | notIPv4
  | sniff (err : PeekError)
  deriving DecidableEq

def samePort (addr : Option Bytes) (listenAddr : Bytes) : Bool :=
  match addr with
  | none => false
  | some addr =>
      if listenAddr = [] then false
      else match splitHostPort addr, splitHostPort listenAddr with
        | some (_, localPort), some (_, listenPort) => localPort == listenPort
        | _, _ => false

/-- The text and the address of where the connection was going. -/
def originalTarget (inbound : Inbound) (listenAddr : Bytes) :
    Except HandleError (Bytes × BitVec 32) :=
  if inbound.destination = none ∧ samePort inbound.localAddr listenAddr then .error .redirected
  else match inbound.destination.or inbound.localAddr with
    | none => .error .missing
    | some addr =>
        match splitHostPort addr with
        | none => .error .address
        | some (host, _) =>
            match parseIPv4 host with
            | none => .error .notIPv4
            | some ip => .ok (addr, ip)

/-- The text to dial. -/
def dialTarget (text : AddressText) (domainDial : Bool) (classifier : Classifier)
    (original : Bytes) (ip : Addr) (result : Result) : Bytes :=
  if !domainDial ∨ result.protocol ≠ .tls ∨ !result.complete ∨ result.domain = [] ∨ result.ech ∨
      (text.parseIP result.domain).isSome then original
  else if (classifier.ip ip).source = .explicitIP ∨
      (classifier.domain result.domain).action ≠ .proxy then original
  else match splitHostPort original with
    | none => original
    | some (_, port) => joinHostPort result.domain port

/-- The dial that the server makes for a connection, and the server with the table that
was looked up. `cancelled` answers the checks of the context while sniffing. -/
def TCPSettings.handle (text : AddressText) (server : TCPSettings) (cancelled : Nat → Bool)
    (now : Int) (inbound : Inbound) : Except HandleError (Dialer × Bytes) × TCPSettings :=
  match server.classifier with
  | none => (.error .notConfigured, server)
  | some classifier =>
      if !server.direct || !server.proxy then (.error .notConfigured, server)
      else match originalTarget inbound server.listenAddr with
        | .error err => (.error err, server)
        | .ok (target, ip) =>
            match (peek cancelled inbound.settable (some inbound.conn) server.sniff).1 with
            | .error err => (.error (.sniff err), server)
            | .ok result =>
                let (chosen, dialer) := (TCPServer.mk classifier server.learned).selectDialer now
                  (.v4 ip) result.domain
                let target := dialTarget text server.domainDial classifier target (.v4 ip) result
                (.ok (dialer, target), { server with learned := chosen.learned })

/-! ## What is sniffed -/

theorem parseTLS_complete {raw : Bytes} (h : (parseTLS raw).1.protocol = .tls) :
    (parseTLS raw).2 = .complete := by
  simp only [parseTLS] at h ⊢
  split_ifs at h ⊢
  cases hrecord : parseRecord (slice raw 5 (uint16 raw 3)) with
  | none => simp [hrecord] at h
  | some result => rfl

theorem parseHTTP_protocol (raw : Bytes) : (parseHTTP raw).1.protocol ≠ .tls := by
  have hheader (header : Bytes) : (httpResult header).protocol = .http := by
    unfold httpResult
    split <;> rfl
  unfold parseHTTP
  split
  · split_ifs <;> simp
  · simp
  · split_ifs
    · simp
    · split
      · simp
      · simp [hheader]

/-- A TLS result was read from a ClientHello in front. -/
theorem exists_clientHello {raw : Bytes} (h : (parseResult raw).protocol = .tls) :
    ∃ hello : ClientHello, hello.encode <+: raw ∧ parseResult raw = hello.result := by
  unfold parseResult parse at h ⊢
  split_ifs at h ⊢ with hempty htls
  · obtain ⟨hello, rest, hraw, hfound⟩ :=
      (parseTLS_complete_iff raw (parseTLS raw).1).mp (Prod.ext rfl (parseTLS_complete h))
    exact ⟨hello, ⟨rest, hraw.symm⟩, hfound⟩
  · exact absurd h (parseHTTP_protocol raw)

/-- The name of a ClientHello is a normalized one. -/
theorem normal_of_domain {hello : ClientHello} (h : hello.result.domain ≠ []) :
    ∃ name, normalizeDomain name = .ok hello.result.domain := by
  simp only [ClientHello.result, Extensions.domain] at h ⊢
  cases hsni : hello.body.extensions.sni with
  | none => simp [hsni] at h
  | some sn => exact ⟨sn.name, sn.normal⟩

/-- A normalized name is a host without brackets and colons. -/
theorem hostPort_of_normal {name domain host port : Bytes}
    (h : normalizeDomain name = .ok domain) (hport : HostPort host port) :
    HostPort domain port := by
  obtain ⟨-, -, -, hlabels⟩ := (normalizeDomain_ok_iff name domain).mp h
  have hnot (b : UInt8) (hdot : b ≠ dot) (hrune : labelRune b.toNat = false) : b ∉ domain := by
    intro hmem
    rcases labelRune_or_dot hlabels hmem with hb | hb
    · exact hdot hb
    · rw [hrune] at hb
      cases hb
  exact ⟨hnot 0x5B (by decide) (by decide), hnot 0x5D (by decide) (by decide), hport.open_port,
    hport.close_port, hport.colon_port⟩

/-! ## What is dialed -/

/-- The target is the original one, or all that a rewritten target needs is given. -/
theorem dialTarget_cases (text : AddressText) (domainDial : Bool) (classifier : Classifier)
    (original : Bytes) (ip : Addr) (result : Result) :
    dialTarget text domainDial classifier original ip result = original ∨
      domainDial = true ∧ result.protocol = .tls ∧ result.complete = true ∧ result.domain ≠ [] ∧
        result.ech = false ∧ text.parseIP result.domain = none ∧
        (classifier.ip ip).source ≠ .explicitIP ∧
        (classifier.domain result.domain).action = .proxy ∧
        ∃ host port, splitHostPort original = some (host, port) ∧
          dialTarget text domainDial classifier original ip result =
            joinHostPort result.domain port := by
  unfold dialTarget
  split_ifs with hsniffed hpolicy
  · exact Or.inl rfl
  · exact Or.inl rfl
  · cases hsplit : splitHostPort original with
    | none => exact Or.inl rfl
    | some parts =>
        right
        simp only [not_or, Bool.not_eq_true', Bool.not_eq_false, ne_eq, not_not, Bool.not_eq_true,
          Option.isSome_eq_false_iff, Option.isNone_iff_eq_none] at hsniffed hpolicy
        obtain ⟨hdial, htls, hcomplete, hdomain, hech, hip⟩ := hsniffed
        exact ⟨hdial, htls, hcomplete, hdomain, hech, hip, hpolicy.1, hpolicy.2, parts.1, parts.2,
          rfl, rfl⟩

/-- A dial of the server: the original target and the sniffed result that it was made from. -/
theorem handle_ok {text : AddressText} {server : TCPSettings} {cancelled : Nat → Bool}
    {now : Int} {inbound : Inbound} {classifier : Classifier} {dialer : Dialer} {target : Bytes}
    (hclassifier : server.classifier = some classifier)
    (h : (server.handle text cancelled now inbound).1 = .ok (dialer, target)) :
    ∃ original ip, originalTarget inbound server.listenAddr = .ok (original, ip) ∧
      let result := parseResult (inbound.conn.stream.take server.sniff.bytes.toNat)
      dialer = ((TCPServer.mk classifier server.learned).selectDialer now (.v4 ip)
        result.domain).2 ∧
      target = dialTarget text server.domainDial classifier original (.v4 ip) result := by
  unfold TCPSettings.handle at h
  rw [hclassifier] at h
  simp only at h
  split_ifs at h with hset
  cases horiginal : originalTarget inbound server.listenAddr with
  | error err => simp [horiginal] at h
  | ok found =>
      cases hpeek : (peek cancelled inbound.settable (some inbound.conn) server.sniff).1 with
      | error err => simp [horiginal, hpeek] at h
      | ok result =>
          simp only [horiginal, hpeek, Except.ok.injEq, Prod.mk.injEq] at h
          refine ⟨found.1, found.2, rfl, ?_⟩
          rw [← peek_ok hpeek]
          exact ⟨h.1.symm, h.2.symm⟩

/-- A target other than the original one is only dialed through the proxy: it is the name of
a complete ClientHello at the front of the stream whose hello is not encrypted, with the
original port; the name is not an IP address, the server dials names, and no explicit rule
covers the original address. What is dialed directly is the original target. -/
theorem rewritten_target_is_proxied (text : AddressText) {data : Dataset}
    {rules : List RuleConfig} {classifier : Classifier} (hnew : new data rules = .ok classifier)
    {server : TCPSettings} (hclassifier : server.classifier = some classifier)
    (cancelled : Nat → Bool) (now : Int) (inbound : Inbound) {dialer : Dialer} {target : Bytes}
    (h : (server.handle text cancelled now inbound).1 = .ok (dialer, target)) :
    ∃ original ip, originalTarget inbound server.listenAddr = .ok (original, ip) ∧
      (dialer = .direct → target = original) ∧
      (target ≠ original → dialer = .proxy ∧ server.domainDial = true ∧
        (∀ rule ∈ explicitPrefixRules rules, ¬ rule.covers ip) ∧
        ∃ (hello : ClientHello) (host port : Bytes), hello.encode <+: inbound.conn.stream ∧
          hello.result.complete = true ∧ hello.result.ech = false ∧
          text.parseIP hello.result.domain = none ∧
          splitHostPort original = some (host, port) ∧
          splitHostPort target = some (hello.result.domain, port)) := by
  obtain ⟨original, ip, horiginal, hdialer, htarget⟩ := handle_ok hclassifier h
  obtain rfl := new_ok hnew
  refine ⟨original, ip, horiginal, ?_⟩
  rcases dialTarget_cases text server.domainDial (Classifier.ofRules data rules) original (.v4 ip)
    (parseResult (inbound.conn.stream.take server.sniff.bytes.toNat)) with hsame |
    ⟨hdial, htls, hcomplete, hdomain, hech, hip, hsource, haction, host, port, hsplit, hjoin⟩
  · rw [hsame] at htarget
    exact ⟨fun _ => htarget, fun hne => absurd htarget hne⟩
  · rw [hjoin] at htarget
    have hproxy : dialer = .proxy := by
      rw [hdialer, TCPServer.selectDialer, if_pos hdomain, haction]
      rfl
    refine ⟨fun hdirect => absurd (hproxy.symm.trans hdirect) (by decide), fun _ => ?_⟩
    have huncovered : ∀ rule ∈ explicitPrefixRules rules, ¬ rule.covers ip :=
      fun rule hrule hcovers => hsource (ip_explicit data ⟨rule, hrule, hcovers⟩).1
    obtain ⟨hello, hencode, hresult⟩ := exists_clientHello htls
    rw [hresult] at hcomplete hdomain hech hip htarget
    obtain ⟨name, hnormal⟩ := normal_of_domain hdomain
    have hport := (splitHostPort_eq_some_iff.mp hsplit).1
    refine ⟨hproxy, hdial, huncovered, hello, host, port, hencode.trans (List.take_prefix _ _),
      hcomplete, hech, hip, hsplit, ?_⟩
    rw [htarget]
    exact (hostPort_of_normal hnormal hport).split_join

/-- A hello for `a.cn` to an address without a rule is dialed by its name. -/
theorem rewritten_target_is_proxied_for_hello :
    let raw : Bytes := [22, 3, 1, 0, 60, 1, 0, 0, 56, 3, 3] ++ List.replicate 32 0 ++
      [0, 0, 2, 0x13, 1, 1, 0, 0, 13, 0, 0, 0, 9, 0, 7, 0, 0, 4] ++ ascii "a.cn"
    let server : TCPSettings :=
      { listenAddr := ascii "0.0.0.0:12345", classifier := some (.ofRules ⟨[], []⟩ []),
        learned := none, direct := true, proxy := true, sniff := ⟨8192, 250000000⟩,
        domainDial := true }
    let inbound : Inbound :=
      { destination := some (ascii "203.0.113.8:443"), localAddr := none,
        conn := ⟨[raw], by simp [raw]⟩, settable := true }
    (server.handle .dotted (fun _ => false) 0 inbound).1 = .ok (.proxy, ascii "a.cn:443") ∧
      ∃ hello : ClientHello, hello.encode <+: raw ∧ hello.result.ech = false := by
  intro raw server inbound
  have hhello : parseTLS raw = (⟨ascii "a.cn", .tls, true, false⟩, .complete) := by
    have hrun : Checked.parseTLS 70 raw =
        .ok (⟨ascii "a.cn", .tls, true, false⟩, .complete) := by decide +kernel
    rw [Checked.parseTLS_eq (by decide)] at hrun
    exact Except.ok.inj hrun
  have hsniffed : parseResult (inbound.conn.stream.take 8192) =
      ⟨ascii "a.cn", .tls, true, false⟩ := by
    have htake : inbound.conn.stream.take 8192 = raw := by decide +kernel
    have hfirst : raw.getD 0 0 = 22 := rfl
    rw [htake, parseResult, parse, if_neg (by decide), if_pos hfirst, hhello]
  have htarget : originalTarget inbound server.listenAddr =
      .ok (ascii "203.0.113.8:443", 0xCB007108#32) := by decide +kernel
  have hnew : new ⟨[], []⟩ [] = .ok (.ofRules ⟨[], []⟩ []) := rfl
  have hhandle : (server.handle .dotted (fun _ => false) 0 inbound).1 =
      .ok (.proxy, ascii "a.cn:443") := by
    obtain ⟨r, hpeek, -⟩ := @peek_eq inbound.conn server.sniff (by decide) (by decide)
    have hresult : (peek (fun _ => false) inbound.settable (some inbound.conn) server.sniff).1 =
        .ok ⟨ascii "a.cn", .tls, true, false⟩ :=
      (congrArg Prod.fst hpeek).trans (congrArg Except.ok hsniffed)
    simp only [TCPSettings.handle, hresult, htarget]
    decide +kernel
  obtain ⟨original, ip, horiginal, -, hrewritten⟩ :=
    rewritten_target_is_proxied .dotted hnew rfl _ _ _ hhandle
  have hne : ascii "a.cn:443" ≠ original := by
    intro heq
    rw [htarget] at horiginal
    obtain ⟨rfl, -⟩ := Prod.mk.injEq _ _ _ _ ▸ Except.ok.inj horiginal
    exact absurd heq (by decide)
  obtain ⟨-, -, -, hello, -, -, hencode, -, hech, -⟩ := hrewritten hne
  exact ⟨hhandle, hello, by simpa [inbound, Sniff.Conn.stream] using hencode, hech⟩

end Hy2Route.Dataplane
