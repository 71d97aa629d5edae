import Hy2Route.Policy.Decisions
import Hy2Route.Policy.Learning

/-!
# Choosing the way out

The TCP server picks a dialer from the sniffed domain, the address and what was
learned about it; the UDP server decides from the address alone. The TCP server
asks about the domain first, so an explicit rule for the address is only
followed when no domain was sniffed.
-/

namespace Hy2Route.Dataplane

open Foundation Policy

inductive Dialer where
  | direct
  | proxy
  deriving DecidableEq

/-- The parts of a TCP server that choose a dialer. -/
structure TCPServer where
  classifier : Classifier
  learned : Option LearningTable

/-- The dialer of an action: everything that is not direct goes to the proxy. -/
def Dialer.ofAction (action : Action) : Dialer :=
  if action = .direct then .direct else .proxy

def TCPServer.selectDialer (server : TCPServer) (now : Int) (target : Addr) (domain : Bytes) :
    TCPServer × Dialer :=
  if domain ≠ [] then (server, .ofAction (server.classifier.domain domain).action)
  else
    let ipDecision := server.classifier.ip target
    if ipDecision.source = .explicitIP then (server, .ofAction ipDecision.action)
    else
      match server.learned with
      | none => (server, .ofAction ipDecision.action)
      | some table =>
          let (table, learned) := table.lookup target now
          let server := { server with learned := some table }
          if learned.direct && !learned.proxy then (server, .direct)
          else if learned.proxy then (server, .proxy)
          else (server, .ofAction ipDecision.action)

/-- The parts of a UDP server that decide about a target. -/
structure UDPServer where
  classifier : Option Classifier
  learned : Option LearningTable

/-- The classifier's answer, which is not direct without a classifier. -/
def UDPServer.classifiedDirect (server : UDPServer) (target : Addr) : Bool :=
  match server.classifier with
  | none => false
  | some classifier => (classifier.ip target).action = .direct

/-- The classifier has an explicit rule for the target. -/
def UDPServer.explicit (server : UDPServer) (target : Addr) : Bool :=
  match server.classifier with
  | none => false
  | some classifier => (classifier.ip target).source = .explicitIP

def UDPServer.shouldDirect (server : UDPServer) (now : Int) (target : Addr) : UDPServer × Bool :=
  if server.explicit target then (server, server.classifiedDirect target)
  else
    match server.learned with
    | none => (server, server.classifiedDirect target)
    | some table =>
        let (table, learned) := table.lookup target now
        let server := { server with learned := some table }
        if learned.proxy then (server, false)
        else if learned.direct then (server, true)
        else (server, server.classifiedDirect target)

/-- An explicit rule decides alone; otherwise a learned proxy address is not
direct, and a learned direct one is. -/
theorem shouldDirect_eq (c : Classifier) (table : LearningTable) (now : Int) (target : Addr) :
    let decision := c.ip target
    let learned := (table.lookup target now).2
    ((UDPServer.mk (some c) (some table)).shouldDirect now target).2 =
      bif decision.source == .explicitIP then decision.action == .direct
      else !learned.proxy && (learned.direct || decision.action == .direct) := by
  intro decision learned
  simp only [UDPServer.shouldDirect, UDPServer.explicit, UDPServer.classifiedDirect]
  change (if decide (decision.source = .explicitIP) = true then _ else _ : UDPServer × Bool).2 = _
  by_cases hsource : decision.source = .explicitIP
  · simp only [hsource, decide_true, if_true, beq_self_eq_true, cond_true]
    rfl
  · have hsource' : (decision.source == Source.explicitIP) = false := by simpa using hsource
    simp only [hsource, hsource', decide_false, Bool.false_eq_true, if_false, cond_false]
    change (if learned.proxy = true then _ else if learned.direct = true then _ else _ :
      UDPServer × Bool).2 = _
    cases learned.proxy <;> cases learned.direct <;> rfl

/-- Without an explicit domain rule a domain is direct exactly when the dataset covers it. -/
theorem domain_direct_iff {data : Dataset} {rules : List RuleConfig} {domain : Bytes}
    (h : ¬ CoversDomain (explicitDomainRules rules) domain) :
    ((Classifier.ofRules data rules).domain domain).action = .direct ↔
      CoversDomain (chinaDomainRules data) domain := by
  have hd := Classifier.domain_decision data rules domain
  generalize (Classifier.ofRules data rules).domain domain = decision at hd
  cases hd with
  | malformed err failed =>
      refine ⟨fun hdirect => absurd hdirect (by decide), ?_⟩
      rintro ⟨name, hname, -⟩
      rw [failed] at hname
      cases hname
  | explicit name normal action known covered proxy_iff => exact absurd ⟨name, normal, covered⟩ h
  | china name normal uncovered covered => exact ⟨fun _ => ⟨name, normal, covered⟩, fun _ => rfl⟩
  | default name normal uncovered foreign =>
      refine ⟨fun hdirect => absurd hdirect (by simp), ?_⟩
      rintro ⟨other, hother, rule, hmem, hcov⟩
      rw [normal] at hother
      cases hother
      exact absurd hcov (foreign rule hmem)

/-- An address that an explicit rule covers is decided by the explicit rules. -/
theorem ip_explicit (data : Dataset) {rules : List RuleConfig} {a : BitVec 32}
    (h : ∃ rule ∈ explicitPrefixRules rules, rule.covers a) :
    ((Classifier.ofRules data rules).ip (.v4 a)).source = .explicitIP ∧
      ((Classifier.ofRules data rules).ip (.v4 a)).action ≠ .unknown := by
  obtain ⟨rule, hmem, hcov⟩ := h
  have hd := Classifier.ip_decision data rules a
  generalize (Classifier.ofRules data rules).ip (.v4 a) = decision at hd
  cases hd with
  | explicit action known covered proxy_iff => exact ⟨rfl, known⟩
  | china uncovered covered => exact absurd hcov (uncovered rule hmem)
  | default uncovered foreign => exact absurd hcov (uncovered rule hmem)

theorem Dialer.ofAction_eq_direct_iff (action : Action) :
    Dialer.ofAction action = .direct ↔ action = .direct := by
  cases action <;> decide

theorem Dialer.eq_ofAction_iff {dialer : Dialer} {action : Action} (hknown : action ≠ .unknown) :
    ((action = .direct → dialer = .direct) ∧ (action = .proxy → dialer = .proxy)) ↔
      (dialer = .direct ↔ action = .direct) := by
  cases action <;> cases dialer <;> simp_all

/-- Without a domain the TCP server goes direct exactly when the UDP server with the same
classifier and the same table does, and both leave the table in the same state. -/
theorem selectDialer_direct_iff_shouldDirect (c : Classifier) (learned : Option LearningTable)
    (now : Int) (target : Addr) :
    let tcp := (TCPServer.mk c learned).selectDialer now target []
    let udp := (UDPServer.mk (some c) learned).shouldDirect now target
    (tcp.2 = .direct ↔ udp.2 = true) ∧ tcp.1.learned = udp.1.learned := by
  intro tcp udp
  simp only [tcp, udp, TCPServer.selectDialer, UDPServer.shouldDirect, UDPServer.explicit,
    UDPServer.classifiedDirect, ne_eq, not_true_eq_false, if_false, decide_eq_true_eq]
  by_cases hexplicit : (c.ip target).source = .explicitIP
  · -- An explicit rule decides before the table is asked.
    simp only [if_pos hexplicit, Dialer.ofAction_eq_direct_iff, decide_eq_true_eq, and_self]
  · simp only [if_neg hexplicit]
    cases learned with
    | none => simp only [Dialer.ofAction_eq_direct_iff, decide_eq_true_eq, and_self]
    | some table =>
        -- The tests stand in another order, so every pair of verdicts is looked at.
        cases hdirect : (table.lookup target now).2.direct <;>
          cases hproxy : (table.lookup target now).2.proxy <;>
            simp [hdirect, hproxy, Dialer.ofAction_eq_direct_iff]

/-- For a target with an explicit rule and a domain without one, the dialer
follows the rule exactly when no domain was sniffed, or the rule is direct and
the dataset covers the domain, or neither. -/
theorem selectDialer_follows_explicit_ip_iff {data : Dataset} {rules : List RuleConfig}
    {c : Classifier} (hnew : new data rules = .ok c) (learned : Option LearningTable) (now : Int)
    (a : BitVec 32) (hcovered : ∃ rule ∈ explicitPrefixRules rules, rule.covers a) (domain : Bytes)
    (hdomain : ¬ CoversDomain (explicitDomainRules rules) domain) :
    (((c.ip (.v4 a)).action = .direct →
        ((TCPServer.mk c learned).selectDialer now (.v4 a) domain).2 = .direct) ∧
      ((c.ip (.v4 a)).action = .proxy →
        ((TCPServer.mk c learned).selectDialer now (.v4 a) domain).2 = .proxy)) ↔
    (domain = [] ∨
      ((c.ip (.v4 a)).action = .direct ↔ CoversDomain (chinaDomainRules data) domain)) := by
  obtain rfl := new_ok hnew
  obtain ⟨hsource, hknown⟩ := ip_explicit data hcovered
  rw [Dialer.eq_ofAction_iff hknown]
  by_cases hempty : domain = []
  · -- Without a domain the explicit rule decides.
    simp only [TCPServer.selectDialer, hempty, ne_eq, not_true_eq_false, if_false, hsource,
      if_true, true_or, iff_true]
    exact Dialer.ofAction_eq_direct_iff _
  · simp only [TCPServer.selectDialer, ne_eq, hempty, not_false_eq_true, if_true, false_or]
    rw [Dialer.ofAction_eq_direct_iff, domain_direct_iff hdomain]
    exact iff_comm

/-- A target with an explicit direct rule, with and without a sniffed domain of
the dataset. -/
theorem selectDialer_follows_direct_rule :
    let data : Dataset := ⟨[⟨ascii "example.cn", false⟩], []⟩
    let rules : List RuleConfig := [⟨ascii "direct", ascii "ip", ascii "203.0.113.0/24"⟩]
    let c := Classifier.ofRules data rules
    ∀ domain ∈ [[], ascii "WWW.Example.cn."],
      (c.ip (.v4 0xCB007108#32)).action = .direct →
        ((TCPServer.mk c none).selectDialer 0 (.v4 0xCB007108#32) domain).2 = .direct := by
  intro data rules c domain hdomain
  have hdecide : ∀ domain ∈ [[], ascii "WWW.Example.cn."],
      ¬ CoversDomain (explicitDomainRules rules) domain ∧
        (domain = [] ∨ ((c.ip (.v4 0xCB007108#32)).action = .direct ↔
          CoversDomain (chinaDomainRules data) domain)) := by
    decide
  have hnew : new data rules = .ok c := rfl
  exact ((selectDialer_follows_explicit_ip_iff hnew none 0 0xCB007108#32 (by decide) domain
    (hdecide domain hdomain).1).mpr (hdecide domain hdomain).2).1

/-- A sniffed domain overrides the explicit rule of the address: with a direct
rule an unknown domain goes to the proxy, with a proxy rule a domain of the
dataset goes direct. -/
theorem selectDialer_ignores_explicit_ip :
    let data : Dataset := ⟨[⟨ascii "example.cn", false⟩], []⟩
    let directRules : List RuleConfig := [⟨ascii "direct", ascii "ip", ascii "203.0.113.0/24"⟩]
    let proxyRules : List RuleConfig := [⟨ascii "proxy", ascii "ip", ascii "203.0.113.0/24"⟩]
    let target := Addr.v4 0xCB007108#32
    (∃ c, new data directRules = .ok c ∧
      c.ip target = { action := .direct, source := .explicitIP } ∧
      (c.domain (ascii "example.org")).source = .default ∧
      ((TCPServer.mk c none).selectDialer 0 target (ascii "example.org")).2 = .proxy) ∧
    ∃ c, new data proxyRules = .ok c ∧
      c.ip target = { action := .proxy, source := .explicitIP } ∧
      (c.domain (ascii "example.cn")).source = .chinaDomain ∧
      ((TCPServer.mk c none).selectDialer 0 target (ascii "example.cn")).2 = .direct :=
  ⟨⟨_, rfl, by decide, by decide, by decide⟩, ⟨_, rfl, by decide, by decide, by decide⟩⟩

end Hy2Route.Dataplane
