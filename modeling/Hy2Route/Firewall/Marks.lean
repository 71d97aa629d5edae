import Hy2Route.Config.Generate
import Hy2Route.Firewall.FailClosed

/-!
# The interception mark

The init script routes every packet with the firewall's mark to the local table.
The prerouting chain writes the reserved mark 1 to a packet before it asks for a
verdict, and nothing restores the old one. So a packet that goes on to its
destination leaves with mark 1, or with its own mark when the chain returned for
it before, and must differ from the firewall's mark in both cases.
-/

namespace Hy2Route.Firewall

open Foundation Netfilter

/-- The policy rule of the init script: packets with the mark go to the local table. -/
def captures (fwmark : Nat) (p : Packet) : Bool := p.mark == fwmark

/-- The packet goes on after the chain: it is neither dropped nor handed to the
transparent socket. -/
def Direct (port : Nat) (outcome : Outcome) (out : Packet) : Prop :=
  ¬ outcome.Intercepted port ∧ (outcome = .accept out ∨ outcome = .returned out)

section Prerouting

variable (cfg : NftConfig) (sets : TableSet → BitVec 32 → Bool) (alive : Bool) (p : Packet)

/-- What becomes of a LAN packet, whatever the sets hold: returned with its own
mark, returned with mark 1, or kept from going on. -/
theorem preroutingMangle_cases :
    (cfg.entersPrerouting p = false ∧ runTable cfg sets alive .preroutingMangle p = .returned p) ∨
    (cfg.entersPrerouting p = true ∧ cfg.hands sets p = false ∧
      runTable cfg sets alive .preroutingMangle p = .returned (p.withMark 1)) ∨
    (cfg.entersPrerouting p = true ∧ cfg.hands sets p = true ∧
      (runTable cfg sets alive .preroutingMangle p = .drop ∨
        (runTable cfg sets alive .preroutingMangle p).Intercepted cfg.transparentPort)) := by
  by_cases henters : cfg.entersPrerouting p = true
  · right
    cases alive with
    | false =>
        rw [runTable_preroutingMangle_lapsed, if_pos henters]
        cases hhands : cfg.hands sets p with
        | false => exact Or.inl ⟨henters, rfl, rfl⟩
        | true => exact Or.inr ⟨henters, rfl, Or.inl rfl⟩
    | true =>
        rw [runTable_preroutingMangle_heartbeat, if_pos henters]
        by_cases htakes : cfg.takes sets p = true
        · rw [if_pos htakes]
          exact Or.inr ⟨henters, hands_of_takes htakes, Or.inr ⟨_, rfl, rfl⟩⟩
        · rw [if_neg htakes]
          cases hhands : cfg.hands sets p with
          | false => exact Or.inl ⟨henters, rfl, rfl⟩
          | true => exact Or.inr ⟨henters, rfl, Or.inl rfl⟩
  · refine Or.inl ⟨Bool.eq_false_iff.mpr henters, ?_⟩
    cases alive with
    | false => rw [runTable_preroutingMangle_lapsed, if_neg henters]
    | true => rw [runTable_preroutingMangle_heartbeat, if_neg henters]

theorem direct_returned_iff {port : Nat} {q out : Packet} :
    Direct port (.returned q) out ↔ out = q := by
  constructor
  · rintro ⟨-, hout | hout⟩ <;> cases hout
    rfl
  · rintro rfl
    exact ⟨(fun ⟨_, h, _⟩ => by cases h), Or.inr rfl⟩

/-- A LAN packet that goes on is never captured by the policy rule exactly when
the firewall's mark is not the reserved one, for a packet that the chain decides,
and is not the packet's own, for a packet that it returns for at once. -/
theorem direct_packet_unmarked_iff :
    (∀ out, Direct cfg.transparentPort (runTable cfg sets alive .preroutingMangle p) out →
        captures cfg.fwmark out = false) ↔
      if cfg.entersPrerouting p = true then cfg.hands sets p = true ∨ cfg.fwmark ≠ 1
      else p.mark ≠ cfg.fwmark := by
  rcases preroutingMangle_cases cfg sets alive p with
    ⟨henters, hrun⟩ | ⟨henters, hhands, hrun⟩ | ⟨henters, hhands, hrun⟩
  · simp only [hrun, direct_returned_iff, forall_eq, henters, Bool.false_eq_true, if_false]
    simp [captures]
  · simp only [hrun, direct_returned_iff, forall_eq, henters, if_true, hhands, Bool.false_eq_true,
      false_or]
    rw [captures, beq_eq_false_iff_ne, ne_comm]
    rfl
  · simp only [henters, if_true, hhands, true_or, iff_true]
    rintro out ⟨hnot, hout⟩
    rcases hrun with hdrop | hintercepted
    · rw [hdrop] at hout
      rcases hout with hout | hout <;> cases hout
    · exact absurd hintercepted hnot

end Prerouting

/-- Both sides accept the firewall mark 1. A direct packet then leaves the chain
with that mark, with the heartbeat and without it, and the policy rule captures it. -/
theorem reserved_fwmark_captures_direct_packets :
    let cfg : NftConfig := ⟨"br-lan", none, 12345, 1, 2, 1053, true⟩
    let firewall : Config.FirewallConfig := ⟨ascii "hy2route", ascii "br-lan", 1, 2, 166, []⟩
    let sets : TableSet → BitVec 32 → Bool
      | .bypass4, daddr => (bypassElements []).any (·.contains daddr)
      | .china4, daddr => daddr == 0xCB007108#32
      | _, _ => false
    let p : Packet := ⟨"br-lan", .ipv4 0xC0A80102#32 0xCB007108#32, .tcp, 443, false, 0, none, none⟩
    Generate.marks (some 1) none = .ok (cfg.fwmark, cfg.bypassMark) ∧
      Config.defaultBypassMark firewall = .ok firewall ∧
      Config.validateFirewall firewall = .ok () ∧
      firewall.mark.toNat = cfg.fwmark ∧ firewall.bypassMark.toNat = cfg.bypassMark ∧
      ∀ alive, ∃ out, Direct 12345 (runTable cfg sets alive .preroutingMangle p) out ∧
        captures cfg.fwmark out = true := by
  intro cfg firewall sets p
  refine ⟨by decide, rfl, by decide, rfl, rfl, fun alive => ⟨p.withMark 1, ?_, rfl⟩⟩
  have hrun : runTable cfg sets alive .preroutingMangle p = .returned (p.withMark 1) := by
    cases alive <;> decide
  rw [hrun]
  exact direct_returned_iff.mpr rfl

end Hy2Route.Firewall
