import Hy2Route.Foundation.NetIP
import Hy2Route.Foundation.Trie
import Hy2Route.Policy.Types

/-!
# The IPv4 prefix tree

A prefix is stored under its bits, and equal prefixes combine their actions.
A lookup follows all 32 bits of an address and keeps the action of the deepest
node that has one: longest-prefix match.
-/

namespace Hy2Route.Policy

open Foundation

/-- Bit `false` leads to the child `zero`, bit `true` to the child `one`. -/
abbrev IPv4Tree := Trie Bool Action

namespace IPv4Tree

def empty : IPv4Tree := Trie.leaf .unknown

def add (tree : IPv4Tree) (pre : IPv4Prefix) (action : Action) : IPv4Tree :=
  Trie.update .unknown (selectAction · action) pre.path tree

/-- One step of a lookup: a node's action replaces the result when it has one. -/
def visit (result action : Action) (_ : List Bool) : Action :=
  if action ≠ .unknown then action else result

def matchAddr (tree : IPv4Tree) (addr : Addr) : Action × Bool :=
  match addr with
  | .v4 a =>
      let result := tree.foldPath visit tree.value (addrBits a)
      (result, result ≠ .unknown)
  | _ => (.unknown, false)

/-! ## Bits of the four octets -/

/-- A bit as the tree reads it: from its octet, shifted to the lowest place. -/
def octetBit (bytes : Bytes) (bitIndex : Nat) : Bool :=
  bytes.getD (bitIndex / 8) 0 >>> UInt8.ofNat (7 - bitIndex % 8) &&& 1 != 0

theorem shifted_bit : ∀ b < 256, ∀ n < 8,
    (UInt8.ofNat b >>> UInt8.ofNat n &&& 1 != 0) = (UInt8.ofNat b).toBitVec.getLsbD n := by
  decide +kernel

theorem octetBit_as4 (a : BitVec 32) {i : Nat} (hi : i < 32) :
    octetBit (Addr.as4 a) i = a.getMsbD i := by
  have hoctet : ∀ start, (Addr.octet a start >>> UInt8.ofNat (7 - i % 8) &&& 1 != 0) =
      a.getLsbD (start + (7 - i % 8)) := by
    intro start
    have hbit := shifted_bit _ (Addr.octet a start).toNat_lt (7 - i % 8) (by omega)
    rw [UInt8.ofNat_toNat] at hbit
    rw [hbit, Addr.octet, BitVec.getLsbD_extractLsb', decide_eq_true (by omega), Bool.true_and]
  rw [BitVec.getMsbD_eq_getLsbD, decide_eq_true hi, Bool.true_and, octetBit, Addr.as4]
  have hcase : i / 8 = 0 ∨ i / 8 = 1 ∨ i / 8 = 2 ∨ i / 8 = 3 := by omega
  rcases hcase with h | h | h | h <;> rw [h] <;> refine (hoctet _).trans (congrArg _ ?_) <;> omega

/-- Insertion follows the bits of the masked octets. -/
theorem add_octets (tree : IPv4Tree) (pre : IPv4Prefix) (action : Action) :
    tree.add pre action = Trie.update .unknown (selectAction · action)
      ((List.range pre.bits).map (octetBit (Addr.as4 pre.masked))) tree := by
  have hpath : (List.range pre.bits).map (octetBit (Addr.as4 pre.masked)) = pre.path := by
    refine List.map_congr_left fun i hi => octetBit_as4 _ ?_
    exact Nat.lt_of_lt_of_le (List.mem_range.mp hi) pre.bits_le
  rw [hpath, add]

/-- A lookup follows the bits of the octets. -/
theorem matchAddr_octets (tree : IPv4Tree) (a : BitVec 32) :
    (tree.matchAddr (.v4 a)).1 =
      tree.foldPath visit tree.value ((List.range 32).map (octetBit (Addr.as4 a))) := by
  have hbits : (List.range 32).map (octetBit (Addr.as4 a)) = addrBits a :=
    List.map_congr_left fun i hi => octetBit_as4 a (List.mem_range.mp hi)
  rw [hbits, matchAddr]

end IPv4Tree

/-- A prefix with the action it is added under. -/
structure PrefixRule where
  pre : IPv4Prefix
  action : Action
  deriving DecidableEq

def PrefixRule.covers (rule : PrefixRule) (a : BitVec 32) : Prop := rule.pre.contains a = true

instance PrefixRule.decidableCovers (rule : PrefixRule) (a : BitVec 32) :
    Decidable (rule.covers a) :=
  inferInstanceAs (Decidable (_ = true))

/-- No covering rule of the list has a longer prefix. -/
def PrefixRule.Longest (rule : PrefixRule) (rules : List PrefixRule) (a : BitVec 32) : Prop :=
  rule.covers a ∧ ∀ other ∈ rules, other.covers a → other.pre.bits ≤ rule.pre.bits

namespace IPv4Tree

/-- Add rules from first to last. -/
def addAll (tree : IPv4Tree) (rules : List PrefixRule) : IPv4Tree :=
  rules.foldl (fun tree rule => tree.add rule.pre rule.action) tree

def ofRules (rules : List PrefixRule) : IPv4Tree := empty.addAll rules

theorem ofRules_concat (rules : List PrefixRule) (rule : PrefixRule) :
    ofRules (rules ++ [rule]) = (ofRules rules).add rule.pre rule.action := by
  simp [ofRules, addAll]

variable {P : Action → Prop}

/-- A node combines the actions of the rules that end there. -/
theorem valueAt_ofRules_iff (hP : Growing P) (rules : List PrefixRule) (p : List Bool) :
    P (Trie.valueAt .unknown p (ofRules rules)) ↔
      ∃ rule ∈ rules, rule.pre.path = p ∧ P rule.action := by
  induction rules using List.reverseRecOn with
  | nil => simp [ofRules, addAll, empty, Trie.valueAt_leaf, hP.unknown]
  | append_singleton rules rule ih =>
      rw [ofRules_concat, add, Trie.valueAt_update]
      by_cases hp : p = rule.pre.path
      · subst hp
        simp [hP.select, ih, or_and_right, exists_or]
      · simp [hp, Ne.symm hp, ih, or_and_right, exists_or]

theorem visit_eq_lastStep : visit = lastStep (κ := Bool) Action.unknown := by
  funext result action rest
  by_cases h : action = .unknown <;> simp [visit, lastStep, h]

/-- Longest-prefix match: the rules of the longest covering prefix decide, and
without a covering rule there is no action. -/
theorem matchAddr_cases (rules : List PrefixRule) (hknown : ∀ rule ∈ rules, rule.action ≠ .unknown)
    (a : BitVec 32) :
    (∃ rule ∈ rules, rule.Longest rules a ∧
        ∀ {P : Action → Prop}, Growing P →
          (P ((ofRules rules).matchAddr (.v4 a)).1 ↔
            ∃ other ∈ rules, other.Longest rules a ∧ P other.action)) ∨
      ((∀ rule ∈ rules, ¬ rule.covers a) ∧
        ((ofRules rules).matchAddr (.v4 a)).1 = .unknown) := by
  have hblank : ∀ s rest, visit s .unknown rest = s := by
    intro s rest
    simp [visit]
  let f := fun p => Trie.valueAt Action.unknown p (ofRules rules)
  have hmatch : ((ofRules rules).matchAddr (.v4 a)).1 =
      foldTable (lastStep .unknown) f (f []) (addrBits a) := by
    simp only [matchAddr, f]
    rw [Trie.foldPath_eq_foldTable hblank, visit_eq_lastStep, Trie.valueAt_nil]
  have hstored : ∀ rule ∈ rules, f rule.pre.path ≠ .unknown := fun rule hmem =>
    (valueAt_ofRules_iff growing_known rules _).mpr ⟨rule, hmem, rfl, hknown rule hmem⟩
  rw [hmatch]
  rcases foldTable_longest .unknown f (addrBits a) with ⟨p, hp, hne, hr, hlong⟩ | ⟨hall, hr⟩
  · left
    obtain ⟨rule, hmem, rfl, -⟩ := (valueAt_ofRules_iff growing_known rules p).mp hne
    have hcover : ∀ other ∈ rules, other.covers a → other.pre.bits ≤ rule.pre.bits := by
      intro other hother hcov
      by_contra hlt
      refine hstored other hother (hlong _ ((other.pre.path_prefix_iff a).mpr hcov) ?_)
      simpa using hlt
    have hrule : rule.Longest rules a := ⟨(rule.pre.path_prefix_iff a).mp hp, hcover⟩
    refine ⟨rule, hmem, hrule, ?_⟩
    intro P hP
    rw [hr, valueAt_ofRules_iff hP]
    constructor
    · rintro ⟨other, hother, hpath, haction⟩
      have hbits : other.pre.bits = rule.pre.bits := by
        simpa using congrArg List.length hpath
      refine ⟨other, hother, ⟨?_, fun third hthird hcov => ?_⟩, haction⟩
      · exact (other.pre.path_prefix_iff a).mp (hpath ▸ hp)
      · exact hbits ▸ hcover third hthird hcov
    · rintro ⟨other, hother, hlongest, haction⟩
      have hbits : other.pre.bits = rule.pre.bits :=
        le_antisymm (hcover other hother hlongest.1) (hlongest.2 rule hmem hrule.1)
      exact ⟨other, hother, IPv4Prefix.path_eq_of_contains hlongest.1 hrule.1 hbits, haction⟩
  · refine Or.inr ⟨?_, hr⟩
    intro rule hmem hcov
    exact hstored rule hmem (hall _ ((rule.pre.path_prefix_iff a).mpr hcov))

/-- An address has an action exactly when some rule covers it. -/
theorem matchAddr_known_iff (rules : List PrefixRule)
    (hknown : ∀ rule ∈ rules, rule.action ≠ .unknown) (a : BitVec 32) :
    ((ofRules rules).matchAddr (.v4 a)).1 ≠ .unknown ↔ ∃ rule ∈ rules, rule.covers a := by
  rcases matchAddr_cases rules hknown a with ⟨rule, hmem, hlong, hP⟩ | ⟨hnone, hr⟩
  · refine ⟨fun _ => ⟨rule, hmem, hlong.1⟩, fun _ => ?_⟩
    exact (hP growing_known).mpr ⟨rule, hmem, hlong, hknown rule hmem⟩
  · refine ⟨fun h => absurd hr h, ?_⟩
    rintro ⟨rule, hmem, hcov⟩
    exact absurd hcov (hnone rule hmem)

/-- The answer is proxy exactly when a longest covering rule says proxy. -/
theorem matchAddr_proxy_iff (rules : List PrefixRule)
    (hknown : ∀ rule ∈ rules, rule.action ≠ .unknown) (a : BitVec 32) :
    ((ofRules rules).matchAddr (.v4 a)).1 = .proxy ↔
      ∃ rule ∈ rules, rule.Longest rules a ∧ rule.action = .proxy := by
  rcases matchAddr_cases rules hknown a with ⟨-, -, -, hP⟩ | ⟨hnone, hr⟩
  · exact hP growing_proxy
  · simp only [hr, reduceCtorEq, false_iff]
    rintro ⟨rule, hmem, hlong, -⟩
    exact hnone rule hmem hlong.1

end IPv4Tree

end Hy2Route.Policy
