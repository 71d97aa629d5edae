import Hy2Route.Foundation.Trie
import Hy2Route.Policy.Types

/-!
# Domain names and the suffix tree

`normalizeDomain` lower-cases a name, drops one final dot and accepts only
labels of letters, digits and inner hyphens. The tree stores each domain under
its labels from the last to the first. A lookup collects the suffix marks on
its way down and the exact mark of a full match, and a proxy mark wins.
-/

namespace Hy2Route.Policy

open Foundation

inductive DomainError where
  /-- domain is empty or too long -/
  | emptyOrTooLong
  /-- domain has an invalid label -/
  | invalidLabel
  /-- domain is not ASCII DNS syntax -/
  | notASCII
  deriving DecidableEq, Repr

def dot : UInt8 := 0x2E

def hyphen : UInt8 := 0x2D

def labelRune (char : Nat) : Bool :=
  (0x61 ≤ char && char ≤ 0x7A) || (0x30 ≤ char && char ≤ 0x39) || char == 0x2D

def checkLabel (label : Bytes) : Except DomainError Unit :=
  if label.length = 0 ∨ 63 < label.length ∨ label.head? = some hyphen ∨
      label.getLast? = some hyphen then
    .error .invalidLabel
  else if (runes label).all labelRune then .ok ()
  else .error .notASCII

def checkLabels : List Bytes → Except DomainError Unit
  | [] => .ok ()
  | label :: rest =>
      match checkLabel label with
      | .error err => .error err
      | .ok () => checkLabels rest

def normalizeDomain (value : Bytes) : Except DomainError Bytes :=
  let value := trimSuffix (toLower value) [dot]
  if value = [] ∨ 253 < value.length then .error .emptyOrTooLong
  else match checkLabels (split value dot) with
    | .error err => .error err
    | .ok () => .ok value

/-- One to 63 letters, digits and hyphens, with no hyphen at either end. -/
structure ValidLabel (label : Bytes) : Prop where
  nonempty : label ≠ []
  short : label.length ≤ 63
  head : label.head? ≠ some hyphen
  last : label.getLast? ≠ some hyphen
  bytes : ∀ b ∈ label, labelRune b.toNat = true

theorem labelRune_ascii (r : Nat) (h : labelRune r = true) : r < 0x80 := by
  simp only [labelRune, Bool.or_eq_true, Bool.and_eq_true, decide_eq_true_eq, beq_iff_eq] at h
  omega

theorem checkLabel_ok_iff (label : Bytes) : checkLabel label = .ok () ↔ ValidLabel label := by
  simp only [checkLabel, List.length_eq_zero_iff]
  constructor
  · intro h
    split_ifs at h with hbad hrunes
    push Not at hbad
    rw [runes_all_iff labelRune_ascii, List.all_eq_true] at hrunes
    exact ⟨hbad.1, hbad.2.1, hbad.2.2.1, hbad.2.2.2, hrunes⟩
  · intro h
    have hrunes := (runes_all_iff labelRune_ascii label).mpr (List.all_eq_true.mpr h.bytes)
    have hgood : ¬ (label = [] ∨ 63 < label.length ∨ label.head? = some hyphen ∨
        label.getLast? = some hyphen) := by
      rintro (h₁ | h₁ | h₁ | h₁)
      · exact h.nonempty h₁
      · exact absurd h.short (Nat.not_le.mpr h₁)
      · exact h.head h₁
      · exact h.last h₁
    rw [if_neg hgood, if_pos hrunes]

theorem checkLabels_ok_iff (labels : List Bytes) :
    checkLabels labels = .ok () ↔ ∀ label ∈ labels, ValidLabel label := by
  induction labels with
  | nil => simp [checkLabels]
  | cons label rest ih =>
      simp only [checkLabels, List.forall_mem_cons, ← checkLabel_ok_iff label]
      cases h : checkLabel label with
      | error err => simp
      | ok u => simpa using ih

/-- What normalization accepts, and the name it returns. -/
theorem normalizeDomain_ok_iff (value name : Bytes) :
    normalizeDomain value = .ok name ↔
      name = trimSuffix (toLower value) [dot] ∧ name ≠ [] ∧ name.length ≤ 253 ∧
        ∀ label ∈ split name dot, ValidLabel label := by
  simp only [normalizeDomain]
  constructor
  · intro h
    split_ifs at h with hlen
    push Not at hlen
    cases hc : checkLabels (split (trimSuffix (toLower value) [dot]) dot) with
    | error err => simp [hc] at h
    | ok u =>
        have hname : trimSuffix (toLower value) [dot] = name := by simpa [hc] using h
        rw [hname] at hc hlen
        exact ⟨hname.symm, hlen.1, hlen.2, (checkLabels_ok_iff _).mp hc⟩
  · rintro ⟨rfl, hne, hlen, hlabels⟩
    rw [if_neg (by push Not; exact ⟨hne, hlen⟩), (checkLabels_ok_iff _).mpr hlabels]

/-- Normalization sees only the lower-cased spelling. -/
theorem normalizeDomain_congr {a b : Bytes} (h : toLower a = toLower b) :
    normalizeDomain a = normalizeDomain b := by
  simp only [normalizeDomain, h]

theorem labelRune_or_dot {name : Bytes} (h : ∀ label ∈ split name dot, ValidLabel label)
    {b : UInt8} (hb : b ∈ name) : b = dot ∨ labelRune b.toNat = true := by
  apply (mem_split_or_eq dot hb).imp_right
  rintro ⟨label, hlabel, hin⟩
  exact (h label hlabel).bytes b hin

/-- A normalized name normalizes to itself. -/
theorem normalizeDomain_normal {value name : Bytes} (h : normalizeDomain value = .ok name) :
    normalizeDomain name = .ok name := by
  obtain ⟨-, hne, hlen, hvalid⟩ := (normalizeDomain_ok_iff value name).mp h
  refine (normalizeDomain_ok_iff name name).mpr ⟨?_, hne, hlen, hvalid⟩
  have hlower : toLower name = name := by
    refine toLower_eq_self fun b hb => ?_
    rcases labelRune_or_dot hvalid hb with rfl | hrune
    · decide
    · simp only [labelRune, Bool.or_eq_true, Bool.and_eq_true, decide_eq_true_eq,
        beq_iff_eq] at hrune
      omega
  rw [hlower]
  rcases eq_trimSuffix_singleton name dot with hdot | hself
  · -- A final dot would leave an empty label behind it.
    have hempty : [] ∈ split name dot := by
      rw [hdot, split, List.splitOn_append_cons_self]
      simp
    exact absurd rfl (hvalid [] hempty).nonempty
  · exact hself

/-- What a tree node stores besides its children. -/
structure DomainNode where
  suffix : Action
  exact : Action
  deriving DecidableEq

def DomainNode.blank : DomainNode := ⟨.unknown, .unknown⟩

def DomainNode.marked (node : DomainNode) (exact : Bool) : Action :=
  if exact then node.exact else node.suffix

abbrev DomainTree := Trie Bytes DomainNode

namespace DomainTree

def empty : DomainTree := Trie.leaf DomainNode.blank

/-- The labels of a domain from the last to the first. -/
def walk (domain : Bytes) : List Bytes := (split domain dot).reverse

def mark (exact : Bool) (action : Action) (node : DomainNode) : DomainNode :=
  if exact then { node with exact := selectAction node.exact action }
  else { node with suffix := selectAction node.suffix action }

def add (tree : DomainTree) (domain : Bytes) (exact : Bool) (action : Action) : DomainTree :=
  Trie.update DomainNode.blank (mark exact action) (walk domain) tree

/-- One step of a lookup; `rest` are the labels still to be followed. -/
def visit (result : Action) (node : DomainNode) (rest : List Bytes) : Action :=
  let result := if node.suffix ≠ .unknown then selectAction result node.suffix else result
  if rest = [] ∧ node.exact ≠ .unknown then selectAction result node.exact else result

def matchDomain (tree : DomainTree) (domain : Bytes) : Action × Bool :=
  let result := tree.foldPath visit .unknown (walk domain)
  (result, result ≠ .unknown)

end DomainTree

/-- A domain as it is added to a tree. -/
structure DomainRule where
  domain : Bytes
  exact : Bool
  action : Action
  deriving DecidableEq

/-- The rule's labels end the name's labels, or are all of them for an exact rule. -/
def DomainRule.covers (rule : DomainRule) (name : Bytes) : Prop :=
  if rule.exact then split rule.domain dot = split name dot
  else split rule.domain dot <:+ split name dot

instance DomainRule.decidableCovers (rule : DomainRule) (name : Bytes) :
    Decidable (rule.covers name) :=
  inferInstanceAs (Decidable (if rule.exact then _ else _))

namespace DomainTree

/-- Add rules from first to last. -/
def addAll (tree : DomainTree) (rules : List DomainRule) : DomainTree :=
  rules.foldl (fun tree rule => tree.add rule.domain rule.exact rule.action) tree

def ofRules (rules : List DomainRule) : DomainTree := empty.addAll rules

theorem marked_mark (kind exact : Bool) (action : Action) (node : DomainNode) :
    (mark kind action node).marked exact =
      if exact = kind then selectAction (node.marked kind) action else node.marked exact := by
  cases kind <;> cases exact <;> rfl

theorem ofRules_concat (rules : List DomainRule) (rule : DomainRule) :
    ofRules (rules ++ [rule]) = (ofRules rules).add rule.domain rule.exact rule.action := by
  simp [ofRules, addAll]

variable {P : Action → Prop}

/-- A node carries a mark exactly when some rule of the mark's kind ends there. -/
theorem marked_ofRules_iff (hP : Growing P) (exact : Bool) (rules : List DomainRule)
    (p : List Bytes) :
    P ((Trie.valueAt DomainNode.blank p (ofRules rules)).marked exact) ↔
      ∃ rule ∈ rules, rule.exact = exact ∧ walk rule.domain = p ∧ P rule.action := by
  induction rules using List.reverseRecOn with
  | nil => cases exact <;> simp [ofRules, addAll, empty, Trie.valueAt_leaf, DomainNode.blank,
      DomainNode.marked, hP.unknown]
  | append_singleton rules rule ih =>
      rw [ofRules_concat, add, Trie.valueAt_update]
      by_cases hp : p = walk rule.domain
      · subst hp
        by_cases hexact : rule.exact = exact
        · simp [hexact, marked_mark, hP.select, ih, or_and_right, exists_or]
        · simp [hexact, Ne.symm hexact, marked_mark, ih, or_and_right, exists_or]
      · simp [hp, Ne.symm hp, ih, or_and_right, exists_or]

theorem visit_iff (hP : Growing P) (result : Action) (node : DomainNode) (rest : List Bytes) :
    P (visit result node rest) ↔
      P result ∨ (P (node.marked false) ∨ rest = [] ∧ P (node.marked true)) := by
  have hs : ∀ a b, P (if b ≠ Action.unknown then selectAction a b else a) ↔ P a ∨ P b := by
    intro a b
    by_cases hb : b = .unknown
    · simp [hb, hP.unknown]
    · simp [hb, hP.select]
  simp only [visit, DomainNode.marked, if_true, Bool.false_eq_true, if_false]
  by_cases hr : rest = []
  · simp only [hr, true_and]
    rw [hs, hs, or_assoc]
  · simp only [hr, false_and, if_false, or_false]
    rw [hs]

theorem walk_ne_nil (domain : Bytes) : walk domain ≠ [] := by
  simp [walk, split]

/-- A growing property of the matched action comes from a rule that covers the name. -/
theorem matchDomain_iff (hP : Growing P) (rules : List DomainRule) (name : Bytes) :
    P ((ofRules rules).matchDomain name).1 ↔
      ∃ rule ∈ rules, rule.covers name ∧ P rule.action := by
  have hblank : ∀ s rest, visit s DomainNode.blank rest = s := by
    intro s rest
    simp [visit, DomainNode.blank]
  simp only [matchDomain]
  rw [Trie.foldPath_eq_foldTable hblank, foldTable_or (visit_iff hP)]
  simp only [hP.unknown, false_or, marked_ofRules_iff hP]
  constructor
  · rintro ⟨p, rest, -, happ, ⟨rule, hmem, hexact, rfl, haction⟩ |
      ⟨rfl, rule, hmem, hexact, rfl, haction⟩⟩
    · refine ⟨rule, hmem, ?_, haction⟩
      simp only [DomainRule.covers, hexact]
      exact List.reverse_prefix.mp ⟨rest, happ⟩
    · refine ⟨rule, hmem, ?_, haction⟩
      simp only [DomainRule.covers, hexact, if_true]
      exact List.reverse_injective (by simpa [walk] using happ)
  · rintro ⟨rule, hmem, hcov, haction⟩
    rcases hexact : rule.exact with _ | _
    · simp only [DomainRule.covers, hexact] at hcov
      obtain ⟨rest, happ⟩ := List.reverse_prefix.mpr hcov
      exact ⟨walk rule.domain, rest, walk_ne_nil _, happ,
        Or.inl ⟨rule, hmem, hexact, rfl, haction⟩⟩
    · simp only [DomainRule.covers, hexact, if_true] at hcov
      exact ⟨walk rule.domain, [], walk_ne_nil _, by simp [walk, hcov],
        Or.inr ⟨rfl, rule, hmem, hexact, rfl, haction⟩⟩

end DomainTree

end Hy2Route.Policy
