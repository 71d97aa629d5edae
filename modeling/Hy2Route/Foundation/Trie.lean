import Mathlib.Data.List.Infix
import Mathlib.Tactic.Common

/-!
# Tries over paths

A node stores one value and a finite list of labelled children. Following a
path creates missing nodes with a fixed blank value, so a tree is read as a
total function from paths to values: a path that was never created holds the
blank value. A walk that stops at the first missing child then agrees with a
fold over every prefix of the path, because blank values leave it unchanged.
-/

namespace Hy2Route.Foundation

variable {κ V σ : Type*}

inductive Trie (κ V : Type*) where
  | node (value : V) (children : List (κ × Trie κ V))

namespace Trie

/-- The value stored at the root. -/
def value : Trie κ V → V
  | node v _ => v

def children : Trie κ V → List (κ × Trie κ V)
  | node _ cs => cs

/-- A node without children. -/
def leaf (v : V) : Trie κ V := node v []

variable [DecidableEq κ]

def child (t : Trie κ V) (k : κ) : Option (Trie κ V) := t.children.lookup k

def setChild (t : Trie κ V) (k : κ) (c : Trie κ V) : Trie κ V :=
  node t.value ((k, c) :: t.children)

omit [DecidableEq κ] in
@[simp] theorem value_setChild (t : Trie κ V) (k : κ) (c : Trie κ V) :
    (t.setChild k c).value = t.value := rfl

theorem child_setChild (t : Trie κ V) (k j : κ) (c : Trie κ V) :
    (t.setChild k c).child j = if j = k then some c else t.child j := by
  by_cases h : j = k
  · simp [setChild, child, children, h]
  · have hb : (j == k) = false := by simpa using h
    simp [setChild, child, children, List.lookup_cons, h, hb]

/-- Change the value at the end of a path, creating missing nodes on the way. -/
def update (blank : V) (f : V → V) : List κ → Trie κ V → Trie κ V
  | [], t => node (f t.value) t.children
  | k :: path, t => t.setChild k (update blank f path ((t.child k).getD (leaf blank)))

/-- The value at the end of a path; a missing node holds the blank value. -/
def valueAt (blank : V) : List κ → Trie κ V → V
  | [], t => t.value
  | k :: path, t =>
      match t.child k with
      | none => blank
      | some c => valueAt blank path c

@[simp] theorem valueAt_nil (blank : V) (t : Trie κ V) : valueAt blank [] t = t.value := rfl

theorem valueAt_leaf (blank : V) (path : List κ) : valueAt blank path (leaf blank) = blank := by
  cases path with
  | nil => rfl
  | cons k path => simp [valueAt, leaf, child, children]

theorem valueAt_cons (blank : V) (k : κ) (path : List κ) (t : Trie κ V) :
    valueAt blank (k :: path) t = valueAt blank path ((t.child k).getD (leaf blank)) := by
  cases h : t.child k with
  | none => simp [valueAt, h, valueAt_leaf]
  | some c => simp [valueAt, h]

/-- An update changes the value of exactly its own path. -/
theorem valueAt_update (blank : V) (f : V → V) (p q : List κ) (t : Trie κ V) :
    valueAt blank q (update blank f p t) =
      if q = p then f (valueAt blank p t) else valueAt blank q t := by
  induction p generalizing q t with
  | nil =>
      cases q with
      | nil => simp [update, value]
      | cons j q => simp [update, valueAt_cons, child, children]
  | cons k p ih =>
      cases q with
      | nil => simp [update]
      | cons j q =>
          rw [valueAt_cons, update, child_setChild]
          by_cases hjk : j = k
          · subst j
            simp [ih, valueAt_cons]
          · simp [hjk, valueAt_cons]

/-- Walk a path from the root and fold the values met below it. The step also
sees what remains of the path; the walk stops at the first missing child. -/
def foldPath (step : σ → V → List κ → σ) : σ → List κ → Trie κ V → σ
  | s, [], _ => s
  | s, k :: rest, t =>
      match t.child k with
      | none => s
      | some c => foldPath step (step s c.value rest) rest c

end Trie

/-- The same fold over a total table of values, one step per nonempty prefix. -/
def foldTable (step : σ → V → List κ → σ) : (List κ → V) → σ → List κ → σ
  | _, s, [] => s
  | f, s, k :: rest => foldTable step (fun p => f (k :: p)) (step s (f [k]) rest) rest

theorem foldTable_blank {step : σ → V → List κ → σ} {blank : V}
    (hblank : ∀ s rest, step s blank rest = s) (s : σ) (path : List κ) :
    foldTable step (fun _ => blank) s path = s := by
  induction path generalizing s with
  | nil => rfl
  | cons k rest ih => rw [foldTable, hblank, ih]

/-- Stopping at a missing child loses nothing when blank values change nothing. -/
theorem Trie.foldPath_eq_foldTable [DecidableEq κ] {step : σ → V → List κ → σ} {blank : V}
    (hblank : ∀ s rest, step s blank rest = s) (s : σ) (path : List κ) (t : Trie κ V) :
    t.foldPath step s path = foldTable step (fun p => valueAt blank p t) s path := by
  induction path generalizing s t with
  | nil => rfl
  | cons k rest ih =>
      cases h : t.child k with
      | none =>
          have hf : (fun p => valueAt blank (k :: p) t) = fun _ => blank := by
            funext p
            simp [valueAt, h]
          simp only [foldPath, foldTable, h]
          rw [hf, valueAt_cons, h, Option.getD_none, valueAt_leaf, hblank,
            foldTable_blank hblank]
      | some c =>
          have hf : (fun p => valueAt blank (k :: p) t) = fun p => valueAt blank p c := by
            funext p
            simp [valueAt, h]
          simp only [foldPath, foldTable, h]
          rw [ih, hf, valueAt_cons, h, Option.getD_some, valueAt_nil]

/-- A property that every step can only add holds at the end exactly when it
holds at the start or some nonempty prefix of the path adds it. -/
theorem foldTable_or {step : σ → V → List κ → σ} {P : σ → Prop} {Q : V → List κ → Prop}
    (hstep : ∀ s v rest, P (step s v rest) ↔ P s ∨ Q v rest)
    (f : List κ → V) (s : σ) (path : List κ) :
    P (foldTable step f s path) ↔
      P s ∨ ∃ p rest, p ≠ [] ∧ p ++ rest = path ∧ Q (f p) rest := by
  induction path generalizing f s with
  | nil =>
      refine ⟨Or.inl, ?_⟩
      rintro (h | ⟨p, rest, hne, happ, -⟩)
      · exact h
      · exact absurd (List.append_eq_nil_iff.mp happ).1 hne
  | cons k tail ih =>
      rw [foldTable, ih, hstep]
      constructor
      · rintro ((h | h) | ⟨p, rest, hne, happ, h⟩)
        · exact Or.inl h
        · exact Or.inr ⟨[k], tail, by simp, rfl, h⟩
        · exact Or.inr ⟨k :: p, rest, by simp, by simp [happ], h⟩
      · rintro (h | ⟨p, rest, hne, happ, h⟩)
        · exact Or.inl (Or.inl h)
        · cases p with
          | nil => exact absurd rfl hne
          | cons j p =>
              obtain ⟨rfl, htail⟩ := List.cons.inj happ
              by_cases hp : p = []
              · subst hp
                have hrest : rest = tail := htail
                exact Or.inl (Or.inr (hrest ▸ h))
              · exact Or.inr ⟨p, rest, hp, htail, h⟩

/-- Keep the last value that is not blank. -/
def lastStep [DecidableEq V] (blank : V) (s v : V) (_ : List κ) : V :=
  if v = blank then s else v

/-- The last nonblank value is the one stored at the longest nonempty prefix
that stores any; without such a prefix the start value is kept. -/
theorem foldTable_lastStep_cases [DecidableEq V] (blank : V) (f : List κ → V) (s : V)
    (path : List κ) :
    (∃ p, p ≠ [] ∧ p <+: path ∧ f p ≠ blank ∧
        foldTable (lastStep blank) f s path = f p ∧
        ∀ q, q <+: path → p.length < q.length → f q = blank) ∨
      ((∀ p, p ≠ [] → p <+: path → f p = blank) ∧
        foldTable (lastStep blank) f s path = s) := by
  induction path generalizing f s with
  | nil =>
      refine Or.inr ⟨fun p hne hp => absurd (List.prefix_nil.mp hp) hne, rfl⟩
  | cons k rest ih =>
      rw [foldTable]
      rcases ih (fun p => f (k :: p)) (lastStep blank s (f [k]) rest) with
        ⟨p, -, hp, hv, hr, hlong⟩ | ⟨hall, hr⟩
      · refine Or.inl ⟨k :: p, by simp, by simpa using hp, hv, hr, ?_⟩
        intro q hq hlt
        cases q with
        | nil => simp at hlt
        | cons j q =>
            obtain ⟨rfl, hq'⟩ := List.cons_prefix_cons.mp hq
            exact hlong q hq' (by simpa using hlt)
      · -- Nothing below `k` stores a value, so the node at `k` decides.
        have hbelow : ∀ q, q <+: k :: rest → 1 < q.length → f q = blank := by
          intro q hq hlt
          cases q with
          | nil => simp at hlt
          | cons j q =>
              obtain ⟨rfl, hq'⟩ := List.cons_prefix_cons.mp hq
              refine hall q ?_ hq'
              rintro rfl
              simp at hlt
        by_cases hk : f [k] = blank
        · refine Or.inr ⟨?_, by simpa [lastStep, hk] using hr⟩
          intro p hne hp
          by_cases hlt : 1 < p.length
          · exact hbelow p hp hlt
          · cases p with
            | nil => exact absurd rfl hne
            | cons j p =>
                obtain ⟨rfl, -⟩ := List.cons_prefix_cons.mp hp
                have hnil : p = [] := by simpa using hlt
                rw [hnil, hk]
        · exact Or.inl ⟨[k], by simp, by simp, hk, by simpa [lastStep, hk] using hr,
            fun q hq hlt => hbelow q hq (by simpa using hlt)⟩

/-- Starting from the root's own value, the longest prefix that stores a value decides. -/
theorem foldTable_longest [DecidableEq V] (blank : V) (f : List κ → V) (path : List κ) :
    (∃ p, p <+: path ∧ f p ≠ blank ∧
        foldTable (lastStep blank) f (f []) path = f p ∧
        ∀ q, q <+: path → p.length < q.length → f q = blank) ∨
      ((∀ p, p <+: path → f p = blank) ∧
        foldTable (lastStep blank) f (f []) path = blank) := by
  rcases foldTable_lastStep_cases blank f (f []) path with
    ⟨p, -, hp, hv, hr, hlong⟩ | ⟨hall, hr⟩
  · exact Or.inl ⟨p, hp, hv, hr, hlong⟩
  · by_cases hroot : f [] = blank
    · refine Or.inr ⟨?_, hr.trans hroot⟩
      intro p hp
      by_cases hne : p = []
      · rw [hne, hroot]
      · exact hall p hne hp
    · refine Or.inl ⟨[], List.nil_prefix, hroot, hr, ?_⟩
      intro q hq hlt
      exact hall q (List.ne_nil_of_length_pos hlt) hq

end Hy2Route.Foundation
