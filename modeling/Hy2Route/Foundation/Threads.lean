import Hy2Route.Foundation.Runs
import Mathlib.Algebra.BigOperators.Group.List.Basic
import Mathlib.Algebra.Order.BigOperators.Group.List
import Mathlib.Algebra.Order.Group.Int
import Mathlib.Algebra.Ring.Int.Defs
import Mathlib.Tactic.Common

/-!
# Calls that run as threads

A machine runs its calls as threads over a shared state. Each step of a thread is
atomic, takes what the environment answers as an input, may be blocked and may
start further calls. A run is any list of moves, so every interleaving is one.
An invariant has a part about the shared state and a part about each thread, and
is kept when a step keeps both its own part and the parts of the other threads.
An amount of the shared state may be the sum of what the threads hold of it.
Progress is counted in the steps that a thread has left.
-/

namespace Hy2Route.Foundation

/-- A shared state and the threads that work on it, by their numbers. -/
structure Threads (σ τ : Type*) where
  shared : σ
  threads : List τ

structure Machine (σ τ κ ε : Type*) where
  start : κ → τ
  exec : σ → Nat → τ → ε → Option (σ × τ × List κ)

inductive Move (κ ε : Type*) where
  | call (c : κ)
  | run (thread : Nat) (input : ε)

variable {σ τ κ ε : Type*}

namespace Machine

/-- A call starts a thread; a run takes one step of a thread that is not blocked. -/
def step (m : Machine σ τ κ ε) (s : Threads σ τ) : Move κ ε → Threads σ τ
  | .call c => ⟨s.shared, s.threads ++ [m.start c]⟩
  | .run i input =>
      match s.threads[i]? with
      | none => s
      | some t =>
          match m.exec s.shared i t input with
          | none => s
          | some (shared, t, calls) => ⟨shared, s.threads.set i t ++ calls.map m.start⟩

theorem step_run {m : Machine σ τ κ ε} {s : Threads σ τ} {i : Nat} {t t' : τ} {input : ε}
    {shared : σ} (ht : s.threads[i]? = some t)
    (h : m.exec s.shared i t input = some (shared, t', [])) :
    m.step s (.run i input) = ⟨shared, s.threads.set i t'⟩ := by
  simp [step, ht, h]

theorem step_blocked {m : Machine σ τ κ ε} {s : Threads σ τ} {i : Nat} {t : τ} {input : ε}
    (ht : s.threads[i]? = some t) (h : m.exec s.shared i t input = none) :
    m.step s (.run i input) = s := by
  simp [step, ht, h]

theorem step_run_cases (m : Machine σ τ κ ε) (s : Threads σ τ) (i : Nat) (input : ε) :
    m.step s (.run i input) = s ∨
      ∃ t shared t' calls, s.threads[i]? = some t ∧
        m.exec s.shared i t input = some (shared, t', calls) ∧
        m.step s (.run i input) = ⟨shared, s.threads.set i t' ++ calls.map m.start⟩ := by
  cases ht : s.threads[i]? with
  | none => exact Or.inl (by simp only [step, ht])
  | some t =>
      cases hexec : m.exec s.shared i t input with
      | none => exact Or.inl (step_blocked ht hexec)
      | some result =>
          exact Or.inr ⟨t, result.1, result.2.1, result.2.2, rfl, hexec,
            by simp only [step, ht, hexec]⟩

/-- A thread after a step is the one that took it, or was there before, or was started. -/
theorem getElem?_set_append {threads started : List τ} {i j : Nat} {t u : τ}
    (h : (threads.set i t ++ started)[j]? = some u) :
    (j = i ∧ u = t) ∨ (j ≠ i ∧ threads[j]? = some u) ∨ u ∈ started := by
  by_cases hlt : j < (threads.set i t).length
  · rw [List.getElem?_append_left hlt] at h
    by_cases heq : j = i
    · subst heq
      rw [List.length_set] at hlt
      rw [List.getElem?_set_self hlt] at h
      exact Or.inl ⟨rfl, (Option.some.inj h).symm⟩
    · rw [List.getElem?_set_ne (Ne.symm heq)] at h
      exact Or.inr (Or.inl ⟨heq, h⟩)
  · rw [List.getElem?_append_right (Nat.le_of_not_lt hlt)] at h
    exact Or.inr (Or.inr (List.mem_of_getElem? h))

theorem threads_step_run {m : Machine σ τ κ ε} {s : Threads σ τ} {i : Nat} {t t' : τ} {input : ε}
    {shared : σ} (ht : s.threads[i]? = some t)
    (h : m.exec s.shared i t input = some (shared, t', [])) :
    (m.step s (.run i input)).threads[i]? = some t' ∧
      ∀ j, j ≠ i → (m.step s (.run i input)).threads[j]? = s.threads[j]? := by
  rw [step_run ht h]
  exact ⟨List.getElem?_set_self (List.getElem?_eq_some_iff.mp ht).1,
    fun j hj => List.getElem?_set_ne (Ne.symm hj)⟩

/-- A thread whose every step brings it nearer to an end is there after enough of its
own steps. -/
theorem progress {m : Machine σ τ κ ε} {i : Nat} {ok : ε → Prop} {P : Nat → Threads σ τ → Prop}
    (hstep : ∀ left s input, ok input → P (left + 1) s → P left (m.step s (.run i input)))
    (hend : ∀ s input, P 0 s → P 0 (m.step s (.run i input))) {left : Nat} {s : Threads σ τ}
    (hs : P left s) {inputs : List ε} (hlen : left ≤ inputs.length)
    (hok : ∀ input ∈ inputs, ok input) : P 0 ((inputs.map (Move.run i)).foldl m.step s) := by
  induction inputs generalizing left s with
  | nil =>
      obtain rfl : left = 0 := Nat.le_zero.mp hlen
      exact hs
  | cons input rest ih =>
      have hrest : ∀ input ∈ rest, ok input := fun input hmem =>
        hok input (List.mem_cons_of_mem _ hmem)
      rw [List.map_cons, List.foldl_cons]
      cases left with
      | zero => exact ih (hend s input hs) (Nat.zero_le _) hrest
      | succ left =>
          exact ih (hstep left s input (hok input List.mem_cons_self) hs)
            (Nat.le_of_succ_le_succ hlen) hrest

/-- A move leaves the shared state as it is, or one thread takes a step. -/
theorem shared_step (m : Machine σ τ κ ε) (s : Threads σ τ) (move : Move κ ε) :
    (m.step s move).shared = s.shared ∨
      ∃ i input t t' calls, move = .run i input ∧ s.threads[i]? = some t ∧
        m.exec s.shared i t input = some ((m.step s move).shared, t', calls) := by
  cases move with
  | call c => exact Or.inl rfl
  | run i input =>
      rcases m.step_run_cases s i input with hsame | ⟨t, shared, t', calls, ht, hexec, hstep⟩
      · exact Or.inl (by rw [hsame])
      · exact Or.inr ⟨i, input, t, t', calls, rfl, ht, by rw [hstep]; exact hexec⟩

/-- A condition on the steps, read as one on the moves of a run. -/
def Meets (ok : σ → Nat → τ → ε → Prop) (s : Threads σ τ) : Move κ ε → Prop
  | .call _ => True
  | .run i input => ∀ t, s.threads[i]? = some t → ok s.shared i t input

instance Meets.decidable {ok : σ → Nat → τ → ε → Prop}
    [∀ s i t input, Decidable (ok s i t input)] (s : Threads σ τ) :
    ∀ move : Move κ ε, Decidable (Meets ok s move)
  | .call _ => inferInstanceAs (Decidable True)
  | .run i input =>
      match h : s.threads[i]? with
      | none => isTrue (by simp [Meets, h])
      | some t => decidable_of_iff (ok s.shared i t input) (by simp [Meets, h])

theorem allowed_meets_and {m : Machine σ τ κ ε} {ok other : σ → Nat → τ → ε → Prop}
    {s : Threads σ τ} {moves : List (Move κ ε)} (h : Allowed m.step (Meets ok) s moves)
    (hother : Allowed m.step (Meets other) s moves) :
    Allowed m.step (Meets fun s i t input => ok s i t input ∧ other s i t input) s moves := by
  refine (h.and hother).mono fun s move hboth => ?_
  cases move with
  | call c => trivial
  | run i input => exact fun t ht => ⟨hboth.1 t ht, hboth.2 t ht⟩

/-- A property of the shared state that a step keeps exactly when it meets the condition
holds at the end of exactly the runs that meet it. -/
theorem shared_iff_allowed {m : Machine σ τ κ ε} {ok : σ → Nat → τ → ε → Prop} {G P : σ → Prop}
    (hexec : ∀ {s i t input s' t' calls}, G s → m.exec s i t input = some (s', t', calls) →
      G s' ∧ (P s' ↔ P s ∧ ok s i t input))
    (hnone : ∀ {s i t input}, m.exec s i t input = none → ok s i t input) {s : Threads σ τ}
    (hs : G s.shared) (moves : List (Move κ ε)) :
    P (moves.foldl m.step s).shared ↔ P s.shared ∧ Allowed m.step (Meets ok) s moves := by
  have hstep (s : Threads σ τ) (move : Move κ ε) (hs : G s.shared) :
      G (m.step s move).shared ∧ (P (m.step s move).shared ↔ P s.shared ∧ Meets ok s move) := by
    cases move with
    | call c => exact ⟨hs, (and_iff_left trivial).symm⟩
    | run i input =>
        cases ht : s.threads[i]? with
        | none =>
            have hmeets : Meets ok s (Move.run i input : Move κ ε) := by simp [Meets, ht]
            have hsame : m.step s (.run i input) = s := by simp only [step, ht]
            rw [hsame, and_iff_left hmeets]
            exact ⟨hs, Iff.rfl⟩
        | some t =>
            have hmeets : Meets ok s (Move.run i input : Move κ ε) ↔ ok s.shared i t input := by
              simp [Meets, ht]
            rw [hmeets]
            cases hstep : m.exec s.shared i t input with
            | none =>
                rw [step_blocked ht hstep, and_iff_left (hnone hstep)]
                exact ⟨hs, Iff.rfl⟩
            | some result =>
                obtain ⟨s', t', calls⟩ := result
                have hshared : (m.step s (.run i input)).shared = s' := by
                  simp only [step, ht, hstep]
                rw [hshared]
                exact hexec hs hstep
  exact foldl_iff_allowed (G ∘ Threads.shared) (P ∘ Threads.shared) hstep hs moves

end Machine

/-- A property of the shared state and the number of threads, and one of each thread. -/
structure Invariant (G : σ → Nat → Prop) (L : σ → Nat → τ → Prop) (s : Threads σ τ) : Prop where
  shared : G s.shared s.threads.length
  threads : ∀ i t, s.threads[i]? = some t → L s.shared i t

namespace Machine

variable {m : Machine σ τ κ ε} {ok : σ → Nat → τ → ε → Prop} {G G₁ G₂ : σ → Nat → Prop}
  {L L₁ L₂ : σ → Nat → τ → Prop}

/-- Starting a call and every step that meets the condition keep the invariant. -/
structure Keeps (m : Machine σ τ κ ε) (ok : σ → Nat → τ → ε → Prop) (G : σ → Nat → Prop)
    (L : σ → Nat → τ → Prop) : Prop where
  start : ∀ {s n} c, G s n → G s (n + 1) ∧ L s n (m.start c)
  exec : ∀ {s n i t input s' t' calls}, G s n → i < n → L s i t → ok s i t input →
    m.exec s i t input = some (s', t', calls) → G s' n ∧ L s' i t'
  other : ∀ {s n i t input s' t' calls j u}, G s n → i < n → L s i t → ok s i t input →
    m.exec s i t input = some (s', t', calls) → j ≠ i → L s j u → L s' j u

theorem Keeps.append (h : m.Keeps ok G L) {s : Threads σ τ} (hs : Invariant G L s)
    (calls : List κ) : Invariant G L ⟨s.shared, s.threads ++ calls.map m.start⟩ := by
  induction calls generalizing s with
  | nil => simpa using hs
  | cons c rest ih =>
      obtain ⟨hG, hL⟩ := h.start c hs.shared
      have hone : Invariant G L ⟨s.shared, s.threads ++ [m.start c]⟩ := by
        refine ⟨by simpa using hG, fun i t ht => ?_⟩
        by_cases hi : i < s.threads.length
        · rw [List.getElem?_append_left hi] at ht
          exact hs.threads i t ht
        · obtain ⟨rfl, rfl⟩ : i = s.threads.length ∧ m.start c = t := by
            rw [List.getElem?_append_right (Nat.not_lt.mp hi), List.getElem?_singleton] at ht
            split_ifs at ht with hzero
            exact ⟨by omega, Option.some.inj ht⟩
          exact hL
      simpa using ih hone

theorem Keeps.step (h : m.Keeps ok G L) {s : Threads σ τ} {move : Move κ ε}
    (hok : Meets ok s move) (hs : Invariant G L s) : Invariant G L (m.step s move) := by
  cases move with
  | call c => exact h.append hs [c]
  | run i input =>
      rcases m.step_run_cases s i input with hsame | ⟨t, shared, t', calls, ht, hexec, hstep⟩
      · rw [hsame]
        exact hs
      · have hi : i < s.threads.length := (List.getElem?_eq_some_iff.mp ht).1
        obtain ⟨hG, hL⟩ := h.exec hs.shared hi (hs.threads i t ht) (hok t ht) hexec
        rw [hstep]
        refine h.append (s := ⟨shared, s.threads.set i t'⟩) ⟨by simpa using hG, ?_⟩ calls
        intro j u hu
        by_cases hj : j = i
        · subst hj
          rw [List.getElem?_set_self hi] at hu
          exact Option.some.inj hu ▸ hL
        · rw [List.getElem?_set_ne (Ne.symm hj)] at hu
          exact h.other hs.shared hi (hs.threads i t ht) (hok t ht) hexec hj
            (hs.threads j u hu)

/-- What starts and steps keep holds at the end of every run that meets the condition. -/
theorem Keeps.run (h : m.Keeps ok G L) {s : Threads σ τ} {moves : List (Move κ ε)}
    (hok : Allowed m.step (Meets ok) s moves) (hs : Invariant G L s) :
    Invariant G L (moves.foldl m.step s) :=
  hok.invariant (fun _ _ hmove hinv => h.step hmove hinv) hs

/-- What starts and all steps keep holds at the end of every run. -/
theorem Keeps.run_all (h : m.Keeps (fun _ _ _ _ => True) G L) {s : Threads σ τ}
    (hs : Invariant G L s) (moves : List (Move κ ε)) : Invariant G L (moves.foldl m.step s) := by
  refine foldl_invariant (fun _ move hinv => h.step ?_ hinv) hs moves
  cases move with
  | call c => trivial
  | run i input => exact fun _ _ => trivial

/-- An invariant may be kept with the help of one that is known to be kept. -/
theorem Keeps.extend (h : m.Keeps ok G₁ L₁)
    (hstart : ∀ {s n} c, G₁ s n → G₂ s n → G₂ s (n + 1) ∧ L₂ s n (m.start c))
    (hexec : ∀ {s n i t input s' t' calls}, G₁ s n ∧ G₂ s n → i < n → L₁ s i t ∧ L₂ s i t →
      ok s i t input → m.exec s i t input = some (s', t', calls) → G₂ s' n ∧ L₂ s' i t')
    (hother : ∀ {s n i t input s' t' calls j u}, G₁ s n ∧ G₂ s n → i < n →
      L₁ s i t ∧ L₂ s i t → ok s i t input → m.exec s i t input = some (s', t', calls) → j ≠ i →
      L₁ s j u ∧ L₂ s j u → L₂ s' j u) :
    m.Keeps ok (fun s n => G₁ s n ∧ G₂ s n) (fun s i t => L₁ s i t ∧ L₂ s i t) where
  start := by
    rintro s n c ⟨h₁, h₂⟩
    obtain ⟨hG₁, hL₁⟩ := h.start c h₁
    obtain ⟨hG₂, hL₂⟩ := hstart c h₁ h₂
    exact ⟨⟨hG₁, hG₂⟩, hL₁, hL₂⟩
  exec := by
    intro s n i t input s' t' calls hG hi hL hok hstep
    obtain ⟨hG₁, hL₁⟩ := h.exec hG.1 hi hL.1 hok hstep
    obtain ⟨hG₂, hL₂⟩ := hexec hG hi hL hok hstep
    exact ⟨⟨hG₁, hG₂⟩, hL₁, hL₂⟩
  other := by
    intro s n i t input s' t' calls j u hG hi hL hok hstep hj hu
    exact ⟨h.other hG.1 hi hL.1 hok hstep hj hu.1, hother hG hi hL hok hstep hj hu⟩

/-! ## Conservation -/

/-- The amount of the shared state is what the threads hold of it. -/
def Held (amount : σ → Int) (weight : τ → Int) (s : Threads σ τ) : Prop :=
  amount s.shared = (s.threads.map weight).sum

/-- Every step changes an amount of the shared state by what its thread gains. -/
structure Conserves (m : Machine σ τ κ ε) (amount : σ → Int) (weight : τ → Int) : Prop where
  start : ∀ c, weight (m.start c) = 0
  exec : ∀ {s i t input s' t' calls}, m.exec s i t input = some (s', t', calls) →
    amount s' + weight t = amount s + weight t'

/-- A call that holds nothing is started. -/
theorem Held.call {amount : σ → Int} {weight : τ → Int} {s : Threads σ τ}
    (hs : Held amount weight s) {c : κ} (hc : weight (m.start c) = 0) :
    Held amount weight (m.step s (.call c)) := by
  unfold Held at hs ⊢
  rw [Machine.step, List.map_append, List.sum_append, hs]
  simp [hc]

/-- A thread goes on and others are started. -/
theorem Held.set {amount : σ → Int} {weight : τ → Int} {s : Threads σ τ}
    (hs : Held amount weight s) {i : Nat} {t t' : τ} (ht : s.threads[i]? = some t) {shared : σ}
    {started : List τ}
    (h : amount shared + weight t = amount s.shared + weight t' + (started.map weight).sum) :
    Held amount weight ⟨shared, s.threads.set i t' ++ started⟩ := by
  obtain ⟨hi, hget⟩ := List.getElem?_eq_some_iff.mp ht
  change amount shared = ((s.threads.set i t' ++ started).map weight).sum
  rw [List.map_append, List.sum_append, List.map_set, List.sum_set',
    dif_pos (by rwa [List.length_map]), List.getElem_map, hget, ← hs]
  omega

theorem Conserves.step {amount : σ → Int} {weight : τ → Int} (h : m.Conserves amount weight)
    {s : Threads σ τ} (hs : Held amount weight s) (move : Move κ ε) :
    Held amount weight (m.step s move) := by
  have hstarted : ∀ calls : List κ, ((calls.map m.start).map weight).sum = 0 := by
    intro calls
    refine List.sum_eq_zero fun w hw => ?_
    obtain ⟨t, ht, rfl⟩ := List.mem_map.mp hw
    obtain ⟨c, -, rfl⟩ := List.mem_map.mp ht
    exact h.start c
  cases move with
  | call c => exact hs.call (h.start c)
  | run i input =>
      rcases m.step_run_cases s i input with hsame | ⟨t, shared, t', calls, ht, hexec, hstep⟩
      · rw [hsame]
        exact hs
      · rw [hstep]
        refine hs.set ht ?_
        rw [hstarted, add_zero]
        exact h.exec hexec

/-- In every run the amount is the sum of what the threads hold. -/
theorem Conserves.run {amount : σ → Int} {weight : τ → Int} (h : m.Conserves amount weight)
    {s : Threads σ τ} (hs : Held amount weight s) (moves : List (Move κ ε)) :
    Held amount weight (moves.foldl m.step s) := by
  have hstep : ∀ (s : Threads σ τ) (move : Move κ ε), Held amount weight s →
      Held amount weight (m.step s move) := fun _ move hinv => h.step hinv move
  exact foldl_invariant hstep hs moves

/-- The threads share an amount out among themselves: a step changes it by what its thread
and the calls that it starts gain. -/
structure Shares (m : Machine σ τ κ ε) (amount : σ → Int) (weight : τ → Int) : Prop where
  nonneg : ∀ t, 0 ≤ weight t
  exec : ∀ {s i t input s' t' calls}, weight t ≤ amount s →
    m.exec s i t input = some (s', t', calls) →
    amount s' + weight t = amount s + weight t' + ((calls.map m.start).map weight).sum

section Shares

variable {amount : σ → Int} {weight : τ → Int}

/-- Two threads do not hold more than there is. -/
theorem Held.add_weight_le {s : Threads σ τ} (hs : Held amount weight s)
    (hnonneg : ∀ t, 0 ≤ weight t) {i j : Nat} {t u : τ} (ht : s.threads[i]? = some t)
    (hu : s.threads[j]? = some u) (hne : i ≠ j) : weight t + weight u ≤ amount s.shared := by
  obtain ⟨hi, rfl⟩ := List.getElem?_eq_some_iff.mp ht
  have hweights : ∀ w ∈ (s.threads.map weight).set i 0, (0 : Int) ≤ w := by
    intro w hw
    rcases List.mem_or_eq_of_mem_set hw with hw | rfl
    · obtain ⟨t, -, rfl⟩ := List.mem_map.mp hw
      exact hnonneg t
    · exact le_rfl
  have hmem : weight u ∈ (s.threads.map weight).set i 0 := by
    refine List.mem_of_getElem? (i := j) ?_
    rw [List.getElem?_set_ne hne, List.getElem?_map, hu, Option.map_some]
  have hle := List.single_le_sum hweights _ hmem
  rw [List.sum_set', dif_pos (by rwa [List.length_map]), List.getElem_map, ← hs] at hle
  omega

theorem Held.weight_le {s : Threads σ τ} (hs : Held amount weight s)
    (hnonneg : ∀ t, 0 ≤ weight t) {i : Nat} {t : τ} (ht : s.threads[i]? = some t) :
    weight t ≤ amount s.shared := by
  rw [hs]
  refine List.single_le_sum (fun w hw => ?_) _ (List.mem_map_of_mem (List.mem_of_getElem? ht))
  obtain ⟨u, -, rfl⟩ := List.mem_map.mp hw
  exact hnonneg u

theorem Shares.step (h : m.Shares amount weight) {s : Threads σ τ} (hs : Held amount weight s)
    {move : Move κ ε} (hcall : ∀ c, move = .call c → weight (m.start c) = 0) :
    Held amount weight (m.step s move) := by
  cases move with
  | call c => exact hs.call (hcall c rfl)
  | run i input =>
      rcases m.step_run_cases s i input with hsame | ⟨t, shared, t', calls, ht, hexec, hstep⟩
      · rw [hsame]
        exact hs
      · rw [hstep]
        exact hs.set ht (h.exec (hs.weight_le h.nonneg ht) hexec)

end Shares

/-! ## Locks -/

/-- A lock with the number of its holder. Only a step of the holder releases it,
and a step acquires it for its own thread. -/
structure Guards (m : Machine σ τ κ ε) (lock : σ → Option Nat) (holds : τ → Prop) : Prop where
  start : ∀ c, ¬ holds (m.start c)
  exec : ∀ {s i t input s' t' calls}, m.exec s i t input = some (s', t', calls) →
    (holds t ↔ lock s = some i) →
    (holds t' ↔ lock s' = some i) ∧ ∀ j, j ≠ i → (lock s' = some j ↔ lock s = some j)

/-- The holder of a lock is the one thread at a point that holds it. -/
theorem Guards.keeps {lock : σ → Option Nat} {holds : τ → Prop} (h : m.Guards lock holds) :
    m.Keeps ok (fun s n => ∀ i, lock s = some i → i < n)
      (fun s i t => holds t ↔ lock s = some i) where
  start := by
    intro s n c hG
    refine ⟨fun i hi => Nat.lt_succ_of_lt (hG i hi), ?_⟩
    exact ⟨fun hc => absurd hc (h.start c), fun hn => absurd (hG n hn) (Nat.lt_irrefl n)⟩
  exec := by
    intro s n i t input s' t' calls hG hi hL _ hstep
    obtain ⟨hown, hothers⟩ := h.exec hstep hL
    refine ⟨fun j hj => ?_, hown⟩
    by_cases heq : j = i
    · exact heq ▸ hi
    · exact hG j ((hothers j heq).mp hj)
  other := by
    intro s n i t input s' t' calls j u _ _ hL _ hstep hj hu
    exact hu.trans ((h.exec hstep hL).2 j hj).symm

theorem lock_taken {lock : Option Nat} {i : Nat} (h : lock = none) (j : Nat) (hj : j ≠ i) :
    some i = some j ↔ lock = some j := by
  simp [h, Ne.symm hj]

theorem lock_released {lock : Option Nat} {i : Nat} (h : lock = some i) (j : Nat) (hj : j ≠ i) :
    none = some j ↔ lock = some j := by
  simp [h, Ne.symm hj]

/-- An invariant that is kept with the help of a lock: where a thread holds it, no
other thread takes a step at a point that holds it. -/
theorem Guards.extend {lock : σ → Option Nat} {holds : τ → Prop} (h : m.Guards lock holds)
    (hstart : ∀ {s n} c, G s n → G s (n + 1) ∧ L s n (m.start c))
    (hexec : ∀ {s n i t input s' t' calls}, G s n → (holds t → lock s ≠ none) → L s i t →
      ok s i t input → m.exec s i t input = some (s', t', calls) → G s' n ∧ L s' i t')
    (hother : ∀ {s i t input s' t' calls j u}, (holds u → lock s ≠ none ∧ ¬ holds t) →
      m.exec s i t input = some (s', t', calls) → L s j u → L s' j u) :
    m.Keeps ok (fun s n => (∀ i, lock s = some i → i < n) ∧ G s n)
      (fun s i t => (holds t ↔ lock s = some i) ∧ L s i t) := by
  refine h.keeps.extend (fun c _ hG => hstart c hG) ?_ ?_
  · intro s n i t input s' t' calls hG _ hL hok hstep
    exact hexec hG.2 (fun hholds => by simp [hL.1.mp hholds]) hL.2 hok hstep
  · intro s n i t input s' t' calls j u _ _ hL _ hstep hj hu
    refine hother (fun hholds => ?_) hstep hu.2
    have hlock : lock s = some j := hu.1.mp hholds
    refine ⟨by simp [hlock], fun hthis => hj ?_⟩
    exact Option.some.inj (hlock.symm.trans (hL.1.mp hthis))

end Machine

end Hy2Route.Foundation
