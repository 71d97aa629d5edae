import Hy2Route.Foundation.Threads

/-!
# Calls within calls

A thread may be a stack of calls that wait for each other: the call on top runs until it
needs another operation, which is put above it, or until it replies to the one below. What
the calls do to the outside is recorded, with the operation that the client had asked for.
A discipline says what a call may do on behalf of an operation and which replies an
operation gives; it has to be kept by single steps, and holds of what is recorded in every
run.
-/

namespace Hy2Route.Foundation

/-- How a call goes on. -/
inductive Act (φ ω ρ : Type*) where
  | goto (frame : φ)
  /-- It waits for the reply of an operation. -/
  | call (frame : φ) (op : ω)
  | reply (r : ρ)

/-- What a step of a call comes to. The operations that it starts run as threads of their own. -/
structure Outcome (σ φ ω ρ α : Type*) where
  state : σ
  event : Option α
  act : Act φ ω ρ
  started : List ω

structure Calls (σ φ ω ρ ε α : Type*) where
  enter : ω → φ
  step : σ → Nat → φ → Option ρ → ε → Option (Outcome σ φ ω ρ α)

/-- A thread: what the client had asked for, the operation of the thread, its calls from the
top on, and the reply that the call on top has received, or the last one has given. -/
structure CallStack (φ ω ρ : Type*) where
  root : ω
  op : ω
  frames : List φ
  reply : Option ρ

structure Recorded (σ ω α : Type*) where
  state : σ
  log : List (ω × α)

variable {σ φ ω ρ ε α : Type*}

def CallStack.next (t : CallStack φ ω ρ) (enter : ω → φ) (rest : List φ) :
    Act φ ω ρ → CallStack φ ω ρ
  | .goto frame => { t with frames := frame :: rest, reply := none }
  | .call frame op => { t with frames := enter op :: frame :: rest, reply := none }
  | .reply r => { t with frames := rest, reply := some r }

namespace Calls

def machine (c : Calls σ φ ω ρ ε α) :
    Machine (Recorded σ ω α) (CallStack φ ω ρ) (ω × ω) ε where
  start call := ⟨call.1, call.2, [c.enter call.2], none⟩
  exec s i t input :=
    match t.frames with
    | [] => none
    | frame :: rest =>
        (c.step s.state i frame t.reply input).map fun o =>
          (⟨o.state, s.log ++ o.event.toList.map (Prod.mk t.root)⟩, t.next c.enter rest o.act,
            o.started.map (Prod.mk t.root))

/-- A client asks for an operation, or a thread takes a step. -/
def move (c : Calls σ φ ω ρ ε α) (s : Threads (Recorded σ ω α) (CallStack φ ω ρ)) :
    Move ω ε → Threads (Recorded σ ω α) (CallStack φ ω ρ)
  | .call op => c.machine.step s (.call (op, op))
  | .run i input => c.machine.step s (.run i input)

def initial (state : σ) : Threads (Recorded σ ω α) (CallStack φ ω ρ) := ⟨⟨state, []⟩, []⟩

end Calls

/-- What is promised about calls. -/
structure Discipline (σ φ ω ρ α : Type*) where
  /-- The operation that a call performs. -/
  op : φ → ω
  /-- The second state may come after the first. -/
  Later : σ → σ → Prop
  Sound : σ → Prop
  /-- The call acts on behalf of the operation. -/
  Good : σ → ω → φ → Prop
  /-- The call can go on with the reply. -/
  Fits : σ → φ → ρ → Prop
  /-- The operation may give the reply. -/
  Answers : σ → ω → ρ → Prop
  Permits : ω → α → Prop

namespace Discipline

variable (d : Discipline σ φ ω ρ α) (c : Calls σ φ ω ρ ε α)

/-- Whatever the operation replies from now on, the call can go on with it. -/
def Waits (s : σ) (frame : φ) (op : ω) : Prop :=
  ∀ s' r, d.Later s s' → d.Answers s' op r → d.Fits s' frame r

def Continues (s : σ) (root : ω) (frame : φ) : Act φ ω ρ → Prop
  | .goto next => d.Good s root next ∧ d.op next = d.op frame
  | .call next op => d.Good s root next ∧ d.op next = d.op frame ∧ d.Good s root (c.enter op) ∧
      d.Waits s next op
  | .reply r => d.Answers s (d.op frame) r

/-- A step has done what it may. -/
structure Kept (s : σ) (root : ω) (frame : φ) (o : Outcome σ φ ω ρ α) : Prop where
  sound : d.Sound o.state
  later : d.Later s o.state
  event : ∀ e ∈ o.event, d.Permits root e
  started : ∀ op ∈ o.started, d.Good o.state root (c.enter op)
  act : d.Continues c o.state root frame o.act

structure Lawful : Prop where
  op_enter : ∀ op, d.op (c.enter op) = op
  later_refl : ∀ s, d.Later s s
  later_trans : ∀ {s₁ s₂ s₃}, d.Later s₁ s₂ → d.Later s₂ s₃ → d.Later s₁ s₃
  good_later : ∀ {s s' root frame}, d.Later s s' → d.Good s root frame → d.Good s' root frame
  fits_later : ∀ {s s' frame r}, d.Later s s' → d.Fits s frame r → d.Fits s' frame r
  answers_later : ∀ {s s' op r}, d.Later s s' → d.Answers s op r → d.Answers s' op r
  step : ∀ {s i root frame reply input o}, d.Sound s → d.Good s root frame →
    (∀ r ∈ reply, d.Fits s frame r) → c.step s i frame reply input = some o →
    d.Kept c s root frame o

/-- The calls wait for the reply of an operation, each for that of the one above. -/
def Suspended (s : σ) (root last : ω) : ω → List φ → Prop
  | op, [] => op = last
  | op, frame :: rest =>
      d.Good s root frame ∧ d.Waits s frame op ∧ Suspended s root last (d.op frame) rest

def Proper (s : σ) (t : CallStack φ ω ρ) : Prop :=
  match t.frames with
  | [] => ∀ r ∈ t.reply, d.Answers s t.op r
  | frame :: rest => d.Good s t.root frame ∧ (∀ r ∈ t.reply, d.Fits s frame r) ∧
      d.Suspended s t.root t.op (d.op frame) rest

/-- The discipline holds of everything that is there and of everything recorded. -/
structure Holds (s : Threads (Recorded σ ω α) (CallStack φ ω ρ)) : Prop where
  sound : d.Sound s.shared.state
  log : ∀ entry ∈ s.shared.log, d.Permits entry.1 entry.2
  threads : ∀ t ∈ s.threads, d.Proper s.shared.state t

variable {d c}

theorem Waits.later (h : d.Lawful c) {s s' : σ} {frame : φ} {op : ω} (hlater : d.Later s s')
    (hwaits : d.Waits s frame op) : d.Waits s' frame op :=
  fun s'' r hlater' hanswers => hwaits s'' r (h.later_trans hlater hlater') hanswers

theorem Suspended.later (h : d.Lawful c) {s s' : σ} {root last op : ω} {frames : List φ}
    (hlater : d.Later s s') (hs : d.Suspended s root last op frames) :
    d.Suspended s' root last op frames := by
  induction frames generalizing op with
  | nil => exact hs
  | cons frame rest ih =>
      exact ⟨h.good_later hlater hs.1, hs.2.1.later h hlater, ih hs.2.2⟩

theorem Proper.later (h : d.Lawful c) {s s' : σ} {t : CallStack φ ω ρ} (hlater : d.Later s s')
    (ht : d.Proper s t) : d.Proper s' t := by
  unfold Proper at ht ⊢
  cases hframes : t.frames with
  | nil =>
      rw [hframes] at ht
      exact fun r hr => h.answers_later hlater (ht r hr)
  | cons frame rest =>
      rw [hframes] at ht
      exact ⟨h.good_later hlater ht.1, fun r hr => h.fits_later hlater (ht.2.1 r hr),
        ht.2.2.later h hlater⟩

theorem proper_start (h : d.Lawful c) {s : σ} {root op : ω} (hgood : d.Good s root (c.enter op)) :
    d.Proper s (c.machine.start (root, op)) :=
  ⟨hgood, fun _ hr => absurd hr (by simp [Calls.machine]), h.op_enter op⟩

/-- The stack after a step of the call on top. -/
theorem Kept.proper_next (h : d.Lawful c) {s : σ} {t : CallStack φ ω ρ} {frame : φ}
    {rest : List φ} {o : Outcome σ φ ω ρ α} (hkept : d.Kept c s t.root frame o)
    (hrest : d.Suspended s t.root t.op (d.op frame) rest) :
    d.Proper o.state (t.next c.enter rest o.act) := by
  have hact := hkept.act
  have hrest := hrest.later h hkept.later
  cases ho : o.act with
  | goto next =>
      rw [ho] at hact
      refine ⟨hact.1, fun r hr => absurd hr (by simp [CallStack.next]), ?_⟩
      rw [hact.2]
      exact hrest
  | call next op =>
      rw [ho] at hact
      obtain ⟨hnext, hop, hentered, hwaits⟩ := hact
      refine ⟨hentered, fun r hr => absurd hr (by simp [CallStack.next]), hnext, ?_, ?_⟩
      · rwa [h.op_enter]
      · rw [hop]
        exact hrest
  | reply r =>
      rw [ho] at hact
      cases rest with
      | nil =>
          intro r' hr'
          obtain rfl : r = r' := Option.some.inj hr'
          have hlast : d.op frame = t.op := hrest
          change d.Answers o.state t.op r
          rw [← hlast]
          exact hact
      | cons below rest =>
          refine ⟨hrest.1, fun r' hr' => ?_, hrest.2.2⟩
          obtain rfl : r = r' := Option.some.inj hr'
          exact hrest.2.1 _ _ (h.later_refl _) hact

theorem Holds.run (h : d.Lawful c) {s : Threads (Recorded σ ω α) (CallStack φ ω ρ)}
    (hs : d.Holds s) (i : Nat) (input : ε) : d.Holds (c.machine.step s (.run i input)) := by
  rcases c.machine.step_run_cases s i input with hsame | ⟨t, shared, t', calls, ht, hexec, hstep⟩
  · rw [hsame]
    exact hs
  · rw [hstep]
    have hproper := hs.threads t (List.mem_of_getElem? ht)
    unfold Proper at hproper
    simp only [Calls.machine] at hexec
    cases hframes : t.frames with
    | nil =>
        rw [hframes] at hexec
        cases hexec
    | cons frame rest =>
        rw [hframes] at hexec hproper
        obtain ⟨hgood, hfits, hrest⟩ := hproper
        obtain ⟨o, ho, hresult⟩ := Option.map_eq_some_iff.mp hexec
        cases hresult
        have hkept := h.step hs.sound hgood hfits ho
        refine ⟨hkept.sound, ?_, ?_⟩
        · intro entry hentry
          rcases List.mem_append.mp hentry with hold | hnew
          · exact hs.log entry hold
          · obtain ⟨e, he, rfl⟩ := List.mem_map.mp hnew
            exact hkept.event e (Option.mem_toList.mp he)
        · intro u hu
          rcases List.mem_append.mp hu with hset | hstarted
          · rcases List.mem_or_eq_of_mem_set hset with hold | rfl
            · exact (hs.threads u hold).later h hkept.later
            · exact hkept.proper_next h hrest
          · obtain ⟨call, hcall, rfl⟩ := List.mem_map.mp hstarted
            obtain ⟨op, hop, rfl⟩ := List.mem_map.mp hcall
            exact proper_start h (hkept.started op hop)

/-- What a client may ask for: the operation may act on its own behalf. -/
def Asks (d : Discipline σ φ ω ρ α) (c : Calls σ φ ω ρ ε α)
    (s : Threads (Recorded σ ω α) (CallStack φ ω ρ)) : Move ω ε → Prop
  | .call op => d.Good s.shared.state op (c.enter op)
  | .run _ _ => True

theorem Holds.move (h : d.Lawful c) {s : Threads (Recorded σ ω α) (CallStack φ ω ρ)}
    {move : Move ω ε} (hasks : d.Asks c s move) (hs : d.Holds s) : d.Holds (c.move s move) := by
  cases move with
  | call op =>
      refine ⟨hs.sound, hs.log, fun t ht => ?_⟩
      rcases List.mem_append.mp ht with hold | hnew
      · exact hs.threads t hold
      · obtain rfl := List.mem_singleton.mp hnew
        exact proper_start h hasks
  | run i input => exact hs.run h i input

end Discipline

end Hy2Route.Foundation
