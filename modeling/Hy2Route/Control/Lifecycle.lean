import Hy2Route.Firewall.FailClosed
import Hy2Route.Foundation.Duration
import Hy2Route.Foundation.Runs

/-!
# The life of the core

The application starts its three servers and waits until all of them listen. Then it opens
the control socket and keeps up the heartbeat: an entry of the packet filter with a
lifetime, written again and again. The heartbeat ends with the application, and with the
first write that fails. While the entry lives, packets are handed to the transparent port;
when it has lapsed they are dropped.

## Implementation notes

Times are in nanoseconds. Each move carries its time. A command that writes the entry has a
start, may take effect once, and ends with success or failure; the entry is replaced in one
transaction. The ticker keeps one tick, so a wait that began with a call since `c` is over
at the first tick after `c`.
-/

namespace Hy2Route.Control

open Foundation Firewall Netfilter

/-- The period of the ticker. -/
def heartbeatPeriod : Nat := (3 * second).toNat

/-- The lifetime of the entry. -/
def heartbeatTTL : Nat := (10 * second).toNat

inductive ServerName where
  | dns
  | tcp
  | udp
  deriving DecidableEq

inductive RunResult (ε : Type) where
  | ok
  | server (err : ε)
  | control
  | context
  deriving DecidableEq

/-- Where `Run` is. -/
inductive Main (ε : Type) where
  /-- It waits for the servers to listen, in their order. -/
  | waits (first : ServerName) (rest : List ServerName)
  | listens
  | serves
  | returned (result : RunResult ε) (time : Nat)
  deriving DecidableEq

/-- Where the heartbeat is. -/
inductive Beat where
  | off
  /-- A command runs that was started at this time. -/
  | calls (since : Nat)
  /-- The command that was started at this time has succeeded. -/
  | waits (since : Nat)
  | stopped
  deriving DecidableEq

structure Life (ε : Type) where
  now : Nat
  ready : ServerName → Bool
  ended : ServerName → Option (Option ε)
  /-- The channel of the servers' results. -/
  errs : List (Option ε)
  errsClosed : Bool
  main : Main ε
  cancelled : Option Nat
  control : Bool
  beat : Beat
  tickerStart : Nat
  /-- When the entry of the packet filter was last written. -/
  entry : Option Nat

inductive LifeMove (ε : Type) where
  | ready (name : ServerName)
  | ends (name : ServerName) (err : Option ε)
  | closeErrs
  /-- What `Run` receives. -/
  | takeReady
  | takeErr
  | takeDone
  | listen (ok : Bool)
  /-- The context of the process is cancelled. -/
  | cancel
  /-- The command takes effect. -/
  | write
  | exit (ok : Bool)
  | tick
  /-- The heartbeat sees that the context is cancelled. -/
  | quit
  /-- Time passes. -/
  | idle

namespace Life

variable {ε : Type}

def start : Life ε where
  now := 0
  ready _ := false
  ended _ := none
  errs := []
  errsClosed := false
  main := .waits .dns [.tcp, .udp]
  cancelled := none
  control := false
  beat := .off
  tickerStart := 0
  entry := none

/-- What is deferred in `Run`: the context is cancelled and the socket closed. -/
def finish (s : Life ε) (result : RunResult ε) : Life ε :=
  { s with
    main := .returned result s.now
    cancelled := s.cancelled.or (some s.now)
    control := false }

def resultOf : Option ε → RunResult ε
  | none => .ok
  | some err => .server err

/-- The first tick after a time. -/
def nextTick (start time : Nat) : Nat :=
  start + ((time - start) / heartbeatPeriod + 1) * heartbeatPeriod

def act (s : Life ε) : LifeMove ε → Life ε
  | .ready name =>
      if s.ended name = none then { s with ready := Function.update s.ready name true } else s
  | .ends name err =>
      if s.ended name = none then
        { s with ended := Function.update s.ended name (some err), errs := s.errs ++ [err] }
      else s
  | .closeErrs =>
      if (s.ended .dns).isSome ∧ (s.ended .tcp).isSome ∧ (s.ended .udp).isSome then
        { s with errsClosed := true }
      else s
  | .takeReady =>
      match s.main with
      | .waits first rest =>
          if s.ready first then
            match rest with
            | [] => { s with main := .listens }
            | next :: rest => { s with main := .waits next rest }
          else s
      | _ => s
  | .takeErr =>
      match s.main, s.errs with
      | .waits _ _, err :: more => { s with errs := more }.finish (resultOf err)
      | .waits _ _, [] => if s.errsClosed then s.finish .ok else s
      | .serves, some err :: more => { s with errs := more }.finish (.server err)
      | .serves, none :: more => { s with errs := more }
      | .serves, [] => if s.errsClosed then s.finish .ok else s
      | _, _ => s
  | .takeDone =>
      match s.main with
      | .waits _ _ => if s.cancelled.isSome then s.finish .context else s
      | _ => s
  | .listen ok =>
      match s.main with
      | .listens =>
          if ok then
            { s with
              main := .serves
              control := true
              tickerStart := s.now
              -- the heartbeat looks at the context first
              beat := if s.cancelled.isSome then .stopped else .calls s.now }
          else s.finish .control
      | _ => s
  | .cancel => { s with cancelled := s.cancelled.or (some s.now) }
  | .write =>
      match s.beat with
      | .calls _ => { s with entry := some s.now }
      | _ => s
  | .exit ok =>
      match s.beat with
      | .calls since =>
          -- a command that succeeds has taken effect
          if ok then
            if s.entry.any (since ≤ ·) then { s with beat := .waits since } else s
          else { s with beat := .stopped }
      | _ => s
  | .tick =>
      match s.beat with
      | .waits since =>
          if nextTick s.tickerStart since ≤ s.now then
            { s with beat := if s.cancelled.isSome then .stopped else .calls s.now }
          else s
      | _ => s
  | .quit =>
      match s.beat with
      | .waits _ => if s.cancelled.isSome then { s with beat := .stopped } else s
      | _ => s
  | .idle => s

def step (s : Life ε) (move : Nat × LifeMove ε) : Life ε :=
  { s with now := move.1 }.act move.2

/-- The entry lives. -/
def alive (s : Life ε) : Bool := s.entry.any fun time => s.now < time + heartbeatTTL

/-! ## What `Run` does -/

/-- Nothing has been done to the packet filter yet. -/
def Before (s : Life ε) : Prop := s.beat = .off ∧ s.entry = none ∧ s.control = false

structure Inv (s : Life ε) : Prop where
  /-- The servers that are no longer waited for listen. -/
  waits : ∀ first rest, s.main = .waits first rest →
    s.Before ∧ ∀ name, name ≠ first → name ∉ rest → s.ready name = true
  listens : s.main = .listens → s.Before ∧ ∀ name, s.ready name = true
  beats : s.beat ≠ .off → ∀ name, s.ready name = true
  entry : s.entry.isSome → s.beat ≠ .off
  control : s.control = true → s.main = .serves
  serves : s.main = .serves → s.beat ≠ .off
  errs : ∀ err ∈ s.errs, ∃ name, s.ended name = some err
  /-- An error that `Run` has not seen is still in the channel. -/
  unseen : (∀ result time, s.main ≠ .returned result time) → ∀ name err,
    s.ended name = some (some err) → some err ∈ s.errs
  closed : s.errsClosed = true → ∀ name, (s.ended name).isSome
  past : ∀ since, s.cancelled = some since → since ≤ s.now
  cancels : ∀ result time, s.main = .returned result time →
    time ≤ s.now ∧ ∃ since, s.cancelled = some since ∧ since ≤ time
  /-- What the result says about the servers. -/
  results : ∀ result time, s.main = .returned result time →
    match result with
    | .ok => (∀ name, s.ended name = some none) ∨ s.Before ∧ ∃ name, s.ended name = some none
    | .server err => ∃ name, s.ended name = some (some err)
    | .control => s.Before ∧ ∀ name, s.ready name = true
    | .context => s.Before

theorem inv_start : (start : Life ε).Inv where
  waits := by
    rintro first rest ⟨rfl, rfl⟩
    exact ⟨⟨rfl, rfl, rfl⟩, fun name => by cases name <;> simp⟩
  listens := by simp [start]
  beats := by simp [start]
  entry := by simp [start]
  control := by simp [start]
  serves := by simp [start]
  errs := by simp [start]
  unseen := by simp [start]
  closed := by simp [start]
  past := by simp [start]
  cancels := by simp [start]
  results := by simp [start]

section Act

variable {s : Life ε} (h : s.Inv)

include h

theorem Inv.later {time : Nat} (htime : s.now ≤ time) : Inv { s with now := time } :=
  ⟨h.waits, h.listens, h.beats, h.entry, h.control, h.serves, h.errs, h.unseen, h.closed,
    fun since hsince => Nat.le_trans (h.past since hsince) htime,
    fun result since hmain => ⟨Nat.le_trans (h.cancels result since hmain).1 htime,
      (h.cancels result since hmain).2⟩, h.results⟩

/-- `Run` returns, with what it has learnt. -/
theorem Inv.finish {result : RunResult ε} {errs : List (Option ε)} (hsub : errs ⊆ s.errs)
    (hresult : match result with
      | .ok => (∀ name, s.ended name = some none) ∨
          (s.beat = .off ∧ s.entry = none) ∧ ∃ name, s.ended name = some none
      | .server err => ∃ name, s.ended name = some (some err)
      | .control => (s.beat = .off ∧ s.entry = none) ∧ ∀ name, s.ready name = true
      | .context => s.beat = .off ∧ s.entry = none) :
    Inv (Life.finish { s with errs := errs } result) := by
  have hmain : (Life.finish { s with errs := errs } result).main = .returned result s.now := rfl
  have hcancels : ∃ since, (s.cancelled.or (some s.now)) = some since ∧ since ≤ s.now := by
    cases hcancelled : s.cancelled with
    | none => exact ⟨s.now, rfl, Nat.le_refl _⟩
    | some since => exact ⟨since, rfl, h.past since hcancelled⟩
  refine ⟨?_, ?_, h.beats, h.entry, ?_, ?_, fun err herr => h.errs err (hsub herr), ?_, h.closed,
    ?_, ?_, ?_⟩
  · intro first rest heq
    rw [hmain] at heq
    cases heq
  · intro heq
    rw [hmain] at heq
    cases heq
  · intro hcontrol
    cases hcontrol
  · intro heq
    rw [hmain] at heq
    cases heq
  · intro hnot
    exact absurd hmain (hnot result s.now)
  · intro since hsince
    obtain ⟨since', hsince', hle⟩ := hcancels
    obtain rfl := Option.some.inj (hsince'.symm.trans hsince)
    exact hle
  · intro result' time heq
    obtain ⟨rfl, rfl⟩ := Main.returned.inj (hmain.symm.trans heq)
    exact ⟨Nat.le_refl _, hcancels⟩
  · intro result' time heq
    obtain ⟨rfl, rfl⟩ := Main.returned.inj (hmain.symm.trans heq)
    cases result with
    | ok => exact hresult.imp_right fun hb => ⟨⟨hb.1.1, hb.1.2, rfl⟩, hb.2⟩
    | server err => exact hresult
    | control => exact ⟨⟨hresult.1.1, hresult.1.2, rfl⟩, hresult.2⟩
    | context => exact ⟨hresult.1, hresult.2, rfl⟩

theorem Inv.ready (name : ServerName) : (s.act (.ready name)).Inv := by
  simp only [Life.act]
  split_ifs
  · have hmono {n : ServerName} (hn : s.ready n = true) :
        Function.update s.ready name true n = true := by
      by_cases heq : n = name
      · rw [heq, Function.update_self]
      · rwa [Function.update_of_ne heq]
    refine ⟨fun first rest hmain => ?_, fun hmain => ?_, fun hbeat n => hmono (h.beats hbeat n),
      h.entry, h.control, h.serves, h.errs, h.unseen, h.closed, h.past, h.cancels,
      fun result time hmain => ?_⟩
    · obtain ⟨hbefore, hready⟩ := h.waits first rest hmain
      exact ⟨hbefore, fun n hn hrest => hmono (hready n hn hrest)⟩
    · obtain ⟨hbefore, hready⟩ := h.listens hmain
      exact ⟨hbefore, fun n => hmono (hready n)⟩
    · have hresult := h.results result time hmain
      cases result with
      | ok => exact hresult
      | server err => exact hresult
      | control => exact ⟨hresult.1, fun n => hmono (hresult.2 n)⟩
      | context => exact hresult
  · exact h

theorem Inv.ends (name : ServerName) (err : Option ε) : (s.act (.ends name err)).Inv := by
  simp only [Life.act]
  split_ifs with hnone
  · have hmono {n : ServerName} {e : Option ε} (hn : s.ended n = some e) :
        Function.update s.ended name (some err) n = some e := by
      have hne : n ≠ name := by
        rintro rfl
        rw [hnone] at hn
        cases hn
      rwa [Function.update_of_ne hne]
    refine ⟨h.waits, h.listens, h.beats, h.entry, h.control, h.serves, fun e he => ?_,
      fun hrunning n e hn => ?_, fun hclosed n => ?_, h.past, h.cancels,
      fun result time hmain => ?_⟩
    · rcases List.mem_append.mp he with he | he
      · obtain ⟨n, hn⟩ := h.errs e he
        exact ⟨n, hmono hn⟩
      · rw [List.mem_singleton.mp he]
        exact ⟨name, Function.update_self ..⟩
    · simp only at hn
      by_cases heq : n = name
      · rw [heq, Function.update_self] at hn
        rw [Option.some.inj hn]
        exact List.mem_append_right _ List.mem_cons_self
      · rw [Function.update_of_ne heq] at hn
        exact List.mem_append_left _ (h.unseen hrunning n e hn)
    · obtain ⟨e, he⟩ := Option.isSome_iff_exists.mp (h.closed hclosed n)
      simp only [hmono he, Option.isSome_some]
    · have hresult := h.results result time hmain
      cases result with
      | ok =>
          exact hresult.imp (fun hall n => hmono (hall n)) fun hb => ⟨hb.1, hb.2.imp fun n => hmono⟩
      | server err => exact hresult.imp fun n => hmono
      | control => exact hresult
      | context => exact hresult
  · exact h

theorem Inv.closeErrs : (s.act .closeErrs).Inv := by
  simp only [Life.act]
  split_ifs with hall
  · refine ⟨h.waits, h.listens, h.beats, h.entry, h.control, h.serves, h.errs, h.unseen,
      fun _ name => ?_, h.past, h.cancels, h.results⟩
    cases name with
    | dns => exact hall.1
    | tcp => exact hall.2.1
    | udp => exact hall.2.2
  · exact h

theorem Inv.takeReady : (s.act .takeReady).Inv := by
  simp only [Life.act]
  cases hmain : s.main with
  | waits first rest =>
      obtain ⟨hbefore, hready⟩ := h.waits first rest hmain
      simp only
      split_ifs with hfirst
      · have hrunning : ∀ result time, s.main ≠ .returned result time := by
          intro result time heq
          rw [hmain] at heq
          cases heq
        cases rest with
        | nil =>
            refine ⟨by simp, fun _ => ⟨hbefore, fun name => ?_⟩, h.beats, h.entry, ?_, by simp,
              h.errs, fun _ => h.unseen hrunning, h.closed, h.past, by simp, by simp⟩
            · by_cases heq : name = first
              · rw [heq]
                exact hfirst
              · exact hready name heq (List.not_mem_nil)
            · intro hcontrol
              have hoff := hbefore.2.2
              rw [hcontrol] at hoff
              cases hoff
        | cons next rest =>
            refine ⟨?_, by simp, h.beats, h.entry, ?_, by simp, h.errs,
              fun _ => h.unseen hrunning, h.closed, h.past, by simp, by simp⟩
            · intro first' rest' heq
              obtain ⟨rfl, rfl⟩ := Main.waits.inj heq
              refine ⟨hbefore, fun name hname hrest => ?_⟩
              by_cases heq : name = first
              · rw [heq]
                exact hfirst
              · exact hready name heq (by simp [hname, hrest])
            · intro hcontrol
              have hoff := hbefore.2.2
              rw [hcontrol] at hoff
              cases hoff
      · exact h
  | _ => exact h

/-- The channel is closed and empty: no server has failed. -/
theorem Inv.all_ended (hclosed : s.errsClosed = true) (hempty : s.errs = [])
    (hrunning : ∀ result time, s.main ≠ .returned result time) (name : ServerName) :
    s.ended name = some none := by
  obtain ⟨err, herr⟩ := Option.isSome_iff_exists.mp (h.closed hclosed name)
  cases err with
  | none => exact herr
  | some err =>
      have hmem := h.unseen hrunning name err herr
      rw [hempty] at hmem
      cases hmem

theorem Inv.takeErr : (s.act .takeErr).Inv := by
  have hsame : ({ s with errs := s.errs } : Life ε) = s := rfl
  simp only [Life.act]
  cases hmain : s.main with
  | waits first rest =>
      have hrunning : ∀ result time, s.main ≠ .returned result time := by simp [hmain]
      obtain ⟨⟨hoff, hnone, -⟩, -⟩ := h.waits first rest hmain
      cases herrs : s.errs with
      | nil =>
          simp only
          split_ifs with hclosed
          · rw [← hsame]
            exact h.finish (List.Subset.refl _) (Or.inl (h.all_ended hclosed herrs hrunning))
          · exact h
      | cons err more =>
          obtain ⟨name, hname⟩ := h.errs err (by rw [herrs]; exact List.mem_cons_self)
          have hsub : more ⊆ s.errs := by
            rw [herrs]
            exact List.subset_cons_self _ _
          refine h.finish hsub ?_
          cases err with
          | none => exact Or.inr ⟨⟨hoff, hnone⟩, name, hname⟩
          | some err => exact ⟨name, hname⟩
  | serves =>
      have hrunning : ∀ result time, s.main ≠ .returned result time := by simp [hmain]
      cases herrs : s.errs with
      | nil =>
          simp only
          split_ifs with hclosed
          · rw [← hsame]
            exact h.finish (List.Subset.refl _) (Or.inl (h.all_ended hclosed herrs hrunning))
          · exact h
      | cons err more =>
          have hsub : more ⊆ s.errs := by
            rw [herrs]
            exact List.subset_cons_self _ _
          cases err with
          | none =>
              refine ⟨by simp, by simp, h.beats, h.entry, fun _ => rfl, fun _ => h.serves hmain,
                fun err herr => h.errs err (hsub herr), fun _ name err hname => ?_, h.closed,
                h.past, by simp, by simp⟩
              have hmem := h.unseen hrunning name err hname
              rw [herrs] at hmem
              simpa using hmem
          | some err =>
              obtain ⟨name, hname⟩ := h.errs (some err) (by rw [herrs]; exact List.mem_cons_self)
              exact h.finish hsub ⟨name, hname⟩
  | _ => exact h

theorem Inv.takeDone : (s.act .takeDone).Inv := by
  simp only [Life.act]
  cases hmain : s.main with
  | waits first rest =>
      obtain ⟨⟨hoff, hnone, -⟩, -⟩ := h.waits first rest hmain
      simp only
      split_ifs
      · exact h.finish (List.Subset.refl _) ⟨hoff, hnone⟩
      · exact h
  | _ => exact h

theorem Inv.listen (ok : Bool) : (s.act (.listen ok)).Inv := by
  simp only [Life.act]
  cases hmain : s.main with
  | listens =>
      obtain ⟨⟨hoff, hnone, hsocket⟩, hready⟩ := h.listens hmain
      have hrunning : ∀ result time, s.main ≠ .returned result time := by simp [hmain]
      simp only
      split_ifs with hok hcancelled
      · exact ⟨by simp, by simp, fun _ => hready, by simp, by simp, by simp, h.errs,
          fun _ => h.unseen hrunning, h.closed, h.past, by simp, by simp⟩
      · exact ⟨by simp, by simp, fun _ => hready, by simp, by simp, by simp, h.errs,
          fun _ => h.unseen hrunning, h.closed, h.past, by simp, by simp⟩
      · exact h.finish (List.Subset.refl _) ⟨⟨hoff, hnone⟩, hready⟩
  | _ => exact h

theorem Inv.cancel : (s.act .cancel).Inv := by
  refine ⟨h.waits, h.listens, h.beats, h.entry, h.control, h.serves, h.errs, h.unseen, h.closed,
    fun since hsince => ?_, fun result time hmain => ?_, h.results⟩
  · cases hcancelled : s.cancelled with
    | none =>
        simp only [act, hcancelled, Option.none_or] at hsince
        rw [← Option.some.inj hsince]
        exact Nat.le_refl _
    | some earlier =>
        simp only [act, hcancelled, Option.some_or] at hsince
        rw [← Option.some.inj hsince]
        exact h.past earlier hcancelled
  · obtain ⟨hle, since, hsince, hbefore⟩ := h.cancels result time hmain
    exact ⟨hle, since, by simp [act, hsince], hbefore⟩

/-- The heartbeat goes on from where it is not off. -/
theorem Inv.beat (hon : s.beat ≠ .off) {beat : Beat} (hbeat : beat ≠ .off) (entry : Option Nat) :
    Inv { s with beat := beat, entry := entry } := by
  refine ⟨fun first rest hmain => ?_, fun hmain => ?_, fun _ => h.beats hon, fun _ => hbeat,
    h.control, fun _ => hbeat, h.errs, h.unseen, h.closed, h.past, h.cancels,
    fun result time hmain => ?_⟩
  · exact absurd (h.waits first rest hmain).1.1 hon
  · exact absurd (h.listens hmain).1.1 hon
  · have hresult := h.results result time hmain
    cases result with
    | ok =>
        rcases hresult with hall | ⟨hbefore, -⟩
        · exact Or.inl hall
        · exact absurd hbefore.1 hon
    | server err => exact hresult
    | control => exact absurd hresult.1.1 hon
    | context => exact absurd hresult.1 hon

theorem Inv.act (move : LifeMove ε) : (s.act move).Inv := by
  have hkeep {beat : Beat} (hs : s.beat ≠ .off) (hbeat : beat ≠ .off) :
      Inv { s with beat := beat } := h.beat hs hbeat s.entry
  cases move with
  | ready name => exact h.ready name
  | ends name err => exact h.ends name err
  | closeErrs => exact h.closeErrs
  | takeReady => exact h.takeReady
  | takeErr => exact h.takeErr
  | takeDone => exact h.takeDone
  | listen ok => exact h.listen ok
  | cancel => exact h.cancel
  | write =>
      simp only [Life.act]
      cases hbeat : s.beat with
      | calls since =>
          exact h.beat (by rw [hbeat]; simp) (by simp) (some s.now)
      | _ => exact h
  | exit ok =>
      simp only [Life.act]
      cases hbeat : s.beat with
      | calls since =>
          simp only
          split_ifs
          · exact hkeep (by rw [hbeat]; simp) (by simp)
          · exact h
          · exact hkeep (by rw [hbeat]; simp) (by simp)
      | _ => exact h
  | tick =>
      simp only [Life.act]
      cases hbeat : s.beat with
      | waits since =>
          simp only
          split_ifs
          · exact hkeep (by rw [hbeat]; simp) (by simp)
          · exact hkeep (by rw [hbeat]; simp) (by simp)
          · exact h
      | _ => exact h
  | quit =>
      simp only [Life.act]
      cases hbeat : s.beat with
      | waits since =>
          simp only
          split_ifs
          · exact hkeep (by rw [hbeat]; simp) (by simp)
          · exact h
      | _ => exact h
  | idle => exact h

end Act

/-- The times of the moves do not go back. -/
def Ordered (s : Life ε) (move : Nat × LifeMove ε) : Prop := s.now ≤ move.1

instance (s : Life ε) (move : Nat × LifeMove ε) : Decidable (Ordered s move) :=
  inferInstanceAs (Decidable (_ ≤ _))

theorem Inv.step {s : Life ε} (h : s.Inv) {move : Nat × LifeMove ε} (hordered : Ordered s move) :
    (s.step move).Inv :=
  (h.later hordered).act move.2

theorem inv_run {moves : List (Nat × LifeMove ε)} (h : Allowed step Ordered start moves) :
    (moves.foldl step (start : Life ε)).Inv :=
  h.invariant (fun _ _ hordered hinv => hinv.step hordered) inv_start

/-- `Run` takes one result after the other. -/
def takeErrs (s : Life ε) (n : Nat) : Life ε :=
  (List.replicate n (s.now, LifeMove.takeErr)).foldl step s

theorem takeErrs_returned {s : Life ε} {result : RunResult ε} {time : Nat}
    (h : s.main = .returned result time) (n : Nat) : s.takeErrs n = s := by
  have hstep : s.step (s.now, .takeErr) = s := by
    simp only [Life.step, Life.act, h]
    rw [← h]
  unfold takeErrs
  induction n with
  | zero => rfl
  | succ n ih => rw [List.replicate_succ, List.foldl_cons, hstep, ih]

/-- Once there is an error in the channel, `Run` returns with an error. -/
theorem takeErrs_serves {s : Life ε} (hmain : s.main = .serves) (herr : ∃ err, some err ∈ s.errs) :
    ∃ err, some err ∈ s.errs ∧
      (s.takeErrs s.errs.length).main = .returned (.server err) s.now := by
  obtain ⟨errs, herrs⟩ : ∃ errs, s.errs = errs := ⟨_, rfl⟩
  rw [herrs] at herr ⊢
  induction errs generalizing s with
  | nil =>
      obtain ⟨_, hmem⟩ := herr
      cases hmem
  | cons first rest ih =>
      cases first with
      | none =>
          have hstep : s.step (s.now, .takeErr) = { s with errs := rest } := by
            simp only [Life.step, Life.act, hmain, herrs]
          have hrest : ∃ err, some err ∈ rest := by simpa using herr
          obtain ⟨err, hmem, hreturned⟩ := @ih { s with errs := rest } hmain hrest rfl
          refine ⟨err, List.mem_cons_of_mem _ hmem, ?_⟩
          rw [takeErrs, List.length_cons, List.replicate_succ, List.foldl_cons, hstep]
          exact hreturned
      | some err =>
          have hstep : s.step (s.now, .takeErr) = finish { s with errs := rest } (.server err) := by
            simp only [Life.step, Life.act, hmain, herrs]
          refine ⟨err, List.mem_cons_self, ?_⟩
          rw [takeErrs, List.length_cons, List.replicate_succ, List.foldl_cons, hstep]
          exact congrArg Life.main (@takeErrs_returned _ _ (.server err) s.now rfl rest.length)

/-- What `Run` returns is what the servers ended with. While `Run` serves, no error of a server
is lost. The control socket is open only then, and before all servers have listened neither it
is opened nor the entry written. -/
theorem run_reports {moves : List (Nat × LifeMove ε)} {s : Life ε}
    (h : Allowed step Ordered start moves) (hs : moves.foldl step start = s) :
    (∀ result time, s.main = .returned result time → s.control = false ∧
      match result with
      | .ok => (∀ name, s.ended name = some none) ∨
          s.entry = none ∧ ∃ name, s.ended name = some none
      | .server err => ∃ name, s.ended name = some (some err)
      | .control => s.entry = none ∧ ∀ name, s.ready name = true
      | .context => s.entry = none ∧ s.cancelled.isSome) ∧
    (s.main = .serves → ∀ name err, s.ended name = some (some err) →
      ∃ name' err', s.ended name' = some (some err') ∧
        (s.takeErrs s.errs.length).main = .returned (.server err') s.now) ∧
    (s.control = true → s.main = .serves) ∧
    (s.control = true ∨ s.entry.isSome → ∀ name, s.ready name = true) := by
  have hinv := inv_run h
  rw [hs] at hinv
  refine ⟨fun result time hmain => ⟨?_, ?_⟩, fun hmain name err herr => ?_, hinv.control, ?_⟩
  · by_contra hcontrol
    have hserves := hinv.control ((Bool.not_eq_false _).mp hcontrol)
    rw [hmain] at hserves
    cases hserves
  · have hresult := hinv.results result time hmain
    cases result with
    | ok => exact hresult.imp_right fun hbefore => ⟨hbefore.1.2.1, hbefore.2⟩
    | server err => exact hresult
    | control => exact ⟨hresult.1.2.1, hresult.2⟩
    | context =>
        obtain ⟨-, since, hsince, -⟩ := hinv.cancels _ _ hmain
        exact ⟨hresult.2.1, by rw [hsince]; rfl⟩
  · have hunseen := hinv.unseen (by simp [hmain]) name err herr
    obtain ⟨err', hmem, hreturned⟩ := takeErrs_serves hmain ⟨err, hunseen⟩
    obtain ⟨name', hended⟩ := hinv.errs _ hmem
    exact ⟨name', err', hended, hreturned⟩
  · rintro (hcontrol | hentry)
    · exact hinv.beats (hinv.serves (hinv.control hcontrol))
    · exact hinv.beats (hinv.entry hentry)

/-- The DNS server ends with an error while the servers are waited for. -/
def dnsFails : List (Nat × LifeMove Unit) :=
  [(1, .ready .dns), (2, .takeReady), (3, .ends .dns (some ())), (4, .takeErr)]

theorem run_reports_dns :
    (dnsFails.foldl step start).main = .returned (.server ()) 4 ∧
      ∃ name, (dnsFails.foldl step start).ended name = some (some ()) :=
  ⟨rfl, ((@run_reports Unit dnsFails _ (by decide) rfl).1 (.server ()) 4 rfl).2⟩

/-! ## The heartbeat -/

/-- What a move does to the heartbeat and its entry. -/
inductive Pulse (s : Life ε) (move : LifeMove ε) : Life ε → Prop
  /-- The context may be cancelled now. -/
  | rests {s' : Life ε} (hnow : s'.now = s.now) (hentry : s'.entry = s.entry)
      (hbeat : s'.beat = s.beat) (hticker : s'.tickerStart = s.tickerStart)
      (hcancelled : s'.cancelled = s.cancelled ∨ s'.cancelled = s.cancelled.or (some s.now)) :
      Pulse s move s'
  | begins (hmain : s.main = .listens) :
      Pulse s move { s with
        main := .serves
        control := true
        tickerStart := s.now
        beat := if s.cancelled.isSome then .stopped else .calls s.now }
  | writes {since : Nat} (hbeat : s.beat = .calls since) :
      Pulse s move { s with entry := some s.now }
  | succeeds {since time : Nat} (hbeat : s.beat = .calls since) (hentry : s.entry = some time)
      (hle : since ≤ time) : Pulse s move { s with beat := .waits since }
  | ticks {since : Nat} (hbeat : s.beat = .waits since) (hcancelled : s.cancelled = none)
      (htick : nextTick s.tickerStart since ≤ s.now) : Pulse s move { s with beat := .calls s.now }
  | stops (hwhy : s.cancelled.isSome ∨ move = .exit false) :
      Pulse s move { s with beat := .stopped }

theorem pulse_act (s : Life ε) (move : LifeMove ε) : Pulse s move (s.act move) := by
  have hrests : Pulse s move s := .rests rfl rfl rfl rfl (Or.inl rfl)
  cases move with
  | ready name | ends name err | closeErrs =>
      simp only [Life.act]
      split_ifs <;> exact .rests rfl rfl rfl rfl (Or.inl rfl)
  | takeReady =>
      simp only [Life.act]
      repeat' split
      all_goals exact .rests rfl rfl rfl rfl (Or.inl rfl)
  | takeErr | takeDone =>
      simp only [Life.act]
      repeat' split
      -- `Run` returns, or goes on
      all_goals first
        | exact .rests rfl rfl rfl rfl (Or.inl rfl)
        | exact .rests rfl rfl rfl rfl (Or.inr rfl)
  | listen ok =>
      simp only [Life.act]
      split
      · rename_i hmain
        split
        · exact .begins hmain
        · exact .rests rfl rfl rfl rfl (Or.inr rfl)
      · exact hrests
  | cancel => exact .rests rfl rfl rfl rfl (Or.inr rfl)
  | write =>
      simp only [Life.act]
      split
      · exact .writes ‹_›
      · exact hrests
  | exit ok =>
      simp only [Life.act]
      split
      · rename_i since hbeat
        split_ifs with hok hwritten
        · obtain ⟨time, hentry, hle⟩ := (Option.any_eq_true _ _).mp hwritten
          exact .succeeds hbeat hentry (of_decide_eq_true hle)
        · exact hrests
        · exact .stops (Or.inr (by simpa using hok))
      · exact hrests
  | tick =>
      simp only [Life.act]
      split
      · rename_i since hbeat
        split_ifs with htick hcancelled
        · exact .stops (Or.inl hcancelled)
        · exact .ticks hbeat (by simpa using hcancelled) htick
        · exact hrests
      · exact hrests
  | quit =>
      simp only [Life.act]
      split
      · split_ifs with hcancelled
        · exact .stops (Or.inl hcancelled)
        · exact hrests
      · exact hrests
  | idle => exact hrests

/-- A command takes at most `limit`, and a wait ends at most `delay` after its tick. -/
def deadline (limit delay : Nat) (s : Life ε) : Option Nat :=
  match s.beat with
  | .calls since => some (since + limit)
  | .waits since => some (max (since + limit) (nextTick s.tickerStart since) + delay)
  | _ => none

def Prompt (limit delay : Nat) (s : Life ε) (move : Nat × LifeMove ε) : Prop :=
  s.now ≤ move.1 ∧ ∀ time ∈ s.deadline limit delay, move.1 ≤ time

instance (limit delay : Nat) (s : Life ε) (move : Nat × LifeMove ε) :
    Decidable (Prompt limit delay s move) :=
  inferInstanceAs (Decidable (_ ∧ _))

theorem nextTick_le {begin time : Nat} (h : begin ≤ time) :
    nextTick begin time ≤ time + heartbeatPeriod := by
  have hperiod : heartbeatPeriod = 3000000000 := rfl
  rw [nextTick, hperiod]
  omega

/-- How the entry and the heartbeat go together. -/
structure Beating (limit delay : Nat) (s : Life ε) : Prop where
  past : ∀ time, s.entry = some time → time ≤ s.now
  ticker : s.tickerStart ≤ s.now
  calls : ∀ since, s.beat = .calls since → since ≤ s.now ∧ s.now ≤ since + limit ∧
    s.tickerStart ≤ since ∧
    ∀ time, s.entry = some time → since ≤ time + max limit heartbeatPeriod + delay
  waits : ∀ since, s.beat = .waits since → since ≤ s.now ∧ s.tickerStart ≤ since ∧
    s.now ≤ since + max limit heartbeatPeriod + delay ∧ ∃ time, s.entry = some time ∧ since ≤ time
  /-- A command is only started before the context is cancelled. -/
  started : ∀ since end_, s.beat = .calls since → s.cancelled = some end_ → since ≤ end_
  written : ∀ time end_, s.entry = some time → s.cancelled = some end_ → time ≤ end_ + limit
  ended : s.beat = .off → s.entry = none

theorem beating_start (limit delay : Nat) : Beating limit delay (start : Life ε) :=
  ⟨by simp [start], Nat.le_refl _, by simp [start], by simp [start], by simp [start],
    by simp [start], fun _ => rfl⟩

section Beating

variable {limit delay : Nat} {s : Life ε} (h : Beating limit delay s)

include h

theorem Beating.later {move : Nat × LifeMove ε} (hprompt : Prompt limit delay s move) :
    Beating limit delay { s with now := move.1 } := by
  obtain ⟨hle, hbeat⟩ := hprompt
  refine ⟨fun time htime => (h.past time htime).trans hle, h.ticker.trans hle,
    fun since hsince => ?_, fun since hsince => ?_, h.started, h.written, h.ended⟩
  · obtain ⟨hpast, -, hticker, hentry⟩ := h.calls since hsince
    have hdeadline : s.deadline limit delay = some (since + limit) := by
      rw [deadline, show s.beat = _ from hsince]
    exact ⟨hpast.trans hle, hbeat _ hdeadline, hticker, hentry⟩
  · obtain ⟨hpast, hticker, -, hentry⟩ := h.waits since hsince
    have hdeadline : s.deadline limit delay =
        some (max (since + limit) (nextTick s.tickerStart since) + delay) := by
      rw [deadline, show s.beat = _ from hsince]
    have htick := nextTick_le hticker
    have hsoon := hbeat _ hdeadline
    refine ⟨hpast.trans hle, hticker, ?_, hentry⟩
    simp only at hsoon ⊢
    omega

/-- The context may be cancelled now, or stay as it is. -/
theorem Beating.of_same {s' : Life ε} (hnow : s'.now = s.now) (hentry : s'.entry = s.entry)
    (hbeat : s'.beat = s.beat) (hticker : s'.tickerStart = s.tickerStart)
    (hcancelled : s'.cancelled = s.cancelled ∨ s'.cancelled = s.cancelled.or (some s.now)) :
    Beating limit delay s' := by
  have hend {end_ : Nat} (hend : s'.cancelled = some end_) :
      s.cancelled = some end_ ∨ end_ = s.now := by
    rcases hcancelled with hsame | hor
    · exact Or.inl (hsame.symm.trans hend)
    · rw [hor] at hend
      cases hcase : s.cancelled with
      | none =>
          rw [hcase] at hend
          exact Or.inr (Option.some.inj hend).symm
      | some since =>
          rw [hcase] at hend
          exact Or.inl hend
  refine ⟨?_, ?_, ?_, ?_, ?_, ?_, ?_⟩
  · rw [hentry, hnow]
    exact h.past
  · rw [hticker, hnow]
    exact h.ticker
  · rw [hbeat, hnow, hticker, hentry]
    exact h.calls
  · rw [hbeat, hnow, hticker, hentry]
    exact h.waits
  · rw [hbeat]
    intro since end_ hsince hcancel
    rcases hend hcancel with hcancel | rfl
    · exact h.started since end_ hsince hcancel
    · exact (h.calls since hsince).1
  · rw [hentry]
    intro time end_ htime hcancel
    rcases hend hcancel with hcancel | rfl
    · exact h.written time end_ htime hcancel
    · exact (h.past time htime).trans (Nat.le_add_right _ _)
  · rw [hbeat, hentry]
    exact h.ended

theorem Beating.act (hinv : s.Inv) (move : LifeMove ε) : Beating limit delay (s.act move) := by
  have hpulse := pulse_act s move
  generalize s.act move = s' at hpulse ⊢
  cases hpulse with
  | rests hnow hentry hbeat hticker hcancelled =>
      exact h.of_same hnow hentry hbeat hticker hcancelled
  | begins hmain =>
      obtain ⟨⟨-, hnone, -⟩, -⟩ := hinv.listens hmain
      refine ⟨by simp [hnone], Nat.le_refl _, fun since hsince => ?_, fun since hsince => ?_,
        fun since end_ hsince hcancel => ?_, h.written, fun _ => hnone⟩
      · simp only at hsince
        split_ifs at hsince
        obtain rfl := Beat.calls.inj hsince
        exact ⟨Nat.le_refl _, Nat.le_add_right _ _, Nat.le_refl _, by simp [hnone]⟩
      · simp only at hsince
        split_ifs at hsince
      · simp only at hsince hcancel
        rw [hcancel] at hsince
        cases hsince
  | @writes since hbeat =>
      obtain ⟨hpast, hlimit, hticker, -⟩ := h.calls since hbeat
      refine ⟨?_, h.ticker, fun since' hsince' => ?_, fun since' hsince' => ?_, h.started, ?_,
        fun hoff => ?_⟩
      · rintro _ ⟨rfl⟩
        exact Nat.le_refl _
      · obtain rfl := Beat.calls.inj (hbeat.symm.trans hsince')
        refine ⟨hpast, hlimit, hticker, ?_⟩
        rintro _ ⟨rfl⟩
        omega
      · cases hbeat.symm.trans hsince'
      · rintro _ end_ ⟨rfl⟩ hcancel
        have := h.started since end_ hbeat hcancel
        omega
      · cases hbeat.symm.trans hoff
  | @succeeds since time hbeat hentry hle =>
      obtain ⟨hpast, hlimit, hticker, -⟩ := h.calls since hbeat
      refine ⟨h.past, h.ticker, by simp, ?_, by simp, h.written, by simp⟩
      rintro _ ⟨rfl⟩
      have hsoon : s.now ≤ since + max limit heartbeatPeriod + delay := by omega
      exact ⟨hpast, hticker, hsoon, time, hentry, hle⟩
  | @ticks since hbeat hcancelled =>
      obtain ⟨-, -, hlate, time, htime, hsince⟩ := h.waits since hbeat
      refine ⟨h.past, h.ticker, ?_, by simp, by simp [hcancelled], h.written, by simp⟩
      rintro _ ⟨rfl⟩
      refine ⟨Nat.le_refl _, Nat.le_add_right _ _, h.ticker, fun time' htime' => ?_⟩
      obtain rfl := Option.some.inj (htime.symm.trans htime')
      omega
  | stops =>
      -- the heartbeat may always stop
      exact ⟨h.past, h.ticker, by simp, by simp, by simp, h.written, by simp⟩

theorem Beating.alive (hfast : limit + max limit heartbeatPeriod + delay < heartbeatTTL)
    (hentry : s.entry.isSome) (hbeat : s.beat ≠ .stopped) : s.alive = true := by
  obtain ⟨time, htime⟩ := Option.isSome_iff_exists.mp hentry
  unfold Life.alive
  rw [htime, Option.any_some, decide_eq_true_eq]
  cases hcase : s.beat with
  | off =>
      rw [h.ended hcase] at htime
      cases htime
  | stopped => exact absurd hcase hbeat
  | calls since =>
      obtain ⟨-, hnow, -, hlast⟩ := h.calls since hcase
      have := hlast time htime
      omega
  | waits since =>
      obtain ⟨-, -, hnow, time', htime', hle⟩ := h.waits since hcase
      obtain rfl := Option.some.inj (htime.symm.trans htime')
      omega

end Beating

theorem Prompt.ordered {limit delay : Nat} {s : Life ε} {move : Nat × LifeMove ε}
    (h : Prompt limit delay s move) : Ordered s move := h.1

theorem beating_run {limit delay : Nat} {moves : List (Nat × LifeMove ε)}
    (h : Allowed step (Prompt limit delay) start moves) :
    Inv (moves.foldl step (start : Life ε)) ∧
      Beating limit delay (moves.foldl step (start : Life ε)) := by
  have hstep (s : Life ε) (move : Nat × LifeMove ε) (hprompt : Prompt limit delay s move)
      (hs : s.Inv ∧ Beating limit delay s) :
      (s.step move).Inv ∧ Beating limit delay (s.step move) :=
    ⟨hs.1.step hprompt.ordered, (hs.2.later hprompt).act (hs.1.later hprompt.ordered) move.2⟩
  exact h.invariant hstep ⟨inv_start, beating_start limit delay⟩

theorem act_now (s : Life ε) (move : LifeMove ε) : (s.act move).now = s.now := by
  have hpulse := pulse_act s move
  generalize s.act move = s' at hpulse ⊢
  cases hpulse with
  | rests hnow => exact hnow
  | _ => rfl

theorem act_entry (s : Life ε) (move : LifeMove ε) :
    (s.act move).entry = s.entry ∨ (s.act move).entry = some s.now := by
  have hpulse := pulse_act s move
  generalize s.act move = s' at hpulse ⊢
  cases hpulse with
  | rests _ hentry => exact Or.inl hentry
  | writes => exact Or.inr rfl
  | _ => exact Or.inl rfl

/-- The entry is not from the future. -/
theorem entry_run {moves : List (Nat × LifeMove ε)} (h : Allowed step Ordered start moves) :
    ∀ time ∈ (moves.foldl step (start : Life ε)).entry,
      time ≤ (moves.foldl step (start : Life ε)).now := by
  have hstep (s : Life ε) (move : Nat × LifeMove ε) (hordered : Ordered s move)
      (hs : ∀ time ∈ s.entry, time ≤ s.now) :
      ∀ time ∈ (s.step move).entry, time ≤ (s.step move).now := by
    intro time htime
    have hnow : (s.step move).now = move.1 := act_now _ _
    rw [hnow]
    rcases act_entry { s with now := move.1 } move.2 with hsame | hnew
    · exact (hs time (hsame.symm.trans htime)).trans hordered
    · exact Nat.le_of_eq (Option.some.inj (hnew.symm.trans htime)).symm
  exact h.invariant hstep (by simp [start])

/-- A heartbeat that has stopped stays so, and its entry is not written again. -/
theorem Inv.stopped_act {s : Life ε} (h : s.Inv) (hbeat : s.beat = .stopped) (move : LifeMove ε) :
    (s.act move).beat = .stopped ∧ (s.act move).entry = s.entry := by
  have hpulse := pulse_act s move
  generalize s.act move = s' at hpulse ⊢
  cases hpulse with
  | rests _ hentry hsame => exact ⟨hsame.trans hbeat, hentry⟩
  | begins hmain => cases hbeat.symm.trans (h.listens hmain).1.1
  | writes hcalls => cases hbeat.symm.trans hcalls
  | succeeds hcalls => cases hbeat.symm.trans hcalls
  | ticks hwaits => cases hbeat.symm.trans hwaits
  | stops => exact ⟨rfl, rfl⟩

/-- The heartbeat stops for a cancelled context or a failed command. -/
def Unfailed (s : Life ε) : Prop := s.beat = .stopped → s.cancelled.isSome

theorem Unfailed.act {s : Life ε} (h : s.Unfailed) {move : LifeMove ε} (hok : move ≠ .exit false) :
    (s.act move).Unfailed := by
  have hpulse := pulse_act s move
  generalize s.act move = s' at hpulse ⊢
  cases hpulse with
  | rests _ _ hbeat _ hcancelled =>
      intro hstopped
      have hbefore := h (hbeat.symm.trans hstopped)
      rcases hcancelled with hsame | hor
      · rw [hsame]
        exact hbefore
      · rw [hor]
        simp
  | begins hmain =>
      intro hstopped
      simp only at hstopped
      split_ifs at hstopped with hcancelled
      exact hcancelled
  | writes => exact h
  | succeeds | ticks =>
      intro hstopped
      cases hstopped
  | stops hwhy => exact fun _ => hwhy.resolve_right hok

/-! ## The core and the packet filter -/

/-- A packet is handed to the transparent port only after all servers have listened, and no
longer than the lifetime of the last entry after `Run` has returned or its context was
cancelled. -/
theorem reached_while_listening {limit delay : Nat} {moves : List (Nat × LifeMove ε)} {s : Life ε}
    (h : Allowed step (Prompt limit delay) start moves) (hs : moves.foldl step start = s)
    (cfg : NftConfig) (sets : TableSet → BitVec 32 → Bool) (p : Packet)
    (hreached : (runTable cfg sets s.alive .preroutingMangle p).Intercepted cfg.transparentPort ∨
      (runTable cfg sets s.alive .outputNat p).Redirected cfg.transparentPort) :
    (∀ name, s.ready name = true) ∧
      (∀ end_, s.cancelled = some end_ → s.now < end_ + limit + heartbeatTTL) ∧
      ∀ result time, s.main = .returned result time → s.now < time + limit + heartbeatTTL := by
  obtain ⟨hinv, hbeat⟩ := beating_run h
  rw [hs] at hinv hbeat
  have halive := alive_of_reached hreached
  unfold Life.alive at halive
  rw [Option.any_eq_true] at halive
  obtain ⟨written, hentry, hlate⟩ := halive
  rw [decide_eq_true_eq] at hlate
  have hend (end_ : Nat) (hcancelled : s.cancelled = some end_) :
      s.now < end_ + limit + heartbeatTTL := by
    have := hbeat.written written end_ hentry hcancelled
    omega
  refine ⟨hinv.beats (hinv.entry (by rw [hentry]; rfl)), hend, fun result time hmain => ?_⟩
  obtain ⟨-, end_, hcancelled, hle⟩ := hinv.cancels result time hmain
  have := hend end_ hcancelled
  omega

/-- The servers listen and the first command succeeds. -/
def startup : List (Nat × LifeMove Unit) :=
  [(1, .ready .dns), (1, .ready .tcp), (1, .ready .udp), (2, .takeReady), (2, .takeReady),
    (2, .takeReady), (3, .listen true), (4, .write), (5, .exit true)]

/-- A table that inspects one address, and a packet to it. -/
def lanConfig : NftConfig := ⟨"br-lan", none, 12345, 102, 103, 1053, true⟩

def inspectOne : TableSet → BitVec 32 → Bool
  | .bypass4, daddr => (bypassElements []).any (·.contains daddr)
  | .inspect4, daddr => daddr == 0xCB007108#32
  | _, _ => false

def inspectedPacket : Packet :=
  ⟨"br-lan", .ipv4 0xC0A80102#32 0xCB007108#32, .tcp, 443, false, 0, none, none⟩

theorem intercepted_inspectedPacket : (runTable lanConfig inspectOne true .preroutingMangle
    inspectedPacket).Intercepted lanConfig.transparentPort :=
  ⟨_, rfl, rfl⟩

def told : List (Nat × LifeMove Unit) := startup ++ [(6, .cancel)]

/-- The packet after the process was told to end. -/
theorem reached_while_listening_told :
    (∀ name, (told.foldl step start).ready name = true) ∧
      (told.foldl step start).now < 6 + heartbeatPeriod + heartbeatTTL :=
  have halive : (told.foldl step start).alive = true := by decide
  have h := @reached_while_listening Unit heartbeatPeriod 0 told _ (by decide) rfl lanConfig
    inspectOne inspectedPacket (Or.inl (halive ▸ intercepted_inspectedPacket))
  ⟨h.1, h.2.1 6 rfl⟩

/-- As long as every command succeeds and is fast, and the context is not cancelled, the chains
that look at the heartbeat drop nothing from the first write on. -/
theorem never_drops_while_beating {limit delay : Nat}
    (hfast : limit + max limit heartbeatPeriod + delay < heartbeatTTL)
    {moves : List (Nat × LifeMove ε)} {s : Life ε}
    (h : Allowed step (Prompt limit delay) start moves) (hs : moves.foldl step start = s)
    (hok : ∀ move ∈ moves, move.2 ≠ .exit false) (hcancelled : s.cancelled = none)
    (hentry : s.entry.isSome) (cfg : NftConfig) {sets : TableSet → BitVec 32 → Bool}
    (hbypass : BypassesLiterals sets) (p : Packet) :
    runTable cfg sets s.alive .preroutingMangle p ≠ .drop ∧
      runTable cfg sets s.alive .outputNat p ≠ .drop ∧
      runTable cfg sets s.alive .outputGuard p ≠ .drop := by
  have hstep (s : Life ε) (move : Nat × LifeMove ε) (hmove : move.2 ≠ .exit false)
      (hs : s.Unfailed) : (s.step move).Unfailed :=
    Unfailed.act (s := { s with now := move.1 }) hs hmove
  have hunfailed := (Allowed.of_forall start hok).invariant hstep (by simp [start, Unfailed])
  have hbeating := (beating_run h).2
  rw [hs] at hunfailed hbeating
  have halive : s.alive = true := by
    refine hbeating.alive hfast hentry fun hstopped => ?_
    have := hunfailed hstopped
    rw [hcancelled] at this
    cases this
  rw [halive]
  obtain ⟨houtput, hguard, -⟩ := @output_fails_closed cfg sets p
  refine ⟨?_, houtput, hguard⟩
  rw [runTable_preroutingMangle_alive hbypass]
  split_ifs <;> simp

/-- In the second period of the heartbeat. -/
def beatTwice : List (Nat × LifeMove Unit) :=
  startup ++ [(3 + heartbeatPeriod, .tick), (4 + heartbeatPeriod, .write)]

theorem never_drops_while_beating_twice :
    runTable lanConfig inspectOne (beatTwice.foldl step start).alive .preroutingMangle
      inspectedPacket ≠ .drop :=
  (@never_drops_while_beating Unit 1000000000 0 (by decide) beatTwice _ (by decide) rfl
    (by simp [beatTwice, startup]) (by decide) (by decide) lanConfig inspectOne
    (bypassElements_literals rfl) inspectedPacket).1

def callsTwice : List (Nat × LifeMove Unit) := startup ++ [(3 + heartbeatPeriod, .tick)]

/-- The second command fails, and time passes. -/
def failsSecond : List (Nat × LifeMove Unit) :=
  callsTwice ++ (4 + heartbeatPeriod, .exit false) :: [(2 * heartbeatTTL, .idle)]

end Life

end Hy2Route.Control
