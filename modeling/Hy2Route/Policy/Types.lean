import Hy2Route.Foundation.Duration
import Hy2Route.Foundation.Strings

/-!
# Actions, sources and times

The routing actions are ordered: a direct verdict replaces none, and a proxy
verdict replaces both. `selectAction` is the join of that order, so a combined
action can be read through the two properties that only ever grow.
-/

namespace Hy2Route.Policy

open Foundation

inductive Action where
  | unknown
  | direct
  | proxy
  deriving DecidableEq, Repr

inductive Source where
  | explicitDomain
  | explicitIP
  | chinaDomain
  | chinaIP
  | default
  deriving DecidableEq, Repr

structure Decision where
  action : Action
  source : Source
  domain : Bytes := []
  deriving DecidableEq

/-- The readings of a clock never go back. -/
def Nondecreasing (clock : Nat → Int) : Prop := ∀ ⦃m n⦄, m ≤ n → clock m ≤ clock n

def selectAction (current candidate : Action) : Action :=
  if current = .proxy ∨ candidate = .proxy then .proxy
  else if candidate ≠ .unknown then candidate
  else current

/-- A property of actions that combining can only add. -/
structure Growing (P : Action → Prop) : Prop where
  unknown : ¬ P .unknown
  select : ∀ a b, P (selectAction a b) ↔ P a ∨ P b

theorem growing_proxy : Growing (· = .proxy) where
  unknown := by decide
  select := by
    intro a b
    cases a <;> cases b <;> decide

theorem growing_known : Growing (· ≠ .unknown) where
  unknown := by decide
  select := by
    intro a b
    cases a <;> cases b <;> decide

end Hy2Route.Policy
