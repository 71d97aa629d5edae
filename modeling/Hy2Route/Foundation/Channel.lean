/-!
# Buffered channels

A channel has a buffer of bounded length and may be closed. Sending on a closed channel
and closing it twice are panics, which have no result here. What was in the buffer when
the channel was closed can still be received.
-/

namespace Hy2Route.Foundation

structure Chan (α : Type) where
  buffer : List α
  closed : Bool

namespace Chan

variable {α : Type}

def make : Chan α := ⟨[], false⟩

/-- A send that drops the value when the buffer is full. -/
def trySend (capacity : Nat) (a : α) (c : Chan α) : Option (Chan α) :=
  if c.closed then none
  else if c.buffer.length < capacity then some { c with buffer := c.buffer ++ [a] }
  else some c

def close (c : Chan α) : Option (Chan α) :=
  if c.closed then none else some { c with closed := true }

inductive Received (α : Type) where
  | value (a : α)
  | closed
  /-- Nothing is there yet. -/
  | waits

def receive (c : Chan α) : Received α × Chan α :=
  match c.buffer with
  | a :: rest => (.value a, { c with buffer := rest })
  | [] => (if c.closed then .closed else .waits, c)

end Chan

end Hy2Route.Foundation
