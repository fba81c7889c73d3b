/-!
# Passes with a limited depth

A pass over a tree counts how many nodes it is inside of and refuses to enter one too many.  The
count lives in the state of the pass.  `Nesting.descend` is the only step that changes it, and
restores it on the way out of a node also when the node fails.
-/

namespace Formula

/-- How deep a pass is and how deep it may go. -/
structure Nesting where
  limit : Nat
  depth : Nat
deriving DecidableEq

/-- A pass that fails with an `ε` or gives an `α`. -/
abbrev Pass (ε α : Type) := EStateM ε Nesting α

namespace Nesting

variable {ε α : Type}

/-- A pass that has not entered any node. -/
def start (limit : Nat) : Nesting := ⟨limit, 0⟩

/-- One node deeper. -/
def enter (n : Nesting) : Nesting := { n with depth := n.depth + 1 }

/-- One node less deep. -/
def leave (n : Nesting) : Nesting := { n with depth := n.depth - 1 }

@[simp] theorem leave_enter (n : Nesting) : n.enter.leave = n := rfl

/-- Does a step one node deeper, or fails with `exceeded limit` at the limit. -/
def descend (exceeded : Nat → ε) (step : Pass ε α) : Pass ε α := fun n =>
  if n.limit ≤ n.depth then .error (exceeded n.limit) n
  else
    match step n.enter with
    | .ok a n => .ok a n.leave
    | .error e n => .error e n.leave

/-- Does a step from the top, whatever the depth was. -/
def fromTop (step : Pass ε α) : Pass ε α := fun n =>
  step { n with depth := 0 }

/-- What a pass gives, without its state. -/
def result (pass : Pass ε α) (n : Nesting) : Except ε α :=
  match pass n with
  | .ok a _ => .ok a
  | .error e _ => .error e

/-- How deep trees may be if nothing else is said. -/
def defaultLimit : Nat := 512

end Nesting

end Formula
