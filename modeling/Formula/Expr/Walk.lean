import Formula.Expr.Text

/-!
# Walking a tree

`Expr.walk` visits every node once, children in source order, and records what it meets: each node
when it is entered, and each inner node again when it is left.  The record survives a walk that
stops early, and ends there with the node that stopped it.
-/

namespace Formula

/-- An entry in the record of a walk. -/
inductive Visit where
  | enter (depth : Nat) (node : Expr)
  | leave (depth : Nat) (kind : Kind)
deriving DecidableEq

namespace Visit

/-- What is recorded of a node: its kind, and its content where it has one. -/
def description (node : Expr) : String :=
  match node with
  | .lit _ value => node.kind.label ++ " " ++ value.text
  | .var _ name => node.kind.label ++ " " ++ name
  | .binary _ (.compare comparator) _ _ => node.kind.label ++ " " ++ comparator.symbol
  | _ => node.kind.label

/-- The line of an entry. -/
def text : Visit → String
  | .enter depth node =>
    toString depth ++ " " ++ Expr.signMark node.isNegative ++ description node
  | .leave depth kind => toString depth ++ " /" ++ kind.label

end Visit

namespace Expr

/-- Adds an entry to the record. -/
def record (visit : Visit) : EStateM String (Array Visit) Unit :=
  modify (·.push visit)

/-- Walks a tree whose root is `depth` steps down and counts its nodes.  A variable whose name
    `stops` the walk ends it with that name. -/
def walk (stops : String → Bool) (depth : Nat) : Expr → EStateM String (Array Visit) Nat
  | e@(.lit ..) => do
    record (.enter depth e)
    return 1
  | e@(.var _ name) => do
    record (.enter depth e)
    if stops name then throw name
    return 1
  | e@(.binary _ _ left right) => do
    record (.enter depth e)
    let inLeft ← left.walk stops (depth + 1)
    let inRight ← right.walk stops (depth + 1)
    record (.leave depth e.kind)
    return 1 + inLeft + inRight
  | e@(.cond _ condition whenTrue whenFalse) => do
    record (.enter depth e)
    let inCondition ← condition.walk stops (depth + 1)
    let inTrue ← whenTrue.walk stops (depth + 1)
    let inFalse ← whenFalse.walk stops (depth + 1)
    record (.leave depth e.kind)
    return 1 + inCondition + inTrue + inFalse

end Expr

end Formula
