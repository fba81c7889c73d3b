import Formula.Bindings
import Formula.Evaluation.Arithmetic
import Formula.Evaluation.Comparison
import Formula.Expr.Basic
import Formula.Nesting

/-!
# Evaluating expressions

`Evaluator.visit` computes the value of a node from the values of its children, and applies the sign
flag of the node last.  Both operands of an operator are evaluated, the left one first, except that
`and` and `or` leave out the right one if the left one decides; of a conditional one branch is
evaluated.

`Evaluator.evaluate` starts at the top of a tree, and counts its root as the first node that is
entered; a visit of the root does not count it.
-/

namespace Formula

/-- The values of variables. -/
abbrev Environment := Bindings Value

namespace Evaluator

/-- Does a step inside a child. -/
def inside {α : Type} (step : Pass EvalError α) : Pass EvalError α :=
  Nesting.descend .depthLimitExceeded step

/-- The truth value that an operation needs. -/
def truth (operation : Operation) (v : Value) : Except EvalError Bool :=
  match v.asBool? with
  | some b => .ok b
  | none => .error (.typeMismatch ⟨operation, .type .boolean, v.type⟩)

/-- The value of a tree whose root has been entered. -/
def visit (env : Environment) : Expr → Pass EvalError Value
  | .lit negative value => liftExcept (Arithmetic.applySign negative value)
  | .var negative name =>
    match env.find? name with
    | some value => liftExcept (Arithmetic.applySign negative value)
    | none => throw (.unboundVariable name)
  | .binary negative op left right => do
    let value ← match op with
      | .arithmetic op => do
        let a ← inside (visit env left)
        let b ← inside (visit env right)
        liftExcept (op.onValues a b)
      | .and => do
        let a ← liftExcept (truth (.operator .and) (← inside (visit env left)))
        if a then
          let b ← liftExcept (truth (.operator .and) (← inside (visit env right)))
          pure (.boolean b)
        else pure (.boolean false)
      | .or => do
        let a ← liftExcept (truth (.operator .or) (← inside (visit env left)))
        if a then pure (.boolean true)
        else
          let b ← liftExcept (truth (.operator .or) (← inside (visit env right)))
          pure (.boolean b)
      | .distinct => do
        let a ← inside (visit env left)
        let b ← inside (visit env right)
        pure (.boolean (a.differs b))
      | .compare comparator => do
        let a ← inside (visit env left)
        let b ← inside (visit env right)
        let holds ← liftExcept (comparator.onValues a b)
        pure (.boolean holds)
    liftExcept (Arithmetic.applySign negative value)
  | .cond negative condition whenTrue whenFalse => do
    let c ← liftExcept (truth .conditional (← inside (visit env condition)))
    let value ← if c then inside (visit env whenTrue) else inside (visit env whenFalse)
    liftExcept (Arithmetic.applySign negative value)

/-- The value of a tree. -/
def evaluate (env : Environment) (e : Expr) : Pass EvalError Value :=
  Nesting.fromTop (inside (visit env e))

end Evaluator

namespace Expr

/-- The value of an expression that is no deeper than the limit where it is evaluated. -/
def evaluateWithin (limit : Nat) (env : Environment) (e : Expr) : Except EvalError Value :=
  Nesting.result (Evaluator.evaluate env e) (Nesting.start limit)

/-- The value of an expression. -/
def evaluate (env : Environment) (e : Expr) : Except EvalError Value :=
  e.evaluateWithin Nesting.defaultLimit env

end Expr

end Formula
