import Formula.Bindings
import Formula.Expr.Basic
import Formula.Nesting
import Formula.Typing.Error

/-!
# Checking types

`Checker.visit` finds the type of a node from the types of its children.  It looks at every child,
also at those that an evaluation may leave out.  Integers are accepted wherever reals are; a result
is an integer only if nothing in it is a real.
-/

namespace Formula

/-- The types of variables. -/
abbrev TypeEnvironment := Bindings ValueType

namespace Checker

/-- Does a step inside a child. -/
def inside {α : Type} (step : Pass TypeError α) : Pass TypeError α :=
  Nesting.descend .depthLimitExceeded step

/-- Refuses a type that is not that of a number. -/
def requireNumber (operation : Operation) (t : ValueType) : Except TypeError Unit :=
  if t.isNumeric then .ok () else .error (.mismatch ⟨operation, .number, t⟩)

/-- Refuses a type that is not that of a truth value. -/
def requireBoolean (operation : Operation) (t : ValueType) : Except TypeError Unit :=
  if t = .boolean then .ok () else .error (.mismatch ⟨operation, .type .boolean, t⟩)

/-- The type of arithmetic on two numbers. -/
def promoted : ValueType → ValueType → ValueType
  | .integer, .integer => .integer
  | _, _ => .real

/-- The type of a node, given its type without the sign flag. -/
def signed (negative : Bool) (t : ValueType) : Except TypeError ValueType :=
  if negative then (requireNumber .negation t).map fun _ => t else .ok t

/-- Refuses two types that a comparator cannot compare. -/
def requireComparable (comparator : Comparator) (s t : ValueType) : Except TypeError Unit :=
  let operation := Operation.operator (.compare comparator)
  if comparator.isOrdering then do
    requireNumber operation s
    requireNumber operation t
  else if (s.unify t).isSome then .ok ()
  else .error (.mismatch ⟨operation, .type s, t⟩)

/-- The common type of the branches of a conditional. -/
def unifyBranches (s t : ValueType) : Except TypeError ValueType :=
  match s.unify t with
  | some u => .ok u
  | none => .error (.incompatibleBranches s t)

/-- The type of a tree whose root has been entered. -/
def visit (types : TypeEnvironment) : Expr → Pass TypeError ValueType
  | .lit negative value => liftExcept (signed negative value.type)
  | .var negative name =>
    match types.find? name with
    | some t => liftExcept (signed negative t)
    | none => throw (.undeclaredVariable name)
  | .binary negative op left right => do
    let t ← match op with
      | .arithmetic op => do
        let s ← inside (visit types left)
        let t ← inside (visit types right)
        liftExcept (requireNumber (.operator (.arithmetic op)) s)
        liftExcept (requireNumber (.operator (.arithmetic op)) t)
        pure (promoted s t)
      | .and | .or => do
        liftExcept (requireBoolean (.operator op) (← inside (visit types left)))
        liftExcept (requireBoolean (.operator op) (← inside (visit types right)))
        pure .boolean
      | .distinct => do
        let _ ← inside (visit types left)
        let _ ← inside (visit types right)
        pure .boolean
      | .compare comparator => do
        let s ← inside (visit types left)
        let t ← inside (visit types right)
        liftExcept (requireComparable comparator s t)
        pure .boolean
    liftExcept (signed negative t)
  | .cond negative condition whenTrue whenFalse => do
    liftExcept (requireBoolean .conditional (← inside (visit types condition)))
    let s ← inside (visit types whenTrue)
    let t ← inside (visit types whenFalse)
    let u ← liftExcept (unifyBranches s t)
    liftExcept (signed negative u)

/-- The type of a tree. -/
def check (types : TypeEnvironment) (e : Expr) : Pass TypeError ValueType :=
  Nesting.fromTop (inside (visit types e))

end Checker

namespace Expr

/-- The type of an expression that is no deeper than the limit. -/
def checkWithin (limit : Nat) (types : TypeEnvironment) (e : Expr) : Except TypeError ValueType :=
  Nesting.result (Checker.check types e) (Nesting.start limit)

/-- The type of an expression. -/
def check (types : TypeEnvironment) (e : Expr) : Except TypeError ValueType :=
  e.checkWithin Nesting.defaultLimit types

end Expr

end Formula
