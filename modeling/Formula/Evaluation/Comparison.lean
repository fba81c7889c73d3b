import Formula.Evaluation.Error

/-!
# Comparing values

Numbers are compared as numbers, with integers among themselves compared exactly and all others as
reals.  Truth values are only equal or not.  A NaN has no place in the order, so that no comparison
with it holds except "not equal".
-/

namespace Formula.Comparator

/-- The order of two values where the comparator needs no more of them, or why it does.  Two values
    with a NaN among them have no order. -/
def order (comparator : Comparator) (left right : Value) : Except EvalError (Option Ordering) :=
  let mismatch : Mismatch :=
    if comparator.isOrdering then
      ⟨.operator (.compare comparator), .number, if left.isNumeric then right.type else left.type⟩
    else ⟨.operator (.compare comparator), .type left.type, right.type⟩
  match left, right with
  | .boolean a, .boolean b =>
    if comparator.isOrdering then .error (.typeMismatch mismatch) else .ok (some (compare a b))
  | .integer a, .integer b => .ok (some (compare a.toInt b.toInt))
  | _, _ =>
    match left.asReal?, right.asReal? with
    | some x, some y => .ok (Binary64.order? x y)
    | _, _ => .error (.typeMismatch mismatch)

/-- Whether a comparator holds of two values. -/
def onValues (comparator : Comparator) (left right : Value) : Except EvalError Bool :=
  (comparator.order left right).map fun
    | some order => comparator.holds order
    | none => comparator == .notEqual

end Formula.Comparator

namespace Formula.Value

/-- Whether two values differ, as numbers if they are numbers.  A number and a truth value always
    do. -/
def differs (left right : Value) : Bool :=
  match left, right with
  | .boolean a, .boolean b => a != b
  | .integer i, .integer j => i != j
  | _, _ =>
    match left.asReal?, right.asReal? with
    | some x, some y => x != y
    | _, _ => true

end Formula.Value
