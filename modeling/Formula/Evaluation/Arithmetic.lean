import Formula.Evaluation.Error
import Formula.Number.Bounded

/-!
# Arithmetic on values

Two integers give an integer, computed exactly and refused if it has more than 64 bits.  With a real
on either side both become reals, and the operation is that of double precision, which never fails.
-/

namespace Formula.Arithmetic

/-- The exponents from here on are refused whatever the base is. -/
def exponentBound : Int := 4294967296

/-- An exponent with the same power as `n` for the bases whose powers stay small, `-1`, `0` and `1`.
    All other bases have outgrown 64 bits at an exponent of 64. -/
def foldedExponent (n : Nat) : Nat :=
  if n < 64 then n else 64 + n % 2

/-- An integer result, or the overflow of the operator. -/
def bounded (op : Arithmetic) (i : Int) : Except EvalError Int64 :=
  match int64? i with
  | some i => .ok i
  | none => .error (.overflow (.operator (.arithmetic op)))

/-- An operator on two integers.  Quotients go toward zero and remainders have the sign of the
    dividend; a remainder is refused where its quotient is. -/
def onIntegers (op : Arithmetic) (a b : Int64) : Except EvalError Int64 :=
  let x := a.toInt
  let y := b.toInt
  match op with
  | .add => bounded op (x + y)
  | .subtract => bounded op (x - y)
  | .multiply => bounded op (x * y)
  | .divide => if y = 0 then .error .divisionByZero else bounded op (x.tdiv y)
  | .modulo =>
    if y = 0 then .error .divisionByZero
    else
      match bounded op (x.tdiv y) with
      | .ok _ => bounded op (x.tmod y)
      | .error e => .error e
  | .power =>
    if y < 0 then .error (.negativeExponent b)
    else if y < exponentBound then bounded op (x.pow (foldedExponent y.toNat))
    else .error (.overflow (.operator (.arithmetic op)))

/-- An operator on two reals. -/
def onReals (op : Arithmetic) (x y : Float) : Float :=
  match op with
  | .add => x + y
  | .subtract => x - y
  | .multiply => x * y
  | .divide => x / y
  | .modulo => Binary64.remainder x y
  | .power => Float.pow x y

/-- An operator on two values.  The first operand that is not a number is at fault. -/
def onValues (op : Arithmetic) (left right : Value) : Except EvalError Value :=
  match left, right with
  | .integer a, .integer b => (onIntegers op a b).map .integer
  | _, _ =>
    match left.asReal?, right.asReal? with
    | some x, some y => .ok (.real (onReals op x y))
    | _, _ =>
      let found := if left.isNumeric then right.type else left.type
      .error (.typeMismatch ⟨.operator (.arithmetic op), .number, found⟩)

/-- The negation of a value. -/
def negate : Value → Except EvalError Value
  | .integer i =>
    match int64? (-i.toInt) with
    | some i => .ok (.integer i)
    | none => .error (.overflow .negation)
  | .real x => .ok (.real (-x))
  | .boolean _ => .error (.typeMismatch ⟨.negation, .number, .boolean⟩)

/-- The value of a node, given its value without the sign flag. -/
def applySign (negative : Bool) (v : Value) : Except EvalError Value :=
  if negative then negate v else .ok v

end Formula.Arithmetic
