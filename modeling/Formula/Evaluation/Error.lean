import Formula.Mismatch

/-!
# Why an expression has no value
-/

namespace Formula

/-- Why an expression has no value. -/
inductive EvalError where
  | typeMismatch (mismatch : Mismatch)
  | unboundVariable (name : String)
  | divisionByZero
  | overflow (operation : Operation)
  | negativeExponent (exponent : Int64)
  | depthLimitExceeded (limit : Nat)
deriving DecidableEq

namespace EvalError

/-- The message of an evaluation error. -/
def message : EvalError → String
  | .typeMismatch mismatch => mismatch.message
  | .unboundVariable name => "Variable " ++ name ++ " is not bound"
  | .divisionByZero => "Division by zero"
  | .overflow operation => "Integer overflow in " ++ operation.text
  | .negativeExponent exponent =>
    "Invalid operation: negative integer exponent " ++ toString exponent.toInt
  | .depthLimitExceeded limit =>
    "Expression exceeds the maximum evaluation depth of " ++ toString limit

end EvalError

end Formula
