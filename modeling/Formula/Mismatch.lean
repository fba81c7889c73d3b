import Formula.Operator
import Formula.Value.Basic

/-!
# Operations and operands that do not fit

Evaluating and type checking refuse the same things for the same reasons; a `Mismatch` is what both
say about it.
-/

namespace Formula

/-- What is done with the values of nodes. -/
inductive Operation where
  | negation
  | conditional
  | operator (op : Operator)
deriving DecidableEq

namespace Operation

/-- How a message calls an operation. -/
def text : Operation → String
  | .negation => "negation"
  | .conditional => "if"
  | .operator op => op.symbol

end Operation

/-- What an operation needs. -/
inductive Wanted where
  | number
  | type (type : ValueType)
deriving DecidableEq

namespace Wanted

/-- How a message calls what is needed. -/
def text : Wanted → String
  | .number => "number"
  | .type t => t.name

end Wanted

/-- An operation that needs one thing and finds another. -/
structure Mismatch where
  operation : Operation
  wanted : Wanted
  found : ValueType
deriving DecidableEq

namespace Mismatch

/-- The message of a mismatch. -/
def message (m : Mismatch) : String :=
  "Type mismatch in " ++ m.operation.text ++ ": expected " ++ m.wanted.text ++ ", got " ++
    m.found.name

end Mismatch

end Formula
