import Formula.Number.Binary64

/-!
# Values and their types

A value is a 64-bit integer, a double precision real or a truth value.  Integers are promoted to
reals where the two meet, so both are *numeric*; `ValueType.unify` says which type such a meeting
has.
-/

namespace Formula

/-- The type of a value. -/
inductive ValueType where
  | integer
  | real
  | boolean
deriving DecidableEq

namespace ValueType

/-- The types of numbers. -/
def isNumeric : ValueType → Bool
  | .integer | .real => true
  | .boolean => false

/-- How a type is called in messages. -/
def name : ValueType → String
  | .integer => "Integer"
  | .real => "Real"
  | .boolean => "Boolean"

/-- The common type of two types: an integer becomes a real beside a real, and nothing else
    changes. -/
def unify : ValueType → ValueType → Option ValueType
  | .integer, .real => some .real
  | .real, .integer => some .real
  | s, t => if s = t then some s else none

end ValueType

/-- A value.  Its `==` compares reals as numbers, so NaN differs from itself and the two zeros are
    equal; its `=` compares them bit for bit. -/
inductive Value where
  | integer (i : Int64)
  | real (x : Float)
  | boolean (b : Bool)
deriving DecidableEq

namespace Value

/-- Equality of values of one type, where reals are compared as numbers. -/
protected def beq : Value → Value → Bool
  | .integer i, .integer j => i == j
  | .real x, .real y => x == y
  | .boolean a, .boolean b => a == b
  | _, _ => false

instance : BEq Value := ⟨Value.beq⟩

/-- The type of a value. -/
def type : Value → ValueType
  | .integer _ => .integer
  | .real _ => .real
  | .boolean _ => .boolean

/-- Whether a value is a number. -/
def isNumeric (v : Value) : Bool :=
  v.type.isNumeric

/-- A number as a real; an integer becomes the nearest one. -/
def asReal? : Value → Option Float
  | .integer i => some (Binary64.ofInt i.toInt)
  | .real x => some x
  | .boolean _ => none

/-- A truth value. -/
def asBool? : Value → Option Bool
  | .boolean b => some b
  | _ => none

end Value

end Formula
