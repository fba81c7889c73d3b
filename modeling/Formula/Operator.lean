/-!
# Operators

The operators between two operands: six of arithmetic, the two connectives of logic, distinctness
(written `not` between its operands), and six comparisons.
-/

namespace Formula

/-- The operators that compute a number from two numbers. -/
inductive Arithmetic where
  | add
  | subtract
  | multiply
  | divide
  | modulo
  | power
deriving DecidableEq

namespace Arithmetic

/-- How an operator is written. -/
def symbol : Arithmetic → String
  | .add => "+"
  | .subtract => "-"
  | .multiply => "*"
  | .divide => "/"
  | .modulo => "%"
  | .power => "^"

/-- The name of an operator. -/
def name : Arithmetic → String
  | .add => "Add"
  | .subtract => "Subtract"
  | .multiply => "Multiply"
  | .divide => "Divide"
  | .modulo => "Modulo"
  | .power => "Power"

/-- The arithmetic operators in the order of their names' introduction. -/
def all : List Arithmetic :=
  [.add, .subtract, .multiply, .divide, .modulo, .power]

end Arithmetic

/-- The operators that compare two values. -/
inductive Comparator where
  | equal
  | notEqual
  | lessThan
  | lessThanOrEqual
  | greaterThan
  | greaterThanOrEqual
deriving DecidableEq

namespace Comparator

/-- How a comparator is written. -/
def symbol : Comparator → String
  | .equal => "="
  | .notEqual => "!="
  | .lessThan => "<"
  | .lessThanOrEqual => "<="
  | .greaterThan => ">"
  | .greaterThanOrEqual => ">="

/-- The name of a comparator. -/
def name : Comparator → String
  | .equal => "Equal"
  | .notEqual => "NotEqual"
  | .lessThan => "LessThan"
  | .lessThanOrEqual => "LessThanOrEqual"
  | .greaterThan => "GreaterThan"
  | .greaterThanOrEqual => "GreaterThanOrEqual"

/-- All comparators. -/
def all : List Comparator :=
  [.equal, .notEqual, .lessThan, .lessThanOrEqual, .greaterThan, .greaterThanOrEqual]

/-- Whether a comparator needs an order, and with it numbers, on both sides. -/
def isOrdering : Comparator → Bool
  | .equal | .notEqual => false
  | _ => true

/-- Whether a comparator holds of two values in the given order. -/
def holds : Comparator → Ordering → Bool
  | .equal, o => o == .eq
  | .notEqual, o => o != .eq
  | .lessThan, o => o == .lt
  | .lessThanOrEqual, o => o != .gt
  | .greaterThan, o => o == .gt
  | .greaterThanOrEqual, o => o != .lt

end Comparator

/-- The operators between two operands. -/
inductive Operator where
  | arithmetic (op : Arithmetic)
  | and
  | or
  /-- Whether two values differ; it is written `not`. -/
  | distinct
  | compare (comparator : Comparator)
deriving DecidableEq

namespace Operator

/-- How an operator is written. -/
def symbol : Operator → String
  | .arithmetic op => op.symbol
  | .and => "and"
  | .or => "or"
  | .distinct => "not"
  | .compare comparator => comparator.symbol

/-- The name of an operator. -/
def name : Operator → String
  | .arithmetic op => op.name
  | .and => "And"
  | .or => "Or"
  | .distinct => "Not"
  | .compare comparator => "Compare(" ++ comparator.name ++ ")"

/-- All operators. -/
def all : List Operator :=
  Arithmetic.all.map .arithmetic ++ [.and, .or, .distinct] ++ Comparator.all.map .compare

/-- The operator written by a symbol. -/
def ofSymbol? (symbol : String) : Option Operator :=
  all.find? (·.symbol == symbol)

/-- No two operators are written alike. -/
theorem ofSymbol?_symbol (op : Operator) : ofSymbol? op.symbol = some op := by
  cases op with
  | arithmetic op => cases op <;> decide
  | and => decide
  | or => decide
  | distinct => decide
  | compare comparator => cases comparator <;> decide

end Operator

end Formula
