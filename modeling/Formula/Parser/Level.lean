import Formula.Operator
import Formula.Token.Basic

/-!
# Binding levels

Every operator binds its operands at a level.  An operator of a higher level takes its operands
first; on equal levels the left one does, except for powers, where the right one does.
-/

namespace Formula

/-- How strongly an operator binds, from the weakest level to the strongest. -/
inductive Level where
  | or
  | and
  | comparison
  | additive
  | multiplicative
  /-- The signs before an operand. -/
  | unary
  | power
deriving DecidableEq

namespace Level

/-- All levels, the weakest first. -/
def all : List Level :=
  [.or, .and, .comparison, .additive, .multiplicative, .unary, .power]

/-- The rank of a level, from one for the weakest. -/
def rank : Level → Nat
  | .or => 1
  | .and => 2
  | .comparison => 3
  | .additive => 4
  | .multiplicative => 5
  | .unary => 6
  | .power => 7

/-- The name of a level. -/
def name : Level → String
  | .or => "Or"
  | .and => "And"
  | .comparison => "Comparison"
  | .additive => "Additive"
  | .multiplicative => "Multiplicative"
  | .unary => "Unary"
  | .power => "Power"

/-- The next stronger level; the strongest one has itself. -/
def next : Level → Level
  | .or => .and
  | .and => .comparison
  | .comparison => .additive
  | .additive => .multiplicative
  | .multiplicative => .unary
  | .unary => .power
  | .power => .power

/-- Whether of two operators of this level the right one takes its operands first. -/
def isRightAssociative (level : Level) : Bool :=
  level == .power

/-- The weakest level of the operators inside the right operand of an operator of this level. -/
def ofRightOperand (level : Level) : Level :=
  if level.isRightAssociative then level else level.next

end Level

/-- The level of an operator. -/
def Operator.level : Operator → Level
  | .or => .or
  | .and => .and
  | .distinct | .compare _ => .comparison
  | .arithmetic .add | .arithmetic .subtract => .additive
  | .arithmetic .multiply | .arithmetic .divide | .arithmetic .modulo => .multiplicative
  | .arithmetic .power => .power

/-- The operator that a token is between two operands. -/
def Token.operator? : Token → Option Operator
  | .mark .plus => some (.arithmetic .add)
  | .mark .minus => some (.arithmetic .subtract)
  | .mark .star => some (.arithmetic .multiply)
  | .mark .slash => some (.arithmetic .divide)
  | .mark .percent => some (.arithmetic .modulo)
  | .mark .caret => some (.arithmetic .power)
  | .mark .equal => some (.compare .equal)
  | .mark .notEqual => some (.compare .notEqual)
  | .mark .less => some (.compare .lessThan)
  | .mark .lessOrEqual => some (.compare .lessThanOrEqual)
  | .mark .greater => some (.compare .greaterThan)
  | .mark .greaterOrEqual => some (.compare .greaterThanOrEqual)
  | .keyword .andWord => some .and
  | .keyword .orWord => some .or
  | .keyword .notWord => some .distinct
  | _ => none

end Formula
