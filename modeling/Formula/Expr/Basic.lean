import Formula.Operator
import Formula.Value.Basic

/-!
# Expressions

An expression is a tree of literals, variables, operators between two operands, and conditionals.
Every node carries a *sign flag*: a set flag negates the value of the whole node, so that `-x` is
one node and not two.

The inspection functions see a tree through `Expr.kind` and `Expr.children`; `Expr.size` and
`Expr.depth` measure it.  The lemmas at the end say that a sign flag is all that `Expr.withSign` and
`Expr.negated` change, and how the two measures compare.
-/

namespace Formula

/-- An expression.  The first field of each node is its sign flag. -/
inductive Expr where
  | lit (negative : Bool) (value : Value)
  | var (negative : Bool) (name : String)
  | binary (negative : Bool) (op : Operator) (left right : Expr)
  | cond (negative : Bool) (condition whenTrue whenFalse : Expr)
deriving DecidableEq

/-- The kind of a node. -/
inductive Kind where
  | lit
  | var
  | arithmetic (op : Arithmetic)
  | and
  | or
  | distinct
  | compare
  | cond
deriving DecidableEq

namespace Kind

/-- All kinds in the order of their codes. -/
def all : List Kind :=
  [.lit, .var] ++ Arithmetic.all.map .arithmetic ++ [.and, .or, .distinct, .compare, .cond]

/-- The number of a kind. -/
def code (kind : Kind) : Nat :=
  all.idxOf kind

/-- The name of a kind. -/
def name : Kind → String
  | .lit => "Lit"
  | .var => "Var"
  | .arithmetic .add => "Add"
  | .arithmetic .subtract => "Sub"
  | .arithmetic .multiply => "Mul"
  | .arithmetic .divide => "Div"
  | .arithmetic .modulo => "Mod"
  | .arithmetic .power => "Pow"
  | .and => "And"
  | .or => "Or"
  | .distinct => "Not"
  | .compare => "Compare"
  | .cond => "If"

/-- The name of a kind in small letters. -/
def label (kind : Kind) : String :=
  kind.name.toLower

end Kind

/-- The kind of the nodes with an operator. -/
def Operator.kind : Operator → Kind
  | .arithmetic op => .arithmetic op
  | .and => .and
  | .or => .or
  | .distinct => .distinct
  | .compare _ => .compare

namespace Expr

/-! ## Building -/

/-- The node of a value with a clear sign flag. -/
def ofValue (value : Value) : Expr := .lit false value

/-- The sign flag of the root. -/
def isNegative : Expr → Bool
  | .lit negative _ | .var negative _ | .binary negative _ _ _ | .cond negative _ _ _ => negative

/-- The same tree with the sign flag of its root set as given. -/
def withSign (negative : Bool) : Expr → Expr
  | .lit _ value => .lit negative value
  | .var _ name => .var negative name
  | .binary _ op left right => .binary negative op left right
  | .cond _ condition whenTrue whenFalse => .cond negative condition whenTrue whenFalse

/-- The same tree with the sign flag of its root toggled. -/
def negated (e : Expr) : Expr :=
  e.withSign (!e.isNegative)

/-- Equality of trees, where reals are compared as numbers. -/
protected def beq : Expr → Expr → Bool
  | .lit m v, .lit n w => m == n && v == w
  | .var m x, .var n y => m == n && x == y
  | .binary m op l r, .binary n op' l' r' => m == n && op == op' && l.beq l' && r.beq r'
  | .cond m c a b, .cond n c' a' b' => m == n && c.beq c' && a.beq a' && b.beq b'
  | _, _ => false

instance : BEq Expr := ⟨Expr.beq⟩

/-! ## Inspection -/

/-- The kind of the root. -/
def kind : Expr → Kind
  | .lit .. => .lit
  | .var .. => .var
  | .binary _ op _ _ => op.kind
  | .cond .. => .cond

/-- The children of the root in source order. -/
def children : Expr → List Expr
  | .lit .. | .var .. => []
  | .binary _ _ left right => [left, right]
  | .cond _ condition whenTrue whenFalse => [condition, whenTrue, whenFalse]

/-- Whether the root has no children. -/
def isLeaf (e : Expr) : Bool :=
  e.children.isEmpty

/-- The operator of the root. -/
def operator? : Expr → Option Operator
  | .binary _ op _ _ => some op
  | _ => none

/-- The operands of the root's operator. -/
def operands? : Expr → Option (Expr × Expr)
  | .binary _ _ left right => some (left, right)
  | _ => none

/-- The value of a literal. -/
def literal? : Expr → Option Value
  | .lit _ value => some value
  | _ => none

/-- The name of a variable. -/
def varName? : Expr → Option String
  | .var _ name => some name
  | _ => none

/-- The number of nodes. -/
def size : Expr → Nat
  | .lit .. | .var .. => 1
  | .binary _ _ left right => 1 + left.size + right.size
  | .cond _ condition whenTrue whenFalse => 1 + condition.size + whenTrue.size + whenFalse.size

/-- The number of nodes on the longest path from the root to a leaf. -/
def depth : Expr → Nat
  | .lit .. | .var .. => 1
  | .binary _ _ left right => 1 + max left.depth right.depth
  | .cond _ condition whenTrue whenFalse =>
    1 + max condition.depth (max whenTrue.depth whenFalse.depth)

/-- All subtrees, each before its children. -/
def subtrees : Expr → List Expr
  | e@(.lit ..) => [e]
  | e@(.var ..) => [e]
  | e@(.binary _ _ left right) => e :: (left.subtrees ++ right.subtrees)
  | e@(.cond _ condition whenTrue whenFalse) =>
    e :: (condition.subtrees ++ (whenTrue.subtrees ++ whenFalse.subtrees))

/-! ## Signs -/

@[simp] theorem isNegative_withSign (negative : Bool) (e : Expr) :
    (e.withSign negative).isNegative = negative := by
  cases e <;> rfl

@[simp] theorem withSign_isNegative (e : Expr) : e.withSign e.isNegative = e := by
  cases e <;> rfl

@[simp] theorem withSign_withSign (m n : Bool) (e : Expr) :
    (e.withSign n).withSign m = e.withSign m := by
  cases e <;> rfl

@[simp] theorem isNegative_negated (e : Expr) : e.negated.isNegative = !e.isNegative := by
  simp [negated]

@[simp] theorem negated_negated (e : Expr) : e.negated.negated = e := by
  simp [negated]

/-! ## Measures -/

@[simp] theorem size_withSign (negative : Bool) (e : Expr) :
    (e.withSign negative).size = e.size := by
  cases e <;> rfl

@[simp] theorem depth_withSign (negative : Bool) (e : Expr) :
    (e.withSign negative).depth = e.depth := by
  cases e <;> rfl

theorem depth_pos (e : Expr) : 0 < e.depth := by
  cases e <;> simp only [depth] <;> omega

theorem depth_le_size (e : Expr) : e.depth ≤ e.size := by
  induction e <;> simp only [depth, size] <;> omega

theorem length_subtrees (e : Expr) : e.subtrees.length = e.size := by
  induction e <;> simp [subtrees, size] <;> omega

end Expr

end Formula
