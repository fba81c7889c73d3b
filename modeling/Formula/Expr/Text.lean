import Formula.Expr.Basic
import Formula.Text.Quoted
import Formula.Value.Text

/-!
# Expressions as text

* `Expr.text` writes a tree the way people do, without parentheses.  It is for reading only: the
  shape of the tree is lost.
* `Expr.print` is the canonical source of a tree.  It puts every operator, conditional and sign
  into parentheses, so that the shape can be parsed back.
* `Expr.outline` shows every field of every node.
-/

namespace Formula.Expr

/-- The mark of a sign flag. -/
def signMark (negative : Bool) : String :=
  if negative then "-" else ""

/-- A tree without parentheses. -/
def text : Expr → String
  | .lit negative value => signMark negative ++ value.text
  | .var negative name => signMark negative ++ name
  | .binary negative op left right =>
    signMark negative ++ (left.text ++ " " ++ op.symbol ++ " " ++ right.text)
  | .cond negative condition whenTrue whenFalse =>
    signMark negative ++
      ("if " ++ condition.text ++ " then " ++ whenTrue.text ++ " else " ++ whenFalse.text)

/-- The source of a node with its sign flag, given its source without. -/
def signedSource (negative : Bool) (source : String) : String :=
  if negative then "(-" ++ source ++ ")" else source

/-- The canonical source of a tree. -/
def print : Expr → String
  | .lit negative value => signedSource negative value.text
  | .var negative name => signedSource negative name
  | .binary negative op left right =>
    signedSource negative ("(" ++ left.print ++ " " ++ op.symbol ++ " " ++ right.print ++ ")")
  | .cond negative condition whenTrue whenFalse =>
    signedSource negative
      ("(if " ++ condition.print ++ " then " ++ whenTrue.print ++ " else " ++ whenFalse.print ++
        ")")

/-- The outline of a node around the outline of its content. -/
def nodeOutline (negative : Bool) (kind : Kind) (content : Outline) : Outline :=
  .record "Exp"
    [("kind", .wrapped kind.name content), ("negative", .leaf (Value.boolText negative))]

/-- The outline of a tree: each node with its kind and its sign flag. -/
def outline : Expr → Outline
  | .lit negative value => nodeOutline negative .lit value.outline
  | .var negative name => nodeOutline negative .var (.leaf (Quoted.quote name))
  | .binary negative op left right =>
    let operands := [("left", left.outline), ("right", right.outline)]
    nodeOutline negative op.kind <| match op with
      | .compare comparator =>
        .record "CompareExp" (("comparator", .leaf comparator.name) :: operands)
      | _ => .record "BinaryExp" operands
  | .cond negative condition whenTrue whenFalse =>
    nodeOutline negative .cond <| .record "ConditionalExp"
      [("condition", condition.outline), ("then_branch", whenTrue.outline),
        ("else_branch", whenFalse.outline)]

end Formula.Expr
