import Formula.Expr.Basic
import Formula.Parser.Level
import Formula.Parser.State

/-!
# Parsing expressions

An expression is an operand followed by operators with their right operands.  `Parser.climb` joins
them as long as their levels are strong enough, and `Parser.operand` reads what stands between the
operators, which may hold whole expressions again.

One limit bounds two things: how deep `Parser.expression` calls itself, and how high the tree is.
A chain of operators grows in height without any nesting, so neither bound implies the other.  The
limit is also why the recursion ends.  `expression` counts down the room left for nesting, and
`climb` counts down the levels by which a tree may still grow.
-/

namespace Formula

/-- A tree with its height. -/
structure Parsed where
  tree : Expr
  height : Nat

namespace Parsed

/-- A tree of one node. -/
def leaf (tree : Expr) : Parsed :=
  ⟨tree, 1⟩

/-- Two operands with the operator between them. -/
def join (op : Operator) (left right : Parsed) : Parsed :=
  ⟨.binary false op left.tree right.tree, 1 + max left.height right.height⟩

/-- A conditional. -/
def cond (condition whenTrue whenFalse : Parsed) : Parsed :=
  ⟨.cond false condition.tree whenTrue.tree whenFalse.tree,
    1 + max condition.height (max whenTrue.height whenFalse.height)⟩

/-- The same tree with its sign toggled. -/
def negated (p : Parsed) : Parsed :=
  ⟨p.tree.negated, p.height⟩

end Parsed

namespace Parser

/-- Refuses a tree that is higher than the limit. -/
def checkHeight (height position : Nat) : Parsing Unit := do
  if (← get).limit < height then tooDeep position

/-- Uses up the lookahead as a tree of one node. -/
def leaf (tree : Expr) : Parsing Parsed := do
  advance
  return Parsed.leaf tree

/-- Reads an operand: a literal, a variable, an expression in parentheses, a signed operand or a
    conditional.  `expression` reads an expression with operators from the given level on. -/
def operand (expression : Level → Parsing Parsed) : Parsing Parsed := do
  match (← get).lookahead with
  | none => throw (.unexpectedEnd .expression)
  | some lexeme =>
    match lexeme.token with
    | .integer i => leaf (.ofValue (.integer i))
    | .real x => leaf (.ofValue (.real x))
    | .keyword .trueWord => leaf (.ofValue (.boolean true))
    | .keyword .falseWord => leaf (.ofValue (.boolean false))
    | .identifier name => leaf (.var false name)
    | .mark .leftParen =>
      advance
      let inner ← expression .or
      expect (.mark .rightParen)
      return inner
    | .mark .minus =>
      advance
      -- a sign reaches over powers but not over products
      let signed ← expression .unary
      return signed.negated
    | .mark .plus =>
      advance
      expression .unary
    | .keyword .ifWord =>
      advance
      let condition ← expression .or
      expect (.keyword .thenWord)
      let whenTrue ← expression .or
      expect (.keyword .elseWord)
      let whenFalse ← expression .or
      let whole := Parsed.cond condition whenTrue whenFalse
      checkHeight whole.height lexeme.start
      return whole
    | _ => unexpected lexeme

/-- The operator in the lookahead and its place, if its level is at least `least`. -/
def operatorAhead (least : Level) : Parsing (Option (Operator × Nat)) := do
  match (← get).lookahead with
  | none => return none
  | some lexeme =>
    match lexeme.token.operator? with
    | none => return none
    | some op =>
      if least.rank ≤ op.level.rank then return some (op, lexeme.start) else return none

/-- Joins `left` with the operators from level `least` on that follow it, each with its right
    operand.  Every operator makes the tree higher, so no more than `spare` of them can join where
    `spare` levels are left up to the limit. -/
def climb (expression : Level → Parsing Parsed) (least : Level) (spare : Nat) (left : Parsed) :
    Parsing Parsed := do
  match ← operatorAhead least with
  | none => return left
  | some (op, position) =>
    advance
    let right ← expression op.level.ofRightOperand
    let whole := Parsed.join op left right
    match spare with
    -- the tree was as high as the limit already
    | 0 => tooDeep position
    | spare + 1 =>
      checkHeight whole.height position
      climb expression least spare whole

/-- Reads an expression with operators from level `least` on, where `room` more expressions may be
    nested.  The depth is given back only by a success. -/
def expression : (room : Nat) → (least : Level) → Parsing Parsed
  | 0, _ => do
    modify fun p => { p with depth := p.depth + 1 }
    tooDeep (← get).cursor.position
  | room + 1, least => do
    modify fun p => { p with depth := p.depth + 1 }
    let first ← operand (expression room)
    let whole ← climb (expression room) least ((← get).limit - first.height) first
    modify fun p => { p with depth := p.depth - 1 }
    return whole

/-- Reads the rest of the source as one expression. -/
def parse : Parsing Expr := do
  advance
  let p ← get
  let whole ← expression (p.limit - p.depth) .or
  match (← get).lookahead with
  | none => return whole.tree
  | some lexeme => unexpected lexeme

/-- How deep expressions may nest if nothing else is said. -/
def defaultLimit : Nat := 256

end Parser

namespace Expr

/-- The expression written by a source text, if it keeps to the nesting limit. -/
def parseWithin (limit : Nat) (source : String) : Except ParseError Expr :=
  match Parser.parse (Parser.start limit (Cursor.ofSource source)) with
  | .ok e _ => .ok e
  | .error e _ => .error e

/-- The expression written by a source text. -/
def parse (source : String) : Except ParseError Expr :=
  parseWithin Parser.defaultLimit source

end Expr

end Formula
