import Mathlib.Control.Monad.Basic
import Formula.Proofs.Parser.Reading

/-!
# Parsers that are watched

The state of a parser does not tell how it was reached.  `Traced` is a step that also leaves a
trace: an event for every token that is asked for, for every expression that is begun and for every
round of the loop over operators, each with the parser as it was then.

The functions of the parser are written here once more, and only to leave their events.
`Traced.erase` forgets the trace again, and then they are the functions of the parser
(`Traced.erase_expression`, `Traced.erase_parse`).
-/

namespace Formula

namespace Parser

/-- What a parser is about to do. -/
inductive Move where
  /-- It reads an expression with operators from level `least` on. -/
  | call (least : Level)
  /-- It goes through the loop for an operator. -/
  | round (op : Operator)
  /-- It asks for the next token. -/
  | read
deriving DecidableEq

/-- What a parser was about to do, and how it was then. -/
structure Event where
  move : Move
  parser : Parser

/-- Whether a token was asked for. -/
def Event.isRead (e : Event) : Bool :=
  e.move == .read

/-- Whether an expression was begun or a round of the loop. -/
def Event.isTurn (e : Event) : Bool :=
  e.move != .read

/-- The outcome of a step and its events, the first one first. -/
structure Run (α : Type) where
  result : EStateM.Result ParseError Parser α
  trace : List Event

/-- A step of a parser that leaves a trace. -/
def Traced (α : Type) := Parser → Run α

namespace Traced

variable {α β : Type}

instance : Monad Traced where
  pure a p := ⟨.ok a p, []⟩
  bind x f p :=
    match (x p).result with
    | .ok a p' => ⟨(f a p').result, (x p).trace ++ (f a p').trace⟩
    | .error e p' => ⟨.error e p', (x p).trace⟩

/-- The step without its trace. -/
def erase (x : Traced α) : Parsing α := fun p => (x p).result

/-- A step that leaves no trace: it asks for no token, and is neither an expression nor a round. -/
def silent (step : Parsing α) : Traced α := fun p => ⟨step p, []⟩

/-- Leaves an event. -/
def mark (move : Move) : Traced Unit := fun p => ⟨.ok () p, [⟨move, p⟩]⟩

/-! ## The functions of the parser -/

/-- Reads the next token into the lookahead. -/
def advance : Traced Unit := do
  mark .read
  silent Parser.advance

/-- Uses up the given token. -/
def expect (token : Token) : Traced Unit := do
  match (← silent get).lookahead with
  | some lexeme => if lexeme.token = token then advance else silent (unexpected lexeme)
  | none => silent (throw (.unexpectedEnd (.token token)))

/-- Uses up the lookahead as a tree of one node. -/
def leaf (tree : Expr) : Traced Parsed := do
  advance
  return Parsed.leaf tree

/-- Reads an operand. -/
def operand (expression : Level → Traced Parsed) : Traced Parsed := do
  match (← silent get).lookahead with
  | none => silent (throw (.unexpectedEnd .expression))
  | some lexeme =>
    match lexeme.token with
    | .integer i => leaf (.ofValue (.integer i))
    | .real x => leaf (.ofValue (.real x))
    | .keyword .trueWord => leaf (.ofValue (.boolean true))
    | .keyword .falseWord => leaf (.ofValue (.boolean false))
    | .identifier name => leaf (.var false name)
    | .mark .leftParen =>
      advance
      let inner ← expression .or
      expect (.mark .rightParen)
      return inner
    | .mark .minus =>
      advance
      let signed ← expression .unary
      return signed.negated
    | .mark .plus =>
      advance
      expression .unary
    | .keyword .ifWord =>
      advance
      let condition ← expression .or
      expect (.keyword .thenWord)
      let whenTrue ← expression .or
      expect (.keyword .elseWord)
      let whenFalse ← expression .or
      let whole := Parsed.cond condition whenTrue whenFalse
      silent (checkHeight whole.height lexeme.start)
      return whole
    | _ => silent (unexpected lexeme)

/-- Joins `left` with the operators from level `least` on that follow it. -/
def climb (expression : Level → Traced Parsed) (least : Level) (spare : Nat) (left : Parsed) :
    Traced Parsed := do
  match ← silent (operatorAhead least) with
  | none => return left
  | some (op, position) =>
    mark (.round op)
    advance
    let right ← expression op.level.ofRightOperand
    let whole := Parsed.join op left right
    match spare with
    | 0 => silent (tooDeep position)
    | spare + 1 =>
      silent (checkHeight whole.height position)
      climb expression least spare whole

/-- Reads an expression with operators from level `least` on, where `room` more expressions may be
    nested. -/
def expression : (room : Nat) → (least : Level) → Traced Parsed
  | 0, least => do
    mark (.call least)
    silent (modify fun p => { p with depth := p.depth + 1 })
    silent (tooDeep (← silent get).cursor.position)
  | room + 1, least => do
    mark (.call least)
    silent (modify fun p => { p with depth := p.depth + 1 })
    let first ← operand (expression room)
    let whole ← climb (expression room) least ((← silent get).limit - first.height) first
    silent (modify fun p => { p with depth := p.depth - 1 })
    return whole

/-- Reads the rest of the source as one expression. -/
def parse : Traced Expr := do
  advance
  let p ← silent get
  let whole ← expression (p.limit - p.depth) .or
  match (← silent get).lookahead with
  | none => return whole.tree
  | some lexeme => silent (unexpected lexeme)

/-! ## Without the trace -/

section Erase

@[simp] theorem erase_pure (a : α) : (pure a : Traced α).erase = pure a := rfl

@[simp] theorem erase_bind (x : Traced α) (f : α → Traced β) :
    (x >>= f).erase = x.erase >>= fun a => (f a).erase := by
  funext p
  simp only [erase, Bind.bind, EStateM.bind]
  cases (x p).result <;> rfl

@[simp] theorem erase_silent (step : Parsing α) : (silent step).erase = step := rfl

@[simp] theorem erase_mark (move : Move) : (mark move).erase = pure () := rfl

@[simp] theorem erase_advance : advance.erase = Parser.advance := by
  simp [advance]

@[simp] theorem erase_expect (token : Token) : (expect token).erase = Parser.expect token := by
  rw [expect, Parser.expect, erase_bind, erase_silent]
  congr 1
  funext p
  cases p.lookahead with
  | none => rfl
  | some lexeme =>
    dsimp only
    split
    · exact erase_advance
    · rfl

@[simp] theorem erase_leaf (tree : Expr) : (leaf tree).erase = Parser.leaf tree := by
  simp [leaf, Parser.leaf]

variable {E : Level → Traced Parsed} {E' : Level → Parsing Parsed}

/-- An operand is one without its trace if the expressions inside it are. -/
theorem erase_operand (hE : ∀ level, (E level).erase = E' level) :
    (operand E).erase = Parser.operand E' := by
  rw [operand, Parser.operand, erase_bind, erase_silent]
  congr 1
  funext p
  -- the token in the lookahead selects the same branch in both
  cases p.lookahead with
  | none => rfl
  | some lexeme =>
    obtain ⟨token, start, stop⟩ := lexeme
    cases token with
    | integer | real | identifier => exact erase_leaf _
    | keyword keyword =>
      cases keyword with
      | trueWord | falseWord => exact erase_leaf _
      | ifWord => simp [hE]
      | _ => rfl
    | mark mark =>
      cases mark with
      | leftParen | minus | plus => simp [hE]
      | _ => rfl

theorem erase_climb (hE : ∀ level, (E level).erase = E' level) (least : Level) (spare : Nat)
    (left : Parsed) : (climb E least spare left).erase = Parser.climb E' least spare left := by
  -- on the levels left, as the loop counts them
  induction spare generalizing left with
  | zero =>
    rw [climb, Parser.climb, erase_bind, erase_silent]
    congr 1
    funext ahead?
    cases ahead? with
    | none => rfl
    | some ahead => simp [hE]
  | succ spare ih =>
    rw [climb, Parser.climb, erase_bind, erase_silent]
    congr 1
    funext ahead?
    cases ahead? with
    | none => rfl
    | some ahead => simp [hE, ih]

/-- Without its trace, an expression is read as the parser does. -/
theorem erase_expression (room : Nat) (least : Level) :
    (expression room least).erase = Parser.expression room least := by
  induction room generalizing least with
  | zero =>
    rw [expression, Parser.expression]
    simp
  | succ room ih =>
    rw [expression, Parser.expression]
    simp [erase_operand ih, erase_climb ih]

theorem erase_parse : parse.erase = Parser.parse := by
  rw [parse, Parser.parse]
  simp only [erase_bind, erase_advance, erase_silent, erase_expression]
  -- only what is done with the lookahead at the end is left
  congr 1
  funext _
  congr 1
  funext p
  congr 1
  funext whole
  congr 1
  funext q
  cases q.lookahead <;> rfl

end Erase

end Traced

end Parser

end Formula
