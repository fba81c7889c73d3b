import Formula.Parser.Error
import Formula.Token.Lexer

/-!
# The state of a parser

A parser reads its tokens one at a time and looks one token ahead.  Its steps are functions of the
state that go on or fail; a failure keeps the state reached, so that a later parse of the same
source starts where the last one stopped.
-/

namespace Formula

/-- A parser in the middle of its work. -/
structure Parser where
  /-- How deep expressions may nest, and how high their trees may be. -/
  limit : Nat
  /-- How many expressions are being read, one inside the other. -/
  depth : Nat
  /-- The token read last, which is not used up yet. -/
  lookahead : Option Lexeme
  /-- What comes behind the lookahead. -/
  cursor : Cursor

/-- A step of a parser. -/
abbrev Parsing := EStateM ParseError Parser

namespace Parser

/-- A parser at some place of a source, before it has read anything. -/
def start (limit : Nat) (cursor : Cursor) : Parser :=
  ⟨limit, 0, none, cursor⟩

/-- Reads the next token into the lookahead.  The old lookahead stays if there is none to read. -/
def advance : Parsing Unit := fun p =>
  match Cursor.next p.cursor with
  | .ok lexeme cursor => .ok () { p with lookahead := lexeme, cursor := cursor }
  | .error e cursor => .error e { p with cursor := cursor }

/-- Fails because of a token that does not fit. -/
def unexpected {α : Type} (lexeme : Lexeme) : Parsing α :=
  throw (.unexpectedToken lexeme.token lexeme.start)

/-- Uses up the given token. -/
def expect (token : Token) : Parsing Unit := do
  match (← get).lookahead with
  | some lexeme => if lexeme.token = token then advance else unexpected lexeme
  | none => throw (.unexpectedEnd (.token token))

/-- Fails because a nesting limit is passed at the given place. -/
def tooDeep {α : Type} (position : Nat) : Parsing α := do
  throw (.nestingTooDeep (← get).limit position)

end Parser

end Formula
