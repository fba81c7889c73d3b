import Formula.Number.Layout

/-!
# Tokens

The words and marks that a source text is made of.  `Token.text` is how a message quotes a token: a
number stands bare and everything else between single quotes.
-/

namespace Formula

/-- The reserved words. -/
inductive Keyword where
  | trueWord
  | falseWord
  | andWord
  | orWord
  | notWord
  | ifWord
  | thenWord
  | elseWord
deriving DecidableEq

namespace Keyword

/-- How a reserved word is written. -/
def spelling : Keyword → String
  | .trueWord => "true"
  | .falseWord => "false"
  | .andWord => "and"
  | .orWord => "or"
  | .notWord => "not"
  | .ifWord => "if"
  | .thenWord => "then"
  | .elseWord => "else"

/-- The name of a reserved word as a kind of token. -/
def name : Keyword → String
  | .trueWord => "True"
  | .falseWord => "False"
  | .andWord => "And"
  | .orWord => "Or"
  | .notWord => "Not"
  | .ifWord => "If"
  | .thenWord => "Then"
  | .elseWord => "Else"

/-- All reserved words. -/
def all : List Keyword :=
  [.trueWord, .falseWord, .andWord, .orWord, .notWord, .ifWord, .thenWord, .elseWord]

/-- The reserved word with the given spelling. -/
def ofWord? (word : String) : Option Keyword :=
  all.find? (·.spelling == word)

/-- Whether a word is reserved, so that it cannot name a variable. -/
def isReserved (word : String) : Bool :=
  (ofWord? word).isSome

end Keyword

/-- The marks of operators and parentheses. -/
inductive Mark where
  | plus
  | minus
  | star
  | slash
  | percent
  | caret
  | equal
  | notEqual
  | less
  | lessOrEqual
  | greater
  | greaterOrEqual
  | leftParen
  | rightParen
deriving DecidableEq

namespace Mark

/-- How a mark is written. -/
def spelling : Mark → String
  | .plus => "+"
  | .minus => "-"
  | .star => "*"
  | .slash => "/"
  | .percent => "%"
  | .caret => "^"
  | .equal => "="
  | .notEqual => "!="
  | .less => "<"
  | .lessOrEqual => "<="
  | .greater => ">"
  | .greaterOrEqual => ">="
  | .leftParen => "("
  | .rightParen => ")"

/-- The name of a mark as a kind of token. -/
def name : Mark → String
  | .plus => "Plus"
  | .minus => "Minus"
  | .star => "Multiply"
  | .slash => "Divide"
  | .percent => "Percent"
  | .caret => "Caret"
  | .equal => "Equal"
  | .notEqual => "NotEqual"
  | .less => "LessThan"
  | .lessOrEqual => "LessThanOrEqual"
  | .greater => "GreaterThan"
  | .greaterOrEqual => "GreaterThanOrEqual"
  | .leftParen => "LeftParen"
  | .rightParen => "RightParen"

/-- The longest mark that a text starts with. -/
def ofText? : List Char → Option Mark
  | '!' :: '=' :: _ => some .notEqual
  | '<' :: '=' :: _ => some .lessOrEqual
  | '>' :: '=' :: _ => some .greaterOrEqual
  | '<' :: _ => some .less
  | '>' :: _ => some .greater
  | '=' :: _ => some .equal
  | '+' :: _ => some .plus
  | '-' :: _ => some .minus
  | '*' :: _ => some .star
  | '/' :: _ => some .slash
  | '%' :: _ => some .percent
  | '^' :: _ => some .caret
  | '(' :: _ => some .leftParen
  | ')' :: _ => some .rightParen
  | _ => none

end Mark

/-- A word, number or mark of a source text. -/
inductive Token where
  | integer (value : Int64)
  | real (value : Float)
  | identifier (name : String)
  | keyword (keyword : Keyword)
  | mark (mark : Mark)
deriving DecidableEq

namespace Token

/-- The name of a token's kind. -/
def name : Token → String
  | .integer _ => "Integer"
  | .real _ => "Real"
  | .identifier _ => "Identifier"
  | .keyword k => k.name
  | .mark m => m.name

/-- How a message quotes a token. -/
def text : Token → String
  | .integer i => toString i.toInt
  | .real x => Layout.bare x
  | .identifier name => "'" ++ name ++ "'"
  | .keyword k => "'" ++ k.spelling ++ "'"
  | .mark m => "'" ++ m.spelling ++ "'"

end Token

/-- A token and the bytes of the source that it takes, from `start` up to but not including
    `stop`. -/
structure Lexeme where
  token : Token
  start : Nat
  stop : Nat
deriving DecidableEq

end Formula
