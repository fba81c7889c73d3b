import Formula.Token.Basic

/-!
# Why a source text is not an expression
-/

namespace Formula

/-- What a source text should have gone on with. -/
inductive Expected where
  | expression
  | token (token : Token)
deriving DecidableEq

namespace Expected

/-- How a message calls what is expected. -/
def text : Expected → String
  | .expression => "expression"
  | .token t => t.text

end Expected

/-- Why a source text is not an expression.  Positions count bytes from the start of the source. -/
inductive ParseError where
  | unexpectedToken (token : Token) (position : Nat)
  | unexpectedEnd (expected : Expected)
  | unexpectedCharacter (character : Char) (position : Nat)
  | invalidNumber (literal : String) (position : Nat)
  | nestingTooDeep (limit : Nat) (position : Nat)
deriving DecidableEq

namespace ParseError

/-- Where a parse error arises, if it is not at the end of the source. -/
def position? : ParseError → Option Nat
  | .unexpectedEnd _ => none
  | .unexpectedToken _ position | .unexpectedCharacter _ position | .invalidNumber _ position
  | .nestingTooDeep _ position => some position

/-- The message of a parse error. -/
def message : ParseError → String
  | .unexpectedToken token position =>
    "Unexpected token " ++ token.text ++ " at position " ++ toString position
  | .unexpectedEnd expected => "Unexpected end of input, expected " ++ expected.text
  | .unexpectedCharacter character position =>
    "Unexpected character '" ++ character.toString ++ "' at position " ++ toString position
  | .invalidNumber literal position =>
    "Invalid number literal '" ++ literal ++ "' at position " ++ toString position
  | .nestingTooDeep limit position =>
    "Expression nests deeper than " ++ toString limit ++ " levels at position " ++
      toString position

end ParseError

end Formula
