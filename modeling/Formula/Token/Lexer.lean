import Formula.Number.Numeral
import Formula.Parser.Error

/-!
# Reading tokens off a source text

A `Cursor` is what is left of a source together with the number of bytes before it.
`Cursor.next` skips blanks and comments and takes the longest token that follows.

A cursor keeps what it has learned when no token can be read: it stays before a character that
starts none, so that a second try fails in the same way, and it goes on behind a number that does
not fit.

A `Scanner` reads the same tokens off the bytes of a source.
-/

namespace Formula

/-- The unread part of a source text. -/
structure Cursor where
  /-- The bytes before the unread part. -/
  position : Nat
  /-- The unread part. -/
  rest : List Char
deriving DecidableEq

namespace Cursor

/-- The cursor at the start of a source text. -/
def ofSource (source : String) : Cursor :=
  ⟨0, source.toList⟩

/-- The bytes that characters take. -/
def byteLength : List Char → Nat
  | [] => 0
  | c :: rest => c.utf8Size + byteLength rest

theorem byteLength_append (a b : List Char) :
    byteLength (a ++ b) = byteLength a + byteLength b := by
  induction a with
  | nil => simp [byteLength]
  | cons c rest ih => simp [byteLength, ih, Nat.add_assoc]

/-- The longest stretch of characters with the property `p`, and the cursor behind it. -/
def span (p : Char → Bool) (c : Cursor) : List Char × Cursor :=
  let taken := c.rest.takeWhile p
  (taken, ⟨c.position + byteLength taken, c.rest.dropWhile p⟩)

/-- A stretch and what is behind it are together what was unread before. -/
theorem span_append (p : Char → Bool) (c : Cursor) :
    (c.span p).1 ++ (c.span p).2.rest = c.rest :=
  List.takeWhile_append_dropWhile

/-- The cursor behind the next `count` characters. -/
def skip (count : Nat) (c : Cursor) : Cursor :=
  ⟨c.position + byteLength (c.rest.take count), c.rest.drop count⟩

/-! ## Gaps between tokens -/

/-- The blanks of a source text. -/
def isBlank (c : Char) : Bool :=
  c == ' ' || c == '\t' || c == '\r' || c == '\n'

/-- The cursor before the next token.  A comment starts with two slashes and goes on to the end of
    its line, the line end included. -/
def skipGapFrom (inComment : Bool) (position : Nat) : List Char → Cursor
  | [] => ⟨position, []⟩
  | c :: rest =>
    if inComment then skipGapFrom (c != '\n') (position + c.utf8Size) rest
    else if isBlank c then skipGapFrom false (position + c.utf8Size) rest
    -- a single slash is an operator, so look one further
    else if c == '/' && rest.head? == some '/' then skipGapFrom true (position + c.utf8Size) rest
    else ⟨position, c :: rest⟩

/-- The cursor behind blanks and comments. -/
def skipGap (c : Cursor) : Cursor :=
  skipGapFrom false c.position c.rest

/-! ## Tokens -/

/-- The characters that a word starts with. -/
def isWordStart (c : Char) : Bool :=
  c.isAlpha || c == '_'

/-- The characters that a word goes on with. -/
def isWordPart (c : Char) : Bool :=
  c.isAlphanum || c == '_'

/-- The token with the given spelling by a word. -/
def wordToken (word : String) : Token :=
  match Keyword.ofWord? word with
  | some keyword => .keyword keyword
  | none => .identifier word

/-- The fraction of a number whose whole part has just been read: a point with at least one digit
    behind it. -/
def fraction? (c : Cursor) : Option (List Char × Cursor) :=
  match c.rest with
  | '.' :: digit :: _ => if digit.isDigit then some ((c.skip 1).span Char.isDigit) else none
  | _ => none

/-- The token with the given digits, if its value fits: a real has to be finite and an integer to
    have 64 bits. -/
def numberToken? (whole : List Char) : Option (List Char) → Option Token
  | some fraction =>
    let x := (Decimal.ofDigits whole fraction).toFloat false
    if x.isFinite then some (.real x) else none
  | none => (Numeral.signedInteger? false whole).map .integer

/-- Reads the number that the rest of the source starts with. -/
def nextNumber (c : Cursor) : EStateM.Result ParseError Cursor (Option Lexeme) :=
  let (whole, behindWhole) := c.span Char.isDigit
  -- without a digit behind it, a point is not part of the number
  let fraction := behindWhole.fraction?
  let behind := (fraction.map Prod.snd).getD behindWhole
  let digits := fraction.map Prod.fst
  match numberToken? whole digits with
  | some token => .ok (some ⟨token, c.position, behind.position⟩) behind
  | none =>
    -- the number is used up although it is refused
    let literal := String.ofList (whole ++ ((digits.map ('.' :: ·)).getD []))
    .error (.invalidNumber literal c.position) behind

/-- Reads the word that the rest of the source starts with. -/
def nextWord (c : Cursor) : EStateM.Result ParseError Cursor (Option Lexeme) :=
  let (word, behind) := c.span isWordPart
  .ok (some ⟨wordToken (String.ofList word), c.position, behind.position⟩) behind

/-- Reads the mark that the rest of the source starts with; `first` is its first character. -/
def nextMark (first : Char) (c : Cursor) : EStateM.Result ParseError Cursor (Option Lexeme) :=
  match Mark.ofText? c.rest with
  | some mark =>
    let behind := c.skip mark.spelling.length
    .ok (some ⟨.mark mark, c.position, behind.position⟩) behind
  | none => .error (.unexpectedCharacter first c.position) c

/-- Reads the next token, or nothing at the end of the source. -/
def next : EStateM ParseError Cursor (Option Lexeme) := fun c =>
  let c := c.skipGap
  match c.rest with
  | [] => .ok none c
  | first :: _ =>
    if first.isDigit then nextNumber c
    else if isWordStart first then nextWord c
    else nextMark first c

/-- Reads tokens up to the end of the source, with `next` called at most `calls` times. -/
def remaining : (calls : Nat) → EStateM ParseError Cursor (List Lexeme)
  | 0 => return []
  | calls + 1 => do
    match ← next with
    | none => return []
    | some lexeme => return lexeme :: (← remaining calls)

end Cursor

/-- All tokens of a source text.  Each takes at least one character, so the calls suffice. -/
def tokenize (source : String) : Except ParseError (List Lexeme) :=
  match Cursor.remaining (source.length + 1) (Cursor.ofSource source) with
  | .ok lexemes _ => .ok lexemes
  | .error e _ => .error e

end Formula
