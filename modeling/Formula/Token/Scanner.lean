import Formula.Token.Lexer

/-!
# Reading tokens off the bytes of a source

A `Scanner` is a source with the number of bytes before the next one to be read.  It looks at single
bytes and moves on by bytes, through blanks, comments and tokens, and what it has moved over it cuts
out of the source as a text.

Only offsets that are in order and between two characters bound a text.  `Scanner.slice?` has none
for other offsets, and a call that asks for such a text ends in the fault `ScanError.badSlice`.

The parser reads off a `Cursor`, which goes by characters.  Both give the same tokens and errors at
the same places.
-/

namespace Formula

/-- How a scanner fails. -/
inductive ScanError where
  /-- The bytes that follow are no token. -/
  | refused (e : ParseError)
  /-- A text is asked for between two offsets that do not bound one. -/
  | badSlice (start stop : Nat)
deriving DecidableEq

/-- A source and the bytes of it that have been read. -/
structure Scanner where
  source : String
  position : Nat
deriving DecidableEq

namespace Scanner

/-- The scanner at the start of a source text. -/
def ofSource (source : String) : Scanner :=
  ⟨source, 0⟩

/-- The byte `offset` bytes ahead, if the source goes on so far. -/
def peek (s : Scanner) (offset : Nat) : Option UInt8 :=
  s.source.toByteArray[s.position + offset]?

/-- The scanner behind the next `width` bytes. -/
def skip (width : Nat) (s : Scanner) : Scanner :=
  { s with position := s.position + width }

/-- The bytes that are left. -/
def left (s : Scanner) : Nat :=
  s.source.utf8ByteSize - s.position

/-- The text between two byte offsets.  There is one only if the offsets are in order, and neither
    of them is behind the end of the source or inside a character. -/
def slice? (s : Scanner) (start stop : Nat) : Option String :=
  if h : start ≤ stop ∧ String.Pos.Raw.IsValid s.source ⟨start⟩ ∧
      String.Pos.Raw.IsValid s.source ⟨stop⟩ then
    some (String.extract (s := s.source) ⟨⟨start⟩, h.2.1⟩ ⟨⟨stop⟩, h.2.2⟩)
  else none

/-! ## Bytes -/

/-- The bytes of blanks. -/
def isBlank (byte : UInt8) : Bool :=
  byte == ' '.toUInt8 || byte == '\t'.toUInt8 || byte == '\r'.toUInt8 || byte == '\n'.toUInt8

/-- The bytes of digits. -/
def isDigit (byte : UInt8) : Bool :=
  '0'.toUInt8 ≤ byte && byte ≤ '9'.toUInt8

/-- The bytes of letters. -/
def isLetter (byte : UInt8) : Bool :=
  ('A'.toUInt8 ≤ byte && byte ≤ 'Z'.toUInt8) || ('a'.toUInt8 ≤ byte && byte ≤ 'z'.toUInt8)

/-- The bytes that a word starts with. -/
def isWordStart (byte : UInt8) : Bool :=
  isLetter byte || byte == '_'.toUInt8

/-- The bytes that a word goes on with. -/
def isWordPart (byte : UInt8) : Bool :=
  isWordStart byte || isDigit byte

/-- The mark that starts with a byte; `ahead?` is the byte behind it. -/
def mark? (byte : UInt8) (ahead? : Option UInt8) : Option Mark :=
  let equal := ahead? == some '='.toUInt8
  -- bytes from 128 on stand for no mark
  match Char.ofUInt8 byte with
  | '+' => some .plus
  | '-' => some .minus
  | '*' => some .star
  | '/' => some .slash
  | '%' => some .percent
  | '^' => some .caret
  | '(' => some .leftParen
  | ')' => some .rightParen
  | '=' => some .equal
  | '!' => if equal then some .notEqual else none
  | '<' => some (if equal then .lessOrEqual else .less)
  | '>' => some (if equal then .greaterOrEqual else .greater)
  | _ => none

/-! ## Moving on -/

theorem lt_utf8ByteSize_of_peek {s : Scanner} {offset : Nat} {byte : UInt8}
    (h : s.peek offset = some byte) : s.position + offset < s.source.utf8ByteSize := by
  obtain ⟨hlt, -⟩ := getElem?_eq_some_iff.mp h
  exact hlt

theorem left_skip_lt {s : Scanner} {byte : UInt8} (h : s.peek 0 = some byte) :
    (s.skip 1).left < s.left := by
  have hlt := lt_utf8ByteSize_of_peek h
  simp only [left, skip]
  omega

/-- The scanner behind the bytes with the property `p`. -/
def skipWhile (p : UInt8 → Bool) (s : Scanner) : Scanner :=
  match _h : s.peek 0 with
  | some byte => if p byte then (s.skip 1).skipWhile p else s
  | none => s
termination_by s.left
decreasing_by exact left_skip_lt _h

/-- The scanner behind the line, the line end included. -/
def skipLine (s : Scanner) : Scanner :=
  match _h : s.peek 0 with
  | some byte => if byte == '\n'.toUInt8 then s.skip 1 else (s.skip 1).skipLine
  | none => s
termination_by s.left
decreasing_by exact left_skip_lt _h

theorem left_skipLine_le (s : Scanner) : s.skipLine.left ≤ s.left := by
  fun_induction skipLine s with
  | case1 s byte h => exact Nat.le_of_lt (left_skip_lt h)
  | case2 s byte h _ ih => exact Nat.le_trans ih (Nat.le_of_lt (left_skip_lt h))
  | case3 => exact Nat.le_refl _

theorem left_skipLine_lt {s : Scanner} {byte : UInt8} (h : s.peek 0 = some byte) :
    s.skipLine.left < s.left := by
  rw [skipLine, h]
  dsimp only
  split
  · exact left_skip_lt h
  · exact Nat.lt_of_le_of_lt (left_skipLine_le _) (left_skip_lt h)

/-- The scanner behind blanks and comments. -/
def skipGap (s : Scanner) : Scanner :=
  match _h : s.peek 0 with
  | some byte =>
    if isBlank byte then (s.skip 1).skipGap
    -- a single slash is an operator, so look one further
    else if byte == '/'.toUInt8 && s.peek 1 == some '/'.toUInt8 then s.skipLine.skipGap
    else s
  | none => s
termination_by s.left
decreasing_by
  · exact left_skip_lt _h
  · exact left_skipLine_lt _h

/-! ## Tokens -/

/-- The token with the given literal, if its value fits: a real has to be finite and an integer to
    have 64 bits. -/
def literalToken? (isReal : Bool) (literal : String) : Option Token :=
  if isReal then
    match Numeral.readReal literal.toList with
    | some x => if x.isFinite then some (.real x) else none
    | none => none
  else (Numeral.readInteger literal.toList).map .integer

/-- Reads the number that the rest of the source starts with. -/
def nextNumber (s : Scanner) : EStateM.Result ScanError Scanner (Option Lexeme) :=
  let whole := s.skipWhile isDigit
  -- without a digit behind it, a point is not part of the number
  let isReal := whole.peek 0 == some '.'.toUInt8 && (whole.peek 1).any isDigit
  let behind := if isReal then (whole.skip 1).skipWhile isDigit else whole
  match s.slice? s.position behind.position with
  | none => .error (.badSlice s.position behind.position) behind
  | some literal =>
    match literalToken? isReal literal with
    | some token => .ok (some ⟨token, s.position, behind.position⟩) behind
    -- the number is used up although it is refused
    | none => .error (.refused (.invalidNumber literal s.position)) behind

/-- Reads the word that the rest of the source starts with. -/
def nextWord (s : Scanner) : EStateM.Result ScanError Scanner (Option Lexeme) :=
  let behind := s.skipWhile isWordPart
  match s.slice? s.position behind.position with
  | none => .error (.badSlice s.position behind.position) behind
  | some word => .ok (some ⟨Cursor.wordToken word, s.position, behind.position⟩) behind

/-- Reads the mark that the rest of the source starts with; `byte` is its first byte. -/
def nextMark (byte : UInt8) (s : Scanner) : EStateM.Result ScanError Scanner (Option Lexeme) :=
  match mark? byte (s.peek 1) with
  | some mark =>
    let behind := s.skip mark.spelling.utf8ByteSize
    .ok (some ⟨.mark mark, s.position, behind.position⟩) behind
  | none =>
    -- the byte may be the first one of several, so the character is taken from the text
    match s.slice? s.position s.source.utf8ByteSize with
    | none => .error (.badSlice s.position s.source.utf8ByteSize) s
    | some text =>
      let character := text.toList.head?.getD '\uFFFD'
      .error (.refused (.unexpectedCharacter character s.position)) s

/-- Reads the next token, or nothing at the end of the source. -/
def next : EStateM ScanError Scanner (Option Lexeme) := fun s =>
  let s := s.skipGap
  match s.peek 0 with
  | none => .ok none s
  | some byte =>
    if isDigit byte then nextNumber s
    else if isWordStart byte then nextWord s
    else nextMark byte s

/-! ## All tokens -/

theorem left_skipWhile_le (p : UInt8 → Bool) (s : Scanner) : (s.skipWhile p).left ≤ s.left := by
  fun_induction skipWhile p s with
  | case1 s byte h _ ih => exact Nat.le_trans ih (Nat.le_of_lt (left_skip_lt h))
  | case2 | case3 => exact Nat.le_refl _

theorem left_skipWhile_lt {p : UInt8 → Bool} {s : Scanner} {byte : UInt8}
    (h : s.peek 0 = some byte) (hp : p byte = true) : (s.skipWhile p).left < s.left := by
  rw [skipWhile, h]
  simp only [hp, if_true]
  exact Nat.lt_of_le_of_lt (left_skipWhile_le p _) (left_skip_lt h)

theorem left_skipGap_le (s : Scanner) : s.skipGap.left ≤ s.left := by
  fun_induction skipGap s with
  | case1 s byte h _ ih => exact Nat.le_trans ih (Nat.le_of_lt (left_skip_lt h))
  | case2 s byte h _ _ ih => exact Nat.le_trans ih (left_skipLine_le s)
  | case3 | case4 => exact Nat.le_refl _

variable {s s' : Scanner} {byte : UInt8} {lexeme : Lexeme}

theorem left_nextNumber_lt (hpeek : s.peek 0 = some byte) (hdigit : isDigit byte = true)
    (h : nextNumber s = .ok (some lexeme) s') : s'.left < s.left := by
  have hwhole := left_skipWhile_lt hpeek hdigit
  simp only [nextNumber] at h
  split at h
  · exact nomatch h
  · split at h
    · cases h
      split
      · -- the point and the digits behind it
        have hskip : ((s.skipWhile isDigit).skip 1).left ≤ (s.skipWhile isDigit).left :=
          Nat.sub_le_sub_left (Nat.le_succ _) _
        have hfraction := left_skipWhile_le isDigit ((s.skipWhile isDigit).skip 1)
        omega
      · exact hwhole
    · exact nomatch h

theorem left_nextWord_lt (hpeek : s.peek 0 = some byte) (hword : isWordStart byte = true)
    (h : nextWord s = .ok (some lexeme) s') : s'.left < s.left := by
  have hpart : isWordPart byte = true := by rw [isWordPart, hword, Bool.true_or]
  simp only [nextWord] at h
  split at h
  · exact nomatch h
  · cases h
    exact left_skipWhile_lt hpeek hpart

theorem left_nextMark_lt (hpeek : s.peek 0 = some byte)
    (h : nextMark byte s = .ok (some lexeme) s') : s'.left < s.left := by
  have hlt := lt_utf8ByteSize_of_peek hpeek
  simp only [nextMark] at h
  split at h
  · next mark _ =>
    cases h
    have hwidth : 0 < mark.spelling.utf8ByteSize := by cases mark <;> decide
    simp only [left, skip]
    omega
  · split at h <;> exact nomatch h

/-- Every token uses up a byte. -/
theorem left_next_lt (h : next s = .ok (some lexeme) s') : s'.left < s.left := by
  refine Nat.lt_of_lt_of_le ?_ s.left_skipGap_le
  simp only [next] at h
  split at h
  · exact nomatch h
  · next hpeek =>
    split at h
    · next hdigit => exact left_nextNumber_lt hpeek hdigit h
    · split at h
      · next hword => exact left_nextWord_lt hpeek hword h
      · exact left_nextMark_lt hpeek h

/-- Reads tokens up to the end of the source. -/
def remaining : EStateM ScanError Scanner (List Lexeme) := fun s =>
  match _h : next s with
  | .ok none s' => .ok [] s'
  | .ok (some lexeme) s' =>
    match remaining s' with
    | .ok lexemes s'' => .ok (lexeme :: lexemes) s''
    | .error e s'' => .error e s''
  | .error e s' => .error e s'
termination_by s => s.left
decreasing_by exact left_next_lt _h

/-- All tokens of a source text. -/
def tokenize (source : String) : Except ScanError (List Lexeme) :=
  match remaining (ofSource source) with
  | .ok lexemes _ => .ok lexemes
  | .error e _ => .error e

end Scanner

end Formula
