import Formula.Number.Bounded
import Formula.Number.Decimal

/-!
# How numbers are read

`readInteger` and `readReal` read a whole text as a number, or not at all.  An integer is an
optional sign and decimal digits within 64 bits.  A real is an optional sign and either digits with
an optional point and power of ten, or the name of an infinity or of NaN in any case.
-/

namespace Formula.Numeral

/-- Whether a text starts with a minus sign, and the text behind its sign if it has one. -/
def splitSign : List Char → Bool × List Char
  | '-' :: rest => (true, rest)
  | '+' :: rest => (false, rest)
  | rest => (false, rest)

/-- The natural number with the given decimal digits. -/
def ofDigits (digits : List Char) : Nat :=
  (Decimal.ofDigits digits []).significand

/-- An integer with the given sign and digits, if it has 64 bits. -/
def signedInteger? (negative : Bool) (digits : List Char) : Option Int64 :=
  int64? (if negative then -(ofDigits digits : Int) else ofDigits digits)

/-- The integer written by a whole text. -/
def readInteger (text : List Char) : Option Int64 :=
  let (negative, digits) := splitSign text
  if digits.isEmpty || !digits.all Char.isDigit then none else signedInteger? negative digits

/-- The power of ten written behind the digits of a real.  It is cut off at `bound`, where it no
    longer makes a difference. -/
def readExponent (bound : Nat) : List Char → Option Int
  | [] => some 0
  | mark :: text =>
    let (negative, digits) := splitSign text
    if (mark ≠ 'e' ∧ mark ≠ 'E') || digits.isEmpty || !digits.all Char.isDigit then none
    else
      let size : Int := min (ofDigits digits) bound
      some (if negative then -size else size)

/-- The decimal written by a text without a sign.  Beyond `400` and the count of its digits, a power
    of ten leads to infinity or zero whatever the digits are. -/
def readDecimal (text : List Char) : Option Decimal :=
  let whole := text.takeWhile Char.isDigit
  let (fraction, rest) := match text.dropWhile Char.isDigit with
    | '.' :: rest => (rest.takeWhile Char.isDigit, rest.dropWhile Char.isDigit)
    | rest => ([], rest)
  if whole.isEmpty && fraction.isEmpty then none
  else
    (readExponent (whole.length + fraction.length + 400) rest).map fun power =>
      let d := Decimal.ofDigits whole fraction
      ⟨d.significand, d.exponent + power⟩

/-- The infinity or NaN named by a text without a sign. -/
def readName (negative : Bool) (text : List Char) : Option Float :=
  let name := String.ofList (text.map Char.toLower)
  if name = "inf" ∨ name = "infinity" then some (Binary64.ofWord negative Binary64.infinityWord)
  else if name = "nan" then some Binary64.notANumber
  else none

/-- The real written by a whole text. -/
def readReal (text : List Char) : Option Float :=
  let (negative, body) := splitSign text
  match readDecimal body with
  | some d => some (d.toFloat negative)
  | none => readName negative body

end Formula.Numeral
