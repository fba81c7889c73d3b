import Formula.Number.Decimal

/-!
# How reals are written

All layouts write the shortest decimal that reads back (`Decimal.shortest`); they differ in where
the digits stand.

* `Layout.bare` is positional and writes a point only where digits follow it.
* `Layout.pointed` is positional and always has a point, which keeps a real apart from an integer.
* `Layout.scaled` is pointed for everyday magnitudes and scientific beyond them.
-/

namespace Formula.Layout

/-- The digits of a decimal before and after its point, at least one before it. -/
def positional (d : Decimal) : List Char × List Char :=
  let digits := d.digits ++ List.replicate d.exponent.toNat '0'
  let places := (-d.exponent).toNat
  let padded := List.replicate (places + 1 - digits.length) '0' ++ digits
  padded.splitAt (padded.length - places)

/-- Positional, with a point only where digits follow it. -/
def bareDigits (d : Decimal) : List Char :=
  match positional d with
  | (whole, []) => whole
  | (whole, fraction) => whole ++ '.' :: fraction

/-- Positional, with a point and at least one digit after it. -/
def pointedDigits (d : Decimal) : List Char :=
  match positional d with
  | (whole, []) => whole ++ ['.', '0']
  | (whole, fraction) => whole ++ '.' :: fraction

/-- The power of ten of the first digit. -/
def leadingPower (d : Decimal) : Int :=
  d.digits.length + d.exponent - 1

/-- One digit before the point and the power of ten behind an `e`. -/
def scientificDigits (d : Decimal) : List Char :=
  let mantissa := match d.digits with
    | first :: second :: rest => first :: '.' :: second :: rest
    | short => short
  mantissa ++ 'e' :: (toString (leadingPower d)).toList

/-- Numbers from `10 ^ -4` up to `10 ^ 16` and zero are pointed, all others scientific. -/
def scaledDigits (d : Decimal) : List Char :=
  if d.significand = 0 ∨ (-4 ≤ leadingPower d ∧ leadingPower d < 16) then pointedDigits d
  else scientificDigits d

/-- The text of a double whose finite magnitudes are written by `layout`.  A zero keeps its sign,
    and a NaN has none. -/
def write (layout : Decimal → List Char) (x : Float) : String :=
  let signed (negative : Bool) (magnitude : List Char) :=
    String.ofList (if negative then '-' :: magnitude else magnitude)
  match Binary64.ofFloat x with
  | .nan => "NaN"
  | .infinite negative => signed negative "inf".toList
  | .finite negative units => signed negative (layout (Decimal.shortest units))

/-- The text of a real literal in a token. -/
def bare (x : Float) : String := write bareDigits x

/-- The text of a real as a value and in an expression. -/
def pointed (x : Float) : String := write pointedDigits x

/-- The text of a real in the outline of a tree. -/
def scaled (x : Float) : String := write scaledDigits x

end Formula.Layout
