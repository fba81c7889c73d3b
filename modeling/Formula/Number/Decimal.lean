import Formula.Number.Binary64

/-!
# Decimals and the shortest one that reads back

A `Decimal` is `significand * 10 ^ exponent`.  Two directions connect decimals with doubles:

* `Decimal.word` rounds a decimal to the magnitude bits of the nearest double;
* `Decimal.shortest` picks, for a double, the decimal with the fewest digits that rounds to it, and
  of those with equally few digits the nearest.

Every double is an exact decimal, because `2 ^ -1074 = 5 ^ 1074 * 10 ^ -1074`.  So the search cuts
the digits of one natural number, and the exact decimal itself is there when no cut reads back.
-/

namespace Formula

/-- The number `significand * 10 ^ exponent`. -/
structure Decimal where
  significand : Nat
  exponent : Int
deriving DecidableEq

namespace Decimal

/-- The magnitude bits of the double nearest to a decimal. -/
def word (d : Decimal) : Nat :=
  Binary64.nearestWord (d.significand * Nat.pow 10 d.exponent.toNat * Binary64.unitsPerOne)
    (Nat.pow 10 (-d.exponent).toNat)

/-- The double nearest to a decimal with the given sign. -/
def toFloat (negative : Bool) (d : Decimal) : Float :=
  Binary64.ofWord negative d.word

/-- The digits of the significand, `0` for zero. -/
def digits (d : Decimal) : List Char :=
  Nat.toDigits 10 d.significand

/-- The same number without zeros at the end of its significand; zero has the exponent zero. -/
def normalize (d : Decimal) : Decimal :=
  if d.significand = 0 then ⟨0, 0⟩
  else
    let zeros := (d.digits.reverse.takeWhile (· == '0')).length
    ⟨d.significand / Nat.pow 10 zeros, d.exponent + zeros⟩

/-- The exact decimal for a count of units of `2 ^ -1074`. -/
def ofUnits (units : Nat) : Decimal :=
  ⟨units * Nat.pow 5 1074, -1074⟩

/-- The two decimals around `d` that lack its last `dropped` digits, the nearer one first and of two
    equally near ones the larger. -/
def neighbours (d : Decimal) (dropped : Nat) : List Decimal :=
  let grid := Nat.pow 10 dropped
  let below : Decimal := ⟨d.significand / grid, d.exponent + dropped⟩
  let above : Decimal := ⟨d.significand / grid + 1, d.exponent + dropped⟩
  if grid ≤ 2 * (d.significand % grid) then [above, below] else [below, above]

/-- A double has never more than this many digits in its shortest decimal. -/
def maxDigits : Nat := 17

/-- The shortest decimal that rounds to the double with the given units. -/
def shortest (units : Nat) : Decimal :=
  let exact := ofUnits units
  let length := exact.digits.length
  let target := Binary64.nearestWord units 1
  -- try one digit, then two, and so on
  let found := (List.range maxDigits).findSome? fun kept =>
    (exact.neighbours (length - (kept + 1))).find? (·.word == target)
  (found.getD exact).normalize

/-- The decimal with the given digits before and after its point. -/
def ofDigits (whole fraction : List Char) : Decimal :=
  let value := (whole ++ fraction).foldl (fun n c => 10 * n + (c.toNat - '0'.toNat)) 0
  ⟨value, -fraction.length⟩

end Decimal

end Formula
