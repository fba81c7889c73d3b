/-!
# Double precision numbers as whole multiples of the smallest one

The smallest positive double is `2 ^ -1074`, and every finite double is a whole multiple of it, so
the magnitude of a finite double is one natural number, its count of *units*.  On units the exact
operations are operations on naturals: a remainder is `%`, and rounding an exact quotient of two
naturals to the nearest double is one division.

* `Binary64.ofFloat` reads the sign and the units off the 64 bits of a double.
* `Binary64.nearestWord` is the bit pattern of the double nearest to a quotient of naturals.
* `Binary64.remainder` is the exact remainder of two doubles.
-/

namespace Formula

/-- What a double denotes.  A finite one is `± units * 2 ^ -1074`; both zeros have no units. -/
inductive Binary64 where
  | nan
  | infinite (negative : Bool)
  | finite (negative : Bool) (units : Nat)
deriving DecidableEq

namespace Binary64

/-- The units in the number one. -/
def unitsPerOne : Nat := Nat.pow 2 1074

/-- Bit patterns from here on are negative. -/
def signWord : Nat := Nat.pow 2 63

/-- One step of the exponent field. -/
def exponentStep : Nat := Nat.pow 2 52

/-- The bit pattern of positive infinity, the first one past those of the finite doubles. -/
def infinityWord : Nat := 2047 * exponentStep

/-- The units of a finite magnitude given by its bit pattern: a fraction counts whole units where
    the exponent field is zero, and gains a leading bit and a power of two elsewhere. -/
def unitsOfWord (word : Nat) : Nat :=
  let exponent := word / exponentStep
  let fraction := word % exponentStep
  if exponent = 0 then fraction else (exponentStep + fraction) * Nat.pow 2 (exponent - 1)

/-- The sign and magnitude behind the bits of a double. -/
def ofFloat (x : Float) : Binary64 :=
  let word := x.toBits.toNat
  let negative := decide (signWord ≤ word)
  let magnitude := word % signWord
  if magnitude < infinityWord then .finite negative (unitsOfWord magnitude)
  else if magnitude = infinityWord then .infinite negative
  else .nan

/-- `num / den` rounded to the nearest natural, a half to the even one. -/
def roundHalfEven (num den : Nat) : Nat :=
  let quotient := num / den
  let twice := 2 * (num % den)
  if twice < den then quotient
  else if den < twice then quotient + 1
  else quotient + quotient % 2

/-- The bit pattern of the magnitude nearest to `num / den` units, a tie going to the pattern with
    the last bit clear.  The quotient is scaled down by a power of two to 53 bits and rounded there.
    Exponent field and fraction are adjacent, so adding the scaled quotient to the exponent steps
    sets both, also where the rounding carries into the next power of two. -/
def nearestWord (num den : Nat) : Nat :=
  -- below 53 bits there is no scaling, which leaves subnormal numbers their whole units
  let shift := (num / den).log2 - 52
  min (shift * exponentStep + roundHalfEven num (den * Nat.pow 2 shift)) infinityWord

/-- The double with the given sign and magnitude bits. -/
def ofWord (negative : Bool) (word : Nat) : Float :=
  Float.ofBits (UInt64.ofNat (if negative then signWord + word else word))

/-- The double that is not a number. -/
def notANumber : Float := Float.ofBits 0x7FF8000000000000

/-- The double nearest to `± num / den`. -/
def nearest (negative : Bool) (num den : Nat) : Float :=
  ofWord negative (nearestWord (num * unitsPerOne) den)

/-- The double nearest to an integer. -/
def ofInt (i : Int) : Float :=
  nearest (decide (i < 0)) i.natAbs 1

/-- What is left of `x` after taking away `y` as often as it fits, with the sign of `x`.  It is
    exact, for the remainder of two counts of units needs no more bits than the smaller one. -/
def remainder (x y : Float) : Float :=
  match ofFloat x, ofFloat y with
  | .finite negative a, .finite _ b =>
    if b = 0 then notANumber else ofWord negative (nearestWord (a % b) 1)
  | .finite .., .infinite _ => x
  | _, _ => notANumber

/-- How two doubles compare, if neither is a NaN. -/
def order? (x y : Float) : Option Ordering :=
  if x < y then some .lt
  else if x == y then some .eq
  else if y < x then some .gt
  else none

/-- Whether the sign bit is set. -/
def isNegative (x : Float) : Bool :=
  decide (signWord ≤ x.toBits.toNat)

end Binary64

end Formula
