import Formula.Number.Layout
import Formula.Number.Numeral
import Formula.Proofs.Number.Rounding

/-!
# Numbers are read back from their digits

The shortest decimal of a double rounds to that double (`word_shortest`), and its digits are laid
out so that reading them gives the decimal again.  So a finite double is written as its sign,
digits, a point and digits, and those are read as that very double (`exists_digits_pointed`).  For
integers the same holds of their sign and digits (`exists_digits_integer`).
-/

namespace Formula

/-! ## Digits -/

namespace Numeral

theorem ofDigits_eq (digits : List Char) :
    ofDigits digits = Nat.ofDigitChars 10 digits 0 := by
  simp only [ofDigits, Decimal.ofDigits, List.append_nil, Nat.ofDigitChars_eq_foldl]

/-- Zeros behind the digits multiply by powers of ten. -/
theorem ofDigits_append_zeros (digits : List Char) (n : Nat) :
    ofDigits (digits ++ List.replicate n '0') = ofDigits digits * Nat.pow 10 n := by
  rw [ofDigits_eq, ofDigits_eq, Nat.ofDigitChars_append, Nat.ofDigitChars_replicate_zero,
    Nat.mul_comm]
  rfl

/-- Zeros before the digits do not count. -/
theorem ofDigits_zeros_append (n : Nat) (digits : List Char) :
    ofDigits (List.replicate n '0' ++ digits) = ofDigits digits := by
  rw [ofDigits_eq, ofDigits_eq, Nat.ofDigitChars_append, Nat.ofDigitChars_replicate_zero,
    Nat.mul_zero]

/-- The digits of a number are read as that number. -/
theorem ofDigits_toDigits (n : Nat) : ofDigits (Nat.toDigits 10 n) = n := by
  rw [ofDigits_eq, Nat.ofDigitChars_ten_toDigits]

/-! ## Integers -/

/-- A negative number is written as a minus sign and its opposite. -/
theorem toList_toString_neg {i : Int} (h : i < 0) :
    (toString i).toList = '-' :: (toString (-i)).toList := by
  obtain ⟨n, rfl⟩ : ∃ n, i = Int.negSucc n := Int.eq_negSucc_of_lt_zero h
  have htext : toString (Int.negSucc n) = "-" ++ toString (n + 1) := rfl
  rw [htext, String.toList_append]
  rfl

/-- An integer is written as its sign and digits, and it is what they are read as. -/
theorem exists_digits_integer (i : Int64) :
    ∃ digits, (toString i.toInt).toList = (if decide (i < 0) then ['-'] else []) ++ digits ∧
      digits ≠ [] ∧ (∀ c ∈ digits, c.isDigit = true) ∧
      signedInteger? (decide (i < 0)) digits = some i := by
  have htext : (toString (i.toInt.natAbs : Int)).toList = Nat.toDigits 10 i.toInt.natAbs :=
    Nat.toList_repr
  refine ⟨Nat.toDigits 10 i.toInt.natAbs, ?_, Nat.toDigits_ne_nil, fun c hc =>
    Nat.isDigit_of_mem_toDigits (by decide) (by decide) hc, ?_⟩
  · -- the text is that of the absolute value, behind a minus if there is one
    rw [← htext]
    by_cases hsign : i < 0
    · have hlt : i.toInt < 0 := Int64.lt_iff_toInt_lt.mp hsign
      rw [toList_toString_neg hlt, decide_eq_true hsign, Int.ofNat_natAbs_of_nonpos (by omega)]
      rfl
    · have hle : 0 ≤ i.toInt := Int64.le_iff_toInt_le.mp (Int64.not_lt.mp hsign)
      rw [decide_eq_false hsign, Int.natAbs_of_nonneg hle]
      rfl
  · -- and the absolute value with the sign is the integer
    rw [signedInteger?, ofDigits_toDigits, ← int64?_toInt i]
    have hsign : i < 0 ↔ i.toInt < 0 := Int64.lt_iff_toInt_lt
    congr 1
    simp only [decide_eq_true_eq, hsign]
    omega

end Numeral

namespace Decimal

theorem ofDigits_eq (whole fraction : List Char) :
    ofDigits whole fraction = ⟨Numeral.ofDigits (whole ++ fraction), -fraction.length⟩ := by
  simp [Numeral.ofDigits, ofDigits]

theorem isDigit_of_mem_digits {d : Decimal} {c : Char} (h : c ∈ d.digits) : c.isDigit = true :=
  Nat.isDigit_of_mem_toDigits (by decide) (by decide) h

theorem length_digits_pos (d : Decimal) : 0 < d.digits.length :=
  Nat.length_toDigits_pos

/-! ## Decimals of the same number -/

theorem pow_ten_pos (n : Nat) : 0 < Nat.pow 10 n :=
  Nat.pow_pos (by decide)

/-- The word of a decimal depends on its number only. -/
theorem word_congr {d d' : Decimal}
    (h : d.significand * Nat.pow 10 d.exponent.toNat * Nat.pow 10 (-d'.exponent).toNat =
      d'.significand * Nat.pow 10 d'.exponent.toNat * Nat.pow 10 (-d.exponent).toNat) :
    d.word = d'.word := by
  apply Binary64.nearestWord_congr (pow_ten_pos _) (pow_ten_pos _)
  rw [Nat.mul_right_comm, h, Nat.mul_right_comm]

/-- A power of ten may stand in the significand or in the exponent. -/
theorem word_mul_pow (significand n : Nat) (exponent : Int) :
    (⟨significand * Nat.pow 10 n, exponent⟩ : Decimal).word =
      (⟨significand, exponent + n⟩ : Decimal).word := by
  apply word_congr
  -- on both sides the powers of ten add up to the same exponent
  have hexponents : n + exponent.toNat + (-(exponent + n)).toNat =
      (exponent + n).toNat + (-exponent).toNat := by omega
  have hpow (a b : Nat) : Nat.pow 10 a * Nat.pow 10 b = Nat.pow 10 (a + b) :=
    (Nat.pow_add 10 a b).symm
  simp only [Nat.mul_assoc, hpow]
  rw [hexponents]

theorem word_zero (exponent : Int) :
    (⟨0, exponent⟩ : Decimal).word = (⟨0, 0⟩ : Decimal).word := by
  apply word_congr
  simp only [Nat.zero_mul]

/-- Fives and twos make up the tens of an exact decimal. -/
theorem nearestWord_fives_twos (units : Nat) {n : Nat} {exponent : Int}
    (hpositive : exponent.toNat = 0) (hnegative : (-exponent).toNat = n) :
    Binary64.nearestWord (units * Nat.pow 5 n * Nat.pow 10 exponent.toNat * Nat.pow 2 n)
      (Nat.pow 10 (-exponent).toNat) = Binary64.nearestWord units 1 := by
  have hpow : Nat.pow 10 n = Nat.pow 5 n * Nat.pow 2 n := Nat.mul_pow 5 2 n
  have hone : Nat.pow 10 0 = 1 := rfl
  apply Binary64.nearestWord_congr (pow_ten_pos _) Nat.one_pos
  rw [hpositive, hnegative, hpow, hone, Nat.mul_one, Nat.mul_one, Nat.mul_assoc]

/-- The exact decimal of a count of units is rounded like the units. -/
theorem word_ofUnits (units : Nat) : (ofUnits units).word = Binary64.nearestWord units 1 :=
  nearestWord_fives_twos units rfl rfl

/-! ## The shortest decimal -/

/-- The digits of a decimal end in the zeros that `normalize` counts. -/
theorem exists_digits_zeros (d : Decimal) :
    ∃ front, d.digits =
      front ++ List.replicate (d.digits.reverse.takeWhile (· == '0')).length '0' := by
  refine ⟨(d.digits.reverse.dropWhile (· == '0')).reverse, ?_⟩
  have hzeros : d.digits.reverse.takeWhile (· == '0') =
      List.replicate (d.digits.reverse.takeWhile (· == '0')).length '0' := by
    rw [List.eq_replicate_iff]
    exact ⟨rfl, fun c hc => eq_of_beq (List.all_eq_true.mp List.all_takeWhile c hc)⟩
  rw [← List.reverse_replicate, ← hzeros, ← List.reverse_append, List.takeWhile_append_dropWhile,
    List.reverse_reverse]

/-- Dropping zeros at the end keeps the number. -/
theorem word_normalize (d : Decimal) : d.normalize.word = d.word := by
  obtain ⟨front, hfront⟩ := d.exists_digits_zeros
  unfold normalize
  split
  · -- zero is normalized to the exponent zero
    next hzero =>
    obtain ⟨significand, exponent⟩ := d
    obtain rfl : significand = 0 := hzero
    exact (word_zero exponent).symm
  · -- the zeros go from the significand to the exponent
    generalize (d.digits.reverse.takeWhile (· == '0')).length = zeros at hfront
    have hsignificand : d.significand = Numeral.ofDigits front * Nat.pow 10 zeros := by
      rw [← Numeral.ofDigits_append_zeros, ← hfront]
      exact (Numeral.ofDigits_toDigits _).symm
    have hdiv : d.significand / Nat.pow 10 zeros = Numeral.ofDigits front := by
      rw [hsignificand, Nat.mul_div_cancel _ (pow_ten_pos zeros)]
    show (⟨d.significand / Nat.pow 10 zeros, d.exponent + zeros⟩ : Decimal).word = d.word
    rw [hdiv, ← word_mul_pow, ← hsignificand]

/-- The shortest decimal of a double is rounded to it: each one found is tested, and the exact
    decimal passes without a test. -/
theorem word_shortest (units : Nat) :
    (shortest units).word = Binary64.nearestWord units 1 := by
  rw [shortest, word_normalize]
  -- a candidate that is found has passed the test, which is the statement
  generalize hfound : List.findSome? _ _ = found
  cases found with
  | none => exact word_ofUnits units
  | some d =>
    obtain ⟨kept, -, hd⟩ := List.exists_of_findSome?_eq_some hfound
    have hword := List.find?_some hd
    exact eq_of_beq hword

end Decimal

/-! ## Layouts -/

namespace Layout

open Numeral (ofDigits)

/-- A text of digits before a point and digits behind it, which are read as `d` or as another
    decimal of the same number. -/
structure Spells (d : Decimal) (whole fraction : List Char) : Prop where
  whole_ne_nil : whole ≠ []
  whole_isDigit : ∀ c ∈ whole, c.isDigit = true
  fraction_isDigit : ∀ c ∈ fraction, c.isDigit = true
  word_eq : (Decimal.ofDigits whole fraction).word = d.word

/-- The digits of a decimal with the zeros that stand around them in positional notation. -/
theorem exists_padded (d : Decimal) :
    ∃ padded : List Char, (-d.exponent).toNat < padded.length ∧
      (∀ c ∈ padded, c.isDigit = true) ∧
      ofDigits padded = d.significand * Nat.pow 10 d.exponent.toNat ∧
      positional d = padded.splitAt (padded.length - (-d.exponent).toNat) := by
  refine ⟨_, ?_, ?_, ?_, rfl⟩
  · -- long enough to put the point into it
    have hpos := d.length_digits_pos
    simp only [List.length_append, List.length_replicate]
    omega
  · intro c hc
    simp only [List.mem_append, List.mem_replicate] at hc
    -- zeros in front, the digits of the decimal, zeros behind
    rcases hc with ⟨-, rfl⟩ | hc | ⟨-, rfl⟩
    · decide
    · exact Decimal.isDigit_of_mem_digits hc
    · decide
  · rw [Numeral.ofDigits_zeros_append, Numeral.ofDigits_append_zeros, Decimal.digits,
      Numeral.ofDigits_toDigits]

/-- The positional digits of a decimal spell it. -/
theorem spells_positional (d : Decimal) : Spells d (positional d).1 (positional d).2 := by
  obtain ⟨padded, hlength, hdigits, hvalue, hpositional⟩ := exists_padded d
  rw [hpositional, List.splitAt_eq]
  refine ⟨?_, fun c hc => hdigits c (List.mem_of_mem_take hc),
    fun c hc => hdigits c (List.mem_of_mem_drop hc), ?_⟩
  · -- at least one digit is left in front of the point
    rw [← List.length_pos_iff, List.length_take]
    omega
  · -- the point moves over as many places as the exponent is negative
    have hplaces : (padded.drop (padded.length - (-d.exponent).toNat)).length =
        (-d.exponent).toNat := by
      rw [List.length_drop]
      omega
    have hexponent : -((-d.exponent).toNat : Int) + d.exponent.toNat = d.exponent := by omega
    simp only [Decimal.ofDigits_eq, List.take_append_drop, hplaces, hvalue]
    rw [Decimal.word_mul_pow, hexponent]

/-- A zero behind the point of an integer does not change it. -/
theorem Spells.pointZero {d : Decimal} {whole : List Char} (h : Spells d whole []) :
    Spells d whole ['0'] := by
  refine ⟨h.whole_ne_nil, h.whole_isDigit, List.forall_mem_singleton.mpr rfl, ?_⟩
  have hvalue : ofDigits (whole ++ ['0']) = ofDigits whole * Nat.pow 10 1 :=
    Numeral.ofDigits_append_zeros whole 1
  rw [← h.word_eq, Decimal.ofDigits_eq, Decimal.ofDigits_eq, hvalue, Decimal.word_mul_pow,
    List.append_nil]
  rfl

/-- A pointed text has digits on both sides of its point. -/
theorem exists_pointedDigits (d : Decimal) :
    ∃ whole fraction, pointedDigits d = whole ++ '.' :: fraction ∧ fraction ≠ [] ∧
      Spells d whole fraction := by
  have hspells := spells_positional d
  unfold pointedDigits
  split
  · next whole hpositional =>
    rw [hpositional] at hspells
    exact ⟨whole, ['0'], rfl, List.cons_ne_nil _ _, hspells.pointZero⟩
  · next whole fraction hne hpositional =>
    rw [hpositional] at hspells
    exact ⟨whole, fraction, rfl, hne, hspells⟩

/-- A finite double is written as digits around a point, with a minus sign where its sign bit is
    set, and it is what they are read as. -/
theorem exists_digits_pointed {x : Float} (h : x.isFinite = true) :
    ∃ whole fraction, (pointed x).toList =
        (if Binary64.isNegative x then ['-'] else []) ++ (whole ++ '.' :: fraction) ∧
      whole ≠ [] ∧ fraction ≠ [] ∧ (∀ c ∈ whole, c.isDigit = true) ∧
      (∀ c ∈ fraction, c.isDigit = true) ∧
      (Decimal.ofDigits whole fraction).toFloat (Binary64.isNegative x) = x := by
  have hx := Binary64.ofFloat_of_isFinite h
  obtain ⟨whole, fraction, hpointed, hfraction, hspells⟩ := exists_pointedDigits
    (Decimal.shortest (Binary64.unitsOfWord (x.toBits.toNat % Binary64.signWord)))
  refine ⟨whole, fraction, ?_, hspells.whole_ne_nil, hfraction, hspells.whole_isDigit,
    hspells.fraction_isDigit, ?_⟩
  · simp only [pointed, write, hx, hpointed, String.toList_ofList]
    split <;> rfl
  · -- the digits are a decimal whose nearest double is the one it was the shortest for
    rw [Decimal.toFloat, hspells.word_eq, Decimal.word_shortest,
      Binary64.nearestWord_unitsOfWord ((Binary64.isFinite_iff x).mp h),
      Binary64.ofWord_isNegative]

end Layout

end Formula
