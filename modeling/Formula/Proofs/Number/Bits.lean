import Mathlib
import Formula.Number.Binary64

/-!
# Doubles and their bits

A double is determined by its sign bit and its magnitude (`ofWord_isNegative`).  It is finite if its
magnitude is below that of infinity (`isFinite_iff`), and no number if it is above
(`isNaN_iff`).  A sign and a magnitude up to infinity are those of the double that is made of them
(`toNat_toBits_ofWord`).
-/

namespace Formula.Binary64

open Float.Model (Format UnpackedFloat)
open Float.Model.UnpackedFloat

theorem exponentStep_eq : exponentStep = 4503599627370496 := rfl

theorem signWord_eq : signWord = 9223372036854775808 := rfl

/-- The exponent field stands above the 52 bits of the fraction. -/
theorem toNat_unpackExponent (b : BitVec Format.binary64.numBits) :
    (unpackExponent b).toNat = b.toNat / exponentStep % 2048 := by
  simp [unpackExponent_def, exponentStep, Nat.shiftRight_eq_div_pow]

theorem toNat_unpackMantissa (b : BitVec Format.binary64.numBits) :
    (unpackMantissa b).toNat = b.toNat % exponentStep := by
  simp [unpackMantissa_def, exponentStep]

/-! ## Finite doubles -/

/-- What a bit pattern denotes is finite unless all bits of its exponent are set. -/
theorem isFinite_unpack_iff (b : BitVec Format.binary64.numBits) :
    (unpack Format.binary64 b).isFinite = true ↔ unpackExponent b ≠ -1#_ := by
  simp only [unpack]
  by_cases hones : unpackExponent b = -1#_
  · -- infinity or not a number
    rw [if_pos hones]
    refine iff_of_false ?_ (fun h => h hones)
    split <;> exact Bool.false_ne_true
  · -- zero, a subnormal number or a normal one
    rw [if_neg hones]
    refine iff_of_true ?_ hones
    split
    · split <;> rfl
    · rfl

/-- A double is finite if its magnitude is below that of infinity. -/
theorem isFinite_iff (x : Float) :
    x.isFinite = true ↔ x.toBits.toNat % signWord < infinityWord := by
  show (unpack Format.binary64 x.toBits.toBitVec).isFinite = true ↔ _
  -- both sides speak of the 11 bits between the sign and the fraction
  have hones : (-1#11 : BitVec 11).toNat = 2047 := rfl
  rw [isFinite_unpack_iff, Ne, ← BitVec.toNat_inj, toNat_unpackExponent, hones]
  simp only [exponentStep_eq, signWord_eq, infinityWord, UInt64.toNat_toBitVec]
  omega

/-- What a finite double denotes: its sign and the units of its magnitude. -/
theorem ofFloat_of_isFinite {x : Float} (h : x.isFinite = true) :
    ofFloat x = .finite (isNegative x) (unitsOfWord (x.toBits.toNat % signWord)) := by
  simp only [ofFloat, if_pos ((isFinite_iff x).mp h), isNegative]

/-! ## Doubles that are no numbers -/

/-- The bit patterns of NaN are those above infinity. -/
theorem isNaNBits_iff (b : BitVec Format.binary64.numBits) :
    isNaNBits b = true ↔ infinityWord < b.toNat % signWord := by
  have hones : (-1#11 : BitVec 11).toNat = 2047 := rfl
  have hzero : (0#52 : BitVec 52).toNat = 0 := rfl
  rw [isNaNBits, decide_eq_true_iff, Ne, ← BitVec.toNat_inj, ← BitVec.toNat_inj,
    toNat_unpackExponent, toNat_unpackMantissa, hones, hzero]
  simp only [exponentStep_eq, signWord_eq, infinityWord]
  omega

/-- A bit pattern denotes a NaN exactly if it is one of its. -/
theorem isNaN_unpack (b : BitVec Format.binary64.numBits) :
    (unpack Format.binary64 b).isNaN = isNaNBits b := by
  simp only [unpack, isNaNBits]
  split
  · next hones =>
    -- infinity, or not a number
    split
    · next hzero => simp [hzero, UnpackedFloat.isNaN]
    · next hzero => simp [hones, hzero, UnpackedFloat.isNaN]
  · next hones =>
    simp only [hones, false_and, decide_false]
    split
    · split <;> rfl
    · rfl

theorem isNaN_iff (x : Float) :
    x.isNaN = true ↔ infinityWord < x.toBits.toNat % signWord := by
  show (unpack Format.binary64 x.toBits.toBitVec).isNaN = true ↔ _
  rw [isNaN_unpack, isNaNBits_iff, UInt64.toNat_toBitVec]

theorem ofFloat_of_isNaN {x : Float} (h : x.isNaN = true) : ofFloat x = .nan := by
  have hlt := (isNaN_iff x).mp h
  simp only [ofFloat, if_neg (Nat.lt_asymm hlt), if_neg (Nat.ne_of_gt hlt)]

/-! ## Signs and magnitudes -/

/-- A double is the one of its sign and its magnitude. -/
theorem ofWord_isNegative (x : Float) :
    ofWord (isNegative x) (x.toBits.toNat % signWord) = x := by
  have hlt : x.toBits.toNat < 2 ^ 64 := x.toBits.toBitVec.isLt
  have hword : (if isNegative x then signWord + x.toBits.toNat % signWord
      else x.toBits.toNat % signWord) = x.toBits.toNat := by
    simp only [isNegative, decide_eq_true_eq]
    rw [signWord_eq]
    split <;> omega
  rw [ofWord, hword, UInt64.ofNat_toNat, Float.ofBits_toBits]

/-- A bit pattern up to infinity is that of a double. -/
theorem toBits_ofBits {bits : UInt64} (h : bits.toNat % signWord ≤ infinityWord) :
    (Float.ofBits bits).toBits = bits := by
  have hnumber : ¬ @isNaNBits Format.binary64 bits.toBitVec = true := by
    rw [isNaNBits_iff, UInt64.toNat_toBitVec]
    exact Nat.not_lt.mpr h
  apply UInt64.toBitVec_inj.mp
  show pack Format.binary64 (unpack Format.binary64 bits.toBitVec) = bits.toBitVec
  rw [pack_unpack, if_neg hnumber]

/-- The bits of a double are those that it is made of. -/
theorem toNat_toBits_ofWord (negative : Bool) {word : Nat} (h : word ≤ infinityWord) :
    (ofWord negative word).toBits.toNat = if negative then signWord + word else word := by
  generalize hvalue : (if negative then signWord + word else word) = value
  have hbits : (UInt64.ofNat value).toNat = value := by
    apply UInt64.toNat_ofNat_of_lt'
    simp only [signWord_eq, infinityWord, exponentStep_eq, UInt64.size] at h hvalue ⊢
    split at hvalue <;> omega
  rw [ofWord, hvalue, toBits_ofBits, hbits]
  rw [hbits]
  simp only [signWord_eq, infinityWord, exponentStep_eq] at h hvalue ⊢
  split at hvalue <;> omega

theorem isNegative_ofWord (negative : Bool) {word : Nat} (h : word ≤ infinityWord) :
    isNegative (ofWord negative word) = negative := by
  rw [isNegative, toNat_toBits_ofWord negative h]
  simp only [signWord_eq, infinityWord, exponentStep_eq] at h ⊢
  cases negative with
  | true => exact decide_eq_true (by simp)
  | false => exact decide_eq_false (by simp; omega)

/-- The doubles up to infinity, of either sign, are numbers. -/
theorem isNaN_ofWord (negative : Bool) {word : Nat} (h : word ≤ infinityWord) :
    (ofWord negative word).isNaN = false := by
  rw [Bool.eq_false_iff, Ne, isNaN_iff, toNat_toBits_ofWord negative h]
  simp only [signWord_eq, infinityWord, exponentStep_eq] at h ⊢
  split <;> omega

/-- What is left beside the finite doubles and NaN are the two infinities. -/
theorem ofFloat_of_infinite {x : Float} (hfinite : x.isFinite = false) (hnumber : x.isNaN = false) :
    ofFloat x = .infinite (isNegative x) ∧ ofWord (isNegative x) infinityWord = x := by
  -- without its sign the word is neither below infinity nor above it
  have hge : ¬ x.toBits.toNat % signWord < infinityWord := by
    rw [← isFinite_iff, hfinite]
    exact Bool.false_ne_true
  have hle : ¬ infinityWord < x.toBits.toNat % signWord := by
    rw [← isNaN_iff, hnumber]
    exact Bool.false_ne_true
  have hword : x.toBits.toNat % signWord = infinityWord := by omega
  constructor
  · simp only [ofFloat, if_neg hge, if_pos hword, isNegative]
  · have hx := ofWord_isNegative x
    rwa [hword] at hx

/-! ## Packing -/

/-- A bit pattern is the number that its three fields make up. -/
theorem toNat_packComponents (sign : Sign) (exponent : BitVec Format.binary64.exponentBits)
    (mantissa : BitVec Format.binary64.mantissaBitsWithoutImplicit) :
    (packComponents Format.binary64 sign exponent mantissa).toNat =
      sign.toBitVec.toNat * signWord + exponent.toNat * exponentStep + mantissa.toNat := by
  have hmantissa : mantissa.toNat < 2 ^ 52 := mantissa.isLt
  have hexponent : exponent.toNat < 2 ^ 11 := exponent.isLt
  -- each field stands above the bits of the next one, so that `|||` is a sum
  rw [packComponents, BitVec.toNat_append, BitVec.toNat_append,
    ← Nat.shiftLeft_add_eq_or_of_lt hmantissa, ← Nat.shiftLeft_add_eq_or_of_lt hexponent,
    Nat.shiftLeft_eq, Nat.shiftLeft_eq, signWord_eq, exponentStep_eq]
  omega

/-- The sign stands above the exponent field. -/
theorem toNat_unpackSign (b : BitVec Format.binary64.numBits) :
    (unpackSign b).toNat = b.toNat / signWord % 2 := by
  simp [unpackSign, signWord, Nat.shiftRight_eq_div_pow]

end Formula.Binary64
