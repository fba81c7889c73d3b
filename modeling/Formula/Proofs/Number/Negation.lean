import Formula.Proofs.Number.ReadBack

/-!
# Negation flips the sign bit

The negation of a finite double has the same exponent and the same fraction, and the other sign
(`toNat_toBits_neg`).  So negating twice changes no finite double, the two zeros included
(`neg_neg_of_isFinite`), and a finite double with a set sign bit is written as a minus sign and its
negation (`Layout.toList_pointed_of_isNegative`).
-/

namespace Formula

namespace Binary64

open Float.Model (Format UnpackedFloat)
open Float.Model.UnpackedFloat

/-! ## Bit patterns -/

/-- The bit pattern with the other sign. -/
def flipSign (b : BitVec Format.binary64.numBits) : BitVec Format.binary64.numBits :=
  packComponents Format.binary64 (-Sign.ofBitVec (unpackSign b)) (unpackExponent b)
    (unpackMantissa b)

/-- Flipping the sign adds or takes away its value. -/
theorem toNat_flipSign (b : BitVec Format.binary64.numBits) :
    (flipSign b).toNat = if signWord ≤ b.toNat then b.toNat - signWord else b.toNat + signWord := by
  have hlt : b.toNat < 2 ^ 64 := b.isLt
  have hsign := toNat_unpackSign b
  rw [signWord_eq] at hsign
  rw [flipSign, toNat_packComponents, toNat_unpackExponent, toNat_unpackMantissa, signWord_eq,
    exponentStep_eq]
  -- exponent and fraction make up what is below the sign
  split
  · next hge =>
    -- a set sign is taken off
    have hset : unpackSign b = 1#1 := by
      rw [← BitVec.toNat_inj, hsign]
      show _ = 1
      omega
    have hflipped : (-Sign.ofBitVec (unpackSign b)).toBitVec.toNat = 0 := by rw [hset]; rfl
    rw [hflipped]
    omega
  · next hge =>
    -- a clear one is put on
    have hclear : unpackSign b = 0#1 := by
      rw [← BitVec.toNat_inj, hsign]
      show _ = 0
      omega
    have hflipped : (-Sign.ofBitVec (unpackSign b)).toBitVec.toNat = 1 := by rw [hclear]; rfl
    rw [hflipped]
    omega

/-- A bit pattern with the other sign denotes the negated number. -/
theorem unpack_flipSign (b : BitVec Format.binary64.numBits) :
    unpack Format.binary64 (flipSign b) = (unpack Format.binary64 b).neg := by
  simp only [unpack, flipSign, unpackMantissa_packComponents, unpackExponent_packComponents,
    unpackSign_packComponents, Sign.ofBitVec_toBitVec]
  -- the sign stands in the result only, and it has none for NaN
  split
  · split <;> rfl
  · split
    · split <;> rfl
    · rfl

/-- Negating a finite double flips its sign bit and leaves all others. -/
theorem toBits_neg {x : Float} (h : x.isFinite = true) :
    (-x).toBits.toBitVec = flipSign x.toBits.toBitVec := by
  show pack Format.binary64 (unpack Format.binary64 x.toBits.toBitVec).neg = _
  -- packing gives a bit pattern back unless it is one of NaN, and the flipped one is finite
  have hfinite : unpackExponent (flipSign x.toBits.toBitVec) ≠ -1#_ := by
    rw [flipSign, unpackExponent_packComponents]
    exact (isFinite_unpack_iff _).mp h
  have hnan : isNaNBits (flipSign x.toBits.toBitVec) = false :=
    decide_eq_false fun hones => hfinite hones.1
  rw [← unpack_flipSign, pack_unpack, hnan, if_neg Bool.false_ne_true]

/-! ## Doubles -/

variable {x : Float}

/-- The bits of the negation of a finite double. -/
theorem toNat_toBits_neg (h : x.isFinite = true) :
    (-x).toBits.toNat =
      if isNegative x then x.toBits.toNat - signWord else x.toBits.toNat + signWord := by
  have hbits : (-x).toBits.toNat = (flipSign x.toBits.toBitVec).toNat :=
    congrArg BitVec.toNat (toBits_neg h)
  rw [hbits, toNat_flipSign, UInt64.toNat_toBitVec]
  simp only [isNegative, decide_eq_true_eq]

/-- The magnitude of a finite double is that of its negation. -/
theorem toNat_toBits_neg_mod (h : x.isFinite = true) :
    (-x).toBits.toNat % signWord = x.toBits.toNat % signWord := by
  rw [toNat_toBits_neg h]
  split
  · next hsign =>
    have hle : signWord ≤ x.toBits.toNat := of_decide_eq_true hsign
    rw [Nat.mod_eq_sub_mod hle]
  · rw [Nat.add_mod_right]

theorem isFinite_neg (h : x.isFinite = true) : (-x).isFinite = true := by
  rw [isFinite_iff, toNat_toBits_neg_mod h]
  exact (isFinite_iff x).mp h

theorem isNegative_neg (h : x.isFinite = true) : isNegative (-x) = !isNegative x := by
  have hlt : x.toBits.toNat < 2 ^ 64 := x.toBits.toBitVec.isLt
  have hneg := toNat_toBits_neg h
  -- the negated bits are below the sign bit or not, against what they were
  cases hsign : isNegative x with
  | true =>
    have hle : signWord ≤ x.toBits.toNat := of_decide_eq_true hsign
    rw [hsign, if_pos rfl] at hneg
    rw [signWord_eq] at hneg hle
    apply decide_eq_false
    rw [hneg, signWord_eq]
    omega
  | false =>
    rw [hsign, if_neg Bool.false_ne_true] at hneg
    apply decide_eq_true
    rw [hneg]
    omega

theorem neg_neg_of_isFinite (h : x.isFinite = true) : -(-x) = x := by
  have hlt : x.toBits.toNat < 2 ^ 64 := x.toBits.toBitVec.isLt
  -- what the first negation adds to the bits the second one takes away
  have hbits : (-(-x)).toBits = x.toBits := by
    rw [← UInt64.toNat_inj, toNat_toBits_neg (isFinite_neg h), isNegative_neg h,
      toNat_toBits_neg h]
    cases hsign : isNegative x with
    | true =>
      have hle : signWord ≤ x.toBits.toNat := of_decide_eq_true hsign
      simp only [Bool.not_true, Bool.false_eq_true, ↓reduceIte]
      omega
    | false =>
      simp only [Bool.not_false, Bool.false_eq_true, ↓reduceIte]
      omega
  have heq := congrArg Float.ofBits hbits
  rwa [Float.ofBits_toBits, Float.ofBits_toBits] at heq

/-- What the negation of a finite double with a set sign bit denotes. -/
theorem ofFloat_of_isNegative (h : x.isFinite = true) (hsign : isNegative x = true) :
    ∃ units, ofFloat x = .finite true units ∧ ofFloat (-x) = .finite false units := by
  refine ⟨unitsOfWord (x.toBits.toNat % signWord), ?_, ?_⟩
  · rw [ofFloat_of_isFinite h, hsign]
  · rw [ofFloat_of_isFinite (isFinite_neg h), isNegative_neg h, toNat_toBits_neg_mod h, hsign]
    rfl

/-- A double that is made with a set sign bit is the negation of the one without. -/
theorem ofWord_true {word : Nat} (h : word ≤ infinityWord)
    (hfinite : (ofWord false word).isFinite = true) : ofWord true word = -ofWord false word := by
  have hneg := toNat_toBits_neg hfinite
  rw [isNegative_ofWord false h, toNat_toBits_ofWord false h, if_neg Bool.false_ne_true,
    if_neg Bool.false_ne_true] at hneg
  rw [← Float.toBits_inj, ← UInt64.toNat_inj, hneg, toNat_toBits_ofWord true h, if_pos rfl,
    Nat.add_comm]

end Binary64

/-- A finite double with a set sign bit is written as a minus sign and its negation. -/
theorem Layout.toList_pointed_of_isNegative {x : Float} (h : x.isFinite = true)
    (hsign : Binary64.isNegative x = true) :
    (pointed x).toList = '-' :: (pointed (-x)).toList := by
  obtain ⟨units, hx, hneg⟩ := Binary64.ofFloat_of_isNegative h hsign
  simp [pointed, write, hx, hneg]

/-- A finite decimal with a minus sign is read as the negation of the one without. -/
theorem Decimal.toFloat_true {d : Decimal} (h : (d.toFloat false).isFinite = true) :
    d.toFloat true = -d.toFloat false :=
  Binary64.ofWord_true (Nat.min_le_right _ _) h

end Formula
