import Formula.Proofs.Number.Bits

/-!
# Rounding to the nearest double

`nearestWord num den` depends on the quotient of its arguments only, and a quotient that is a double
is rounded to itself.
-/

namespace Formula.Binary64

/-! ## Quotients -/

theorem roundHalfEven_one (n : Nat) : roundHalfEven n 1 = n := by
  simp [roundHalfEven, Nat.mod_one]

/-- Only the quotient matters for rounding to naturals. -/
theorem roundHalfEven_mul_left {c : Nat} (hc : 0 < c) (num den : Nat) :
    roundHalfEven (c * num) (c * den) = roundHalfEven num den := by
  have htwice : 2 * (c * num % (c * den)) = c * (2 * (num % den)) := by
    rw [Nat.mul_mod_mul_left, Nat.mul_left_comm]
  simp only [roundHalfEven, Nat.mul_div_mul_left _ _ hc, htwice, Nat.mul_lt_mul_left hc]

theorem nearestWord_mul_left {c : Nat} (hc : 0 < c) (num den : Nat) :
    nearestWord (c * num) (c * den) = nearestWord num den := by
  simp only [nearestWord, Nat.mul_div_mul_left _ _ hc, Nat.mul_assoc, roundHalfEven_mul_left hc]

/-- Equal quotients are rounded alike. -/
theorem nearestWord_congr {num den num' den' : Nat} (hden : 0 < den) (hden' : 0 < den')
    (h : num * den' = num' * den) : nearestWord num den = nearestWord num' den' := by
  -- over the common denominator both are the same quotient
  rw [← nearestWord_mul_left hden' num den, ← nearestWord_mul_left hden num' den',
    Nat.mul_comm den' num, h, Nat.mul_comm den num', Nat.mul_comm den den']

/-! ## Doubles are rounded to themselves -/

theorem unitsOfWord_of_lt {word : Nat} (h : word < exponentStep) : unitsOfWord word = word := by
  simp only [unitsOfWord, Nat.div_eq_of_lt h, Nat.mod_eq_of_lt h, if_true]

/-- The units of normal numbers: a fraction with its leading bit and a power of two. -/
theorem unitsOfWord_normal (exponent : Nat) {fraction : Nat} (h : fraction < exponentStep) :
    unitsOfWord ((exponent + 1) * exponentStep + fraction) =
      (exponentStep + fraction) * Nat.pow 2 exponent := by
  have hpos : 0 < exponentStep := by decide
  have hdiv : ((exponent + 1) * exponentStep + fraction) / exponentStep = exponent + 1 := by
    rw [Nat.add_comm, Nat.add_mul_div_right _ _ hpos, Nat.div_eq_of_lt h, Nat.zero_add]
  have hmod : ((exponent + 1) * exponentStep + fraction) % exponentStep = fraction := by
    rw [Nat.add_comm, Nat.add_mul_mod_self_right, Nat.mod_eq_of_lt h]
  simp only [unitsOfWord, hdiv, hmod]
  rfl

/-- Below the normal numbers every count of units is a double. -/
theorem nearestWord_of_lt {units : Nat} (h : units < exponentStep) :
    nearestWord units 1 = units := by
  have hlog : units.log2 ≤ 52 := by
    by_cases hzero : units = 0
    · rw [hzero]
      decide
    · exact Nat.le_of_lt ((Nat.log2_lt hzero).mpr h)
  -- so no bit is shifted out
  have hshift : units.log2 - 52 = 0 := by omega
  have hpow : 1 * Nat.pow 2 0 = 1 := rfl
  simp only [nearestWord, Nat.div_one, hshift, hpow, roundHalfEven_one]
  simp only [exponentStep_eq, infinityWord] at h ⊢
  omega

/-- The leading bit of a normal number stands above the 52 bits of its fraction. -/
theorem log2_normal {exponent fraction : Nat} (h : fraction < exponentStep) :
    ((exponentStep + fraction) * Nat.pow 2 exponent).log2 = exponent + 52 := by
  have hpow : 0 < Nat.pow 2 exponent := Nat.two_pow_pos exponent
  have hne : (exponentStep + fraction) * Nat.pow 2 exponent ≠ 0 :=
    Nat.ne_of_gt (Nat.mul_pos (by simp only [exponentStep_eq]; omega) hpow)
  -- the implicit bit is the highest one, and the fraction stays below it
  rw [Nat.log2_eq_iff hne]
  have hlow : 2 ^ (exponent + 52) = exponentStep * Nat.pow 2 exponent := by
    rw [Nat.pow_add, Nat.mul_comm]
    rfl
  have hhigh : 2 ^ (exponent + 52 + 1) = 2 * exponentStep * Nat.pow 2 exponent := by
    rw [Nat.pow_succ, hlow, Nat.mul_comm, Nat.mul_assoc]
  rw [hlow, hhigh]
  exact ⟨Nat.mul_le_mul_right _ (Nat.le_add_right _ _), Nat.mul_lt_mul_of_pos_right (by omega) hpow⟩

theorem nearestWord_normal {exponent fraction : Nat} (h : fraction < exponentStep) :
    nearestWord ((exponentStep + fraction) * Nat.pow 2 exponent) 1 =
      min ((exponent + 1) * exponentStep + fraction) infinityWord := by
  have hpow : 0 < Nat.pow 2 exponent := Nat.two_pow_pos exponent
  have hround : roundHalfEven ((exponentStep + fraction) * Nat.pow 2 exponent)
      (1 * Nat.pow 2 exponent) = exponentStep + fraction := by
    rw [Nat.mul_comm, Nat.mul_comm 1, roundHalfEven_mul_left hpow, roundHalfEven_one]
  simp only [nearestWord, Nat.div_one, log2_normal h, Nat.add_sub_cancel, hround]
  rw [Nat.add_mul, Nat.one_mul, Nat.add_assoc]

/-- The units of a finite double are rounded to that double. -/
theorem nearestWord_unitsOfWord {word : Nat} (h : word < infinityWord) :
    nearestWord (unitsOfWord word) 1 = word := by
  have hpos : 0 < exponentStep := by decide
  have hfraction : word % exponentStep < exponentStep := Nat.mod_lt _ hpos
  -- the exponent field is zero for the subnormal numbers only
  cases hexponent : word / exponentStep with
  | zero =>
    have hlt : word < exponentStep := (Nat.div_eq_zero_iff_lt hpos).mp hexponent
    rw [unitsOfWord_of_lt hlt, nearestWord_of_lt hlt]
  | succ exponent =>
    -- a normal number: the exponent field counts from one
    have hword : word = (exponent + 1) * exponentStep + word % exponentStep := by
      rw [← hexponent, Nat.mul_comm, Nat.div_add_mod]
    rw [hword, unitsOfWord_normal exponent hfraction, nearestWord_normal hfraction, ← hword,
      Nat.min_eq_left (Nat.le_of_lt h)]

end Formula.Binary64
