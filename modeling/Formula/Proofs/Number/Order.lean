import Formula.Proofs.Number.Negation

/-!
# The order of doubles

Doubles are ordered with the exception of NaN, which has no place among them
(`order?_eq_none_iff`).  Comparing the other way round reverses the order (`order?_swap`), and `==`
is the equality of this order (`beq_iff_order?`), so that the two zeros are equal in both.
-/

namespace Formula.Binary64

open Float.Model (Format UnpackedFloat)
open Float.Model.UnpackedFloat

/-! ## What doubles denote -/

theorem unpacked_compare_swap (a b : UnpackedFloat) :
    b.compare a = (a.compare b).map Ordering.swap := by
  -- by kind; only two finite numbers are compared by what they hold
  cases a with
  | notANumber => cases b <;> simp [UnpackedFloat.compare]
  | infinity s =>
    cases b with
    | infinity t => cases s <;> cases t <;> rfl
    | notANumber | zero | finite => cases s <;> rfl
  | zero s =>
    cases b with
    | infinity t | finite t => cases t <;> rfl
    | notANumber | zero => rfl
  | finite s m e =>
    cases b with
    | infinity t => cases t <;> rfl
    | notANumber => rfl
    | zero => cases s <;> rfl
    | finite t m' e' =>
      -- with equal signs the exponents decide, and then the fractions
      have hmagnitudes : ((compare e e').then (compare m m')).swap =
          (compare e' e).then (compare m' m) := by
        rw [Ordering.swap_then, Int.compare_swap, Nat.compare_swap]
      cases s <;> cases t <;> simp [UnpackedFloat.compare, hmagnitudes]

theorem unpacked_compare_eq_none_iff {a b : UnpackedFloat} :
    a.compare b = none ↔ a.isNaN = true ∨ b.isNaN = true := by
  -- every pair of kinds but one with `notANumber` has an order
  cases a with
  | notANumber => simp [UnpackedFloat.compare, UnpackedFloat.isNaN]
  | infinity s => cases s <;> cases b <;> simp [UnpackedFloat.compare, UnpackedFloat.isNaN]
  | zero s =>
    cases b with
    | infinity t | finite t => cases t <;> simp [UnpackedFloat.compare, UnpackedFloat.isNaN]
    | notANumber | zero => simp [UnpackedFloat.compare, UnpackedFloat.isNaN]
  | finite s =>
    cases b with
    | infinity t | finite t =>
      cases s <;> cases t <;> simp [UnpackedFloat.compare, UnpackedFloat.isNaN]
    | notANumber | zero => cases s <;> simp [UnpackedFloat.compare, UnpackedFloat.isNaN]

/-! ## Comparing doubles -/

theorem lt_iff_compare (x y : Float) :
    x < y ↔ x.toModel.unpack.compare y.toModel.unpack = some .lt := by
  show decide (x.toModel < y.toModel) = true ↔ _
  rw [decide_eq_true_iff]
  show x.toModel.unpack.lt y.toModel.unpack = true ↔ _
  rw [UnpackedFloat.lt, beq_iff_eq]

theorem beq_iff_compare (x y : Float) :
    (x == y) = true ↔ x.toModel.unpack.compare y.toModel.unpack = some .eq := by
  show x.toModel.unpack.beq y.toModel.unpack = true ↔ _
  rw [UnpackedFloat.beq, beq_iff_eq]

/-- The three questions that `order?` asks are one comparison. -/
theorem order?_eq_compare (x y : Float) :
    order? x y = x.toModel.unpack.compare y.toModel.unpack := by
  unfold order?
  simp only [lt_iff_compare, beq_iff_compare,
    unpacked_compare_swap x.toModel.unpack y.toModel.unpack]
  cases x.toModel.unpack.compare y.toModel.unpack with
  | none => simp
  | some order => cases order <;> simp

theorem order?_swap (x y : Float) : order? y x = (order? x y).map Ordering.swap := by
  rw [order?_eq_compare, order?_eq_compare, unpacked_compare_swap]

theorem order?_eq_none_iff {x y : Float} :
    order? x y = none ↔ x.isNaN = true ∨ y.isNaN = true := by
  rw [order?_eq_compare]
  exact unpacked_compare_eq_none_iff

theorem beq_iff_order? (x y : Float) : (x == y) = true ↔ order? x y = some .eq := by
  rw [order?_eq_compare, beq_iff_compare]

/-- An integer is never converted to a NaN. -/
theorem isNaN_ofInt (i : Int) : (ofInt i).isNaN = false :=
  isNaN_ofWord _ (Nat.min_le_right _ _)

end Formula.Binary64
