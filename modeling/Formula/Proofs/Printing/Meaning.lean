import Formula.Proofs.Evaluation.Unlimited
import Formula.Proofs.Printing.Regrouping

/-!
# What printing keeps of the meaning of a tree

A tree that is read back from its canonical source has the value of the original, unless a power in
it has a literal with a bare sign as its base: `(-2 ^ 2)` is read as the negation of a power.
Signs of values and sign flags are otherwise interchangeable (`Value.applySign_magnitude`).

* `print_keeps_values`       which trees are read back, and which of those have the same values
* `not_forall_exists_parseWithin_print`       not all of them do
-/

namespace Formula

/-- A sign flag does what the sign of a value does. -/
theorem Value.applySign_magnitude {value : Value} (hfinite : value.isFinite = true)
    (hreadable : value.isReadable = true) (negative : Bool) :
    Arithmetic.applySign (negative != value.isNegative) value.magnitude =
      Arithmetic.applySign negative value := by
  cases value with
  | boolean b => cases negative <;> rfl
  | integer i =>
    -- a sign of its own goes to the node, and negating back gives what it was
    by_cases hsign : i < 0
    · have hneg := toInt_neg_of_ne (bne_iff_ne.mp hreadable)
      have hback : Arithmetic.negate (.integer (-i)) = .ok (.integer i) := by
        rw [Arithmetic.negate, hneg, Int.neg_neg, int64?_toInt]
      have hforth : Arithmetic.negate (.integer i) = .ok (.integer (-i)) := by
        rw [Arithmetic.negate, ← hneg, int64?_toInt]
      simp only [isNegative, magnitude, hsign, decide_true, if_true]
      cases negative with
      | false => exact hback
      | true => exact hforth.symm
    · simp [isNegative, magnitude, hsign]
  | real x =>
    by_cases hsign : Binary64.isNegative x = true
    · have hback : Arithmetic.negate (.real (-x)) = .ok (.real x) := by
        rw [Arithmetic.negate, Binary64.neg_neg_of_isFinite hfinite]
      simp only [isNegative, magnitude, hsign, if_true]
      cases negative with
      | false => exact hback
      | true => rfl
    · simp [isNegative, magnitude, hsign]

namespace Expr

/-- Whether a power in a tree has a base with a bare sign. -/
def raisesBareSign : Expr → Bool
  | .lit .. | .var .. => false
  | .binary _ op left right =>
    (op == .arithmetic .power && left.hasBareSign) || left.raisesBareSign || right.raisesBareSign
  | .cond _ condition whenTrue whenFalse =>
    condition.raisesBareSign || whenTrue.raisesBareSign || whenFalse.raisesBareSign

variable {tree : Expr}

/-- Where no power takes a bare sign over, a tree that is read back has the value of the tree. -/
theorem value_reread (env : Environment) (hprintable : tree.isPrintable = true)
    (hreadable : tree.isReadable = true) (hpowers : tree.raisesBareSign = false) :
    tree.reread.value env = tree.value env := by
  -- on the tree; signs that move are put back by `applySign_magnitude`
  induction tree with
  | lit negative value => exact Value.applySign_magnitude hprintable hreadable negative
  | var negative name => rfl
  | binary negative op left right ihl ihr =>
    simp only [isPrintable, Bool.and_eq_true] at hprintable
    simp only [isReadable, Bool.and_eq_true] at hreadable
    simp only [raisesBareSign, Bool.or_eq_false_iff, Bool.and_eq_false_imp, beq_iff_eq] at hpowers
    obtain ⟨⟨hbase, hl⟩, hr⟩ := hpowers
    -- no bare sign stands in front of a power, so nothing is regrouped
    have hbase : ¬ (op = .arithmetic .power ∧ left.hasBareSign = true) := by
      intro h
      exact absurd (hbase h.1) (by simp [h.2])
    rw [reread, if_neg hbase, value, value, ihl hprintable.1 hreadable.1 hl,
      ihr hprintable.2 hreadable.2 hr]
  | cond negative condition whenTrue whenFalse ihc iht ihf =>
    simp only [isPrintable, Bool.and_eq_true] at hprintable
    simp only [isReadable, Bool.and_eq_true] at hreadable
    simp only [raisesBareSign, Bool.or_eq_false_iff] at hpowers
    rw [reread, value, value, ihc hprintable.1.1 hreadable.1.1 hpowers.1.1,
      iht hprintable.1.2 hreadable.1.2 hpowers.1.2, ihf hprintable.2 hreadable.2 hpowers.2]

/-- The canonical source of a tree parses, under some limit, exactly if none of its literals is the
    least integer, and then always to the same tree of the same depth.  That one evaluates like the
    original wherever both fit below the limit, if no power has a base with a bare sign. -/
theorem print_keeps_values (hprintable : tree.isPrintable = true) :
    (∀ tree', (∃ limit, parseWithin limit tree.print = .ok tree') ↔
      tree.isReadable = true ∧ tree' = tree.reread) ∧
    tree.reread.depth = tree.depth ∧
    (tree.isReadable = true → tree.raisesBareSign = false → ∀ env limit, tree.depth ≤ limit →
      tree.reread.evaluateWithin limit env = tree.evaluateWithin limit env) := by
  refine ⟨exists_parseWithin_print_eq_ok_iff hprintable, tree.depth_reread,
    fun hreadable hpowers env limit hlimit => ?_⟩
  have hreread : tree.reread.depth ≤ limit := by rwa [depth_reread]
  rw [evaluateWithin_of_depth_le env _ hreread, evaluateWithin_of_depth_le env _ hlimit,
    value_reread env hprintable hreadable hpowers]

/-- A tree with a sign flag on a negative integer and a negative exponent, which is read back as a
    tree of the same value. -/
theorem print_keeps_values_exponent :
    let tree : Expr := .binary false (.arithmetic .multiply) (.lit true (.integer (-5)))
      (.binary true (.arithmetic .power) (.var false "x") (.lit false (.real (-0.5))))
    tree.isPrintable = true ∧ (∃ limit, parseWithin limit tree.print = .ok tree.reread) ∧
      ∀ env, tree.reread.evaluateWithin 3 env = tree.evaluateWithin 3 env := by
  intro tree
  have hprintable : tree.isPrintable = true := by decide +kernel
  have hreadable : tree.isReadable = true := by decide +kernel
  have hpowers : tree.raisesBareSign = false := by decide +kernel
  obtain ⟨hparse, -, hvalues⟩ := print_keeps_values hprintable
  exact ⟨hprintable, (hparse _).mpr ⟨hreadable, rfl⟩,
    fun env => hvalues hreadable hpowers env 3 (by decide)⟩

/-- Printing changes the meaning of a power of `-2`: its source is `(-2 ^ 2)`, and what that is read
    back as has the value `-4`. -/
theorem not_forall_exists_parseWithin_print :
    ¬ ∀ tree : Expr, tree.isPrintable = true →
      ∃ limit tree', parseWithin limit tree.print = .ok tree' ∧
        ∀ env n, tree.depth ≤ n → tree'.depth ≤ n →
          tree'.evaluateWithin n env = tree.evaluateWithin n env := by
  intro h
  let tree : Expr :=
    .binary false (.arithmetic .power) (.ofValue (.integer (-2))) (.ofValue (.integer 2))
  have hprintable : tree.isPrintable = true := rfl
  obtain ⟨limit, tree', hparse, hvalues⟩ := h tree hprintable
  obtain ⟨-, rfl⟩ := (exists_parseWithin_print_eq_ok_iff hprintable tree').mp ⟨limit, hparse⟩
  -- four, and minus four for the tree that the text is parsed as
  have hvalue : tree.evaluateWithin 2 .empty = .ok (.integer 4) := rfl
  have hreread : tree.reread.evaluateWithin 2 .empty = .ok (.integer (-4)) := rfl
  have heq := hvalues .empty 2 (by decide) (by decide)
  rw [hvalue, hreread] at heq
  exact absurd heq (by decide)

end Expr

end Formula
