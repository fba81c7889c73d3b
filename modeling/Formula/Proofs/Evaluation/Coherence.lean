import Formula.Proofs.Evaluation.Unlimited
import Formula.Proofs.Number.Order

/-!
# Comparisons form one order

Comparators and distinctness are defined apart from each other, with cases of their own for the
kinds of values.  On two numbers both come down to one order, `Value.order?`: that of the integers,
or that of the doubles to which the numbers are promoted.  A NaN has no place in it.

## Key results

* `Comparator.onValues_of_isNumeric`, `Value.differs_of_isNumeric`: the part of the order
* `Value.order?_swap`, `Value.order?_eq_none_iff`: the laws of the order
* `Expr.comparisons_coherent`: what follows for the operators between two expressions
-/

namespace Formula

namespace Value

variable {a b : Value}

/-- Whether a value is the real that is not a number. -/
def isNaN : Value → Bool
  | .real x => x.isNaN
  | _ => false

/-- The order of two numbers, as integers if both are and as reals otherwise. -/
def order? (a b : Value) : Option Ordering :=
  match a, b with
  | .integer i, .integer j => some (compare i.toInt j.toInt)
  | _, _ => do Binary64.order? (← a.asReal?) (← b.asReal?)

/-! ## The laws of the order -/

/-- Seen from the other side the order is the reverse. -/
theorem order?_swap (ha : a.isNumeric = true) (hb : b.isNumeric = true) :
    order? b a = (order? a b).map Ordering.swap := by
  cases a with
  | boolean => cases ha
  | integer i =>
    cases b with
    | boolean => cases hb
    -- two integers are compared as they are, any other two numbers as reals
    | integer j => simp [order?, Int.compare_swap]
    | real y => exact Binary64.order?_swap _ _
  | real x =>
    cases b with
    | boolean => cases hb
    | integer | real => exact Binary64.order?_swap _ _

/-- Of two numbers only a NaN has no order to the other.  An integer never becomes one. -/
theorem order?_eq_none_iff (ha : a.isNumeric = true) (hb : b.isNumeric = true) :
    order? a b = none ↔ a.isNaN = true ∨ b.isNaN = true := by
  cases a with
  | boolean => cases ha
  | integer i =>
    cases b with
    | boolean => cases hb
    | integer j => simp [order?, isNaN]
    | real y =>
      -- an integer is never NaN, also as a real
      have hnone := Binary64.order?_eq_none_iff (x := Binary64.ofInt i.toInt) (y := y)
      rwa [Binary64.isNaN_ofInt] at hnone
  | real x =>
    cases b with
    | boolean => cases hb
    | integer j =>
      have hnone := Binary64.order?_eq_none_iff (x := x) (y := Binary64.ofInt j.toInt)
      rwa [Binary64.isNaN_ofInt] at hnone
    | real y => exact Binary64.order?_eq_none_iff

/-- Numbers differ unless they are equal in the order. -/
theorem differs_of_isNumeric (ha : a.isNumeric = true) (hb : b.isNumeric = true) :
    a.differs b = (order? a b != some .eq) := by
  -- inequality of reals is that they are not ordered as equal
  have hreals (x y : Float) : (x != y) = (Binary64.order? x y != some .eq) := by
    unfold bne
    rw [Bool.eq_iff_iff, Bool.not_eq_true', Bool.not_eq_true', ← Bool.not_eq_true,
      ← Bool.not_eq_true, Binary64.beq_iff_order?, beq_iff_eq]
  cases a with
  | boolean => cases ha
  | integer i =>
    cases b with
    | boolean => cases hb
    | integer j =>
      -- two integers differ as their values do
      have hcompare : compare i.toInt j.toInt = .eq ↔ i = j := by
        rw [Int.compare_eq_eq, Int64.toInt_inj]
      show (i != j) = (some (compare i.toInt j.toInt) != some .eq)
      rw [Bool.eq_iff_iff, bne_iff_ne, bne_iff_ne, Ne, Ne, Option.some_inj, hcompare]
    | real y => exact hreals _ _
  | real x =>
    cases b with
    | boolean => cases hb
    | integer | real => exact hreals _ _

end Value

namespace Comparator

variable {a b : Value}

/-- Whether a comparator holds of two numbers in the given order. -/
def holds? (comparator : Comparator) : Option Ordering → Bool
  | some order => comparator.holds order
  | none => comparator == .notEqual

/-- The comparator that asks the same from the other side. -/
def reversed : Comparator → Comparator
  | .lessThan => .greaterThan
  | .lessThanOrEqual => .greaterThanOrEqual
  | .greaterThan => .lessThan
  | .greaterThanOrEqual => .lessThanOrEqual
  | .equal => .equal
  | .notEqual => .notEqual

theorem holds?_swap (comparator : Comparator) (order? : Option Ordering) :
    comparator.holds? (order?.map Ordering.swap) = comparator.reversed.holds? order? := by
  cases order? with
  | none => cases comparator <;> rfl
  | some order => cases comparator <;> cases order <;> rfl

/-- On numbers a comparator asks for their order. -/
theorem onValues_of_isNumeric (comparator : Comparator) (ha : a.isNumeric = true)
    (hb : b.isNumeric = true) :
    comparator.onValues a b = .ok (comparator.holds? (a.order? b)) := by
  -- numbers can be compared by every comparator
  have horder : comparator.order a b = .ok (a.order? b) := by
    cases a with
    | boolean => cases ha
    | integer | real =>
      cases b with
      | boolean => cases hb
      | integer | real => rfl
  unfold onValues
  rw [horder]
  cases a.order? b <;> rfl

/-- Truth values are compared with "equal" and "not equal" only. -/
theorem onValues_boolean (comparator : Comparator) (h : comparator.isOrdering = false)
    (p q : Bool) : comparator.onValues (.boolean p) (.boolean q) =
      .ok (comparator.holds (compare p q)) := by
  cases comparator with
  | equal | notEqual => rfl
  | _ => cases h

/-- Where a truth value meets a number, or an order is asked for, there is a mismatch. -/
theorem exists_onValues_eq_typeMismatch (comparator : Comparator)
    (hboolean : a.isNumeric = false ∨ b.isNumeric = false)
    (hmixed : a.isNumeric = b.isNumeric → comparator.isOrdering = true) :
    ∃ mismatch, comparator.onValues a b = .error (.typeMismatch mismatch) := by
  cases a with
  | integer | real =>
    cases b with
    | integer | real => rcases hboolean with h | h <;> cases h
    | boolean => exact ⟨_, rfl⟩
  | boolean p =>
    cases b with
    | integer | real => exact ⟨_, rfl⟩
    | boolean q =>
      -- of two truth values only the order is refused
      unfold onValues order
      simp only [hmixed rfl, if_true]
      exact ⟨_, rfl⟩

/-- An order needs two numbers, and nothing else. -/
theorem exists_onValues_eq_error_iff (comparator : Comparator)
    (hordering : comparator.isOrdering = true) :
    (∃ e, comparator.onValues a b = .error e) ↔ a.isNumeric = false ∨ b.isNumeric = false := by
  constructor
  · rintro ⟨e, he⟩
    -- two numbers are compared without an error
    by_contra hnumeric
    rw [not_or, Bool.not_eq_false, Bool.not_eq_false] at hnumeric
    rw [comparator.onValues_of_isNumeric hnumeric.1 hnumeric.2] at he
    cases he
  · intro hboolean
    obtain ⟨mismatch, hmismatch⟩ :=
      comparator.exists_onValues_eq_typeMismatch hboolean fun _ => hordering
    exact ⟨_, hmismatch⟩

/-- On numbers a comparator and the reversed one give the same from the two sides. -/
theorem onValues_reversed (comparator : Comparator) (ha : a.isNumeric = true)
    (hb : b.isNumeric = true) : comparator.reversed.onValues b a = comparator.onValues a b := by
  rw [onValues_of_isNumeric _ hb ha, onValues_of_isNumeric _ ha hb, Value.order?_swap ha hb,
    holds?_swap]
  cases comparator <;> rfl

/-- With a NaN on one side, nothing holds but "not equal". -/
theorem onValues_of_isNaN (comparator : Comparator) (ha : a.isNumeric = true)
    (hb : b.isNumeric = true) (hnan : a.isNaN = true ∨ b.isNaN = true)
    (hcomparator : comparator ≠ .notEqual) : comparator.onValues a b = .ok false := by
  rw [onValues_of_isNumeric _ ha hb, (Value.order?_eq_none_iff ha hb).mpr hnan, holds?,
    beq_false_of_ne hcomparator]

/-- Otherwise the order is total. -/
theorem exists_trichotomy (ha : a.isNumeric = true) (hb : b.isNumeric = true)
    (ha' : a.isNaN = false) (hb' : b.isNaN = false) :
    ∃ less same greater, lessThan.onValues a b = .ok less ∧ equal.onValues a b = .ok same ∧
      greaterThan.onValues a b = .ok greater ∧ [less, same, greater].count true = 1 ∧
      lessThanOrEqual.onValues a b = .ok (!greater) := by
  have hnone := Value.order?_eq_none_iff ha hb
  simp only [onValues_of_isNumeric _ ha hb]
  -- what is left is about the order of the two alone
  generalize a.order? b = order? at hnone
  cases order? with
  | none =>
    -- unordered numbers would have to be NaN
    rw [ha', hb'] at hnone
    exact absurd (hnone.mp rfl) (by simp)
  | some order =>
    refine ⟨_, _, _, rfl, rfl, rfl, ?_, ?_⟩
    · -- by the three orders
      cases order <;> rfl
    · cases order <;> rfl

end Comparator

/-! ## Equality and distinctness -/

namespace Value

variable {a b : Value}

/-- Two truth values, or two numbers, are either equal, or not equal and different. -/
theorem exists_equal (h : a.isNumeric = b.isNumeric) :
    ∃ equal, Comparator.equal.onValues a b = .ok equal ∧
      Comparator.notEqual.onValues a b = .ok (!equal) ∧ a.differs b = !equal := by
  cases ha : a.isNumeric with
  | true =>
    have hb := h.symm.trans ha
    -- for numbers all three are read off one order
    rw [Comparator.onValues_of_isNumeric _ ha hb, Comparator.onValues_of_isNumeric _ ha hb,
      differs_of_isNumeric ha hb]
    refine ⟨_, rfl, ?_, ?_⟩
    · cases order? a b <;> rfl
    · cases order? a b with
      | none => rfl
      | some order => cases order <;> rfl
  | false =>
    have hb := h.symm.trans ha
    cases a with
    | integer | real => cases ha
    | boolean p =>
      cases b with
      | integer | real => cases hb
      | boolean q =>
        -- two truth values
        rw [Comparator.onValues_boolean _ rfl, Comparator.onValues_boolean _ rfl]
        refine ⟨_, rfl, rfl, ?_⟩
        cases p <;> cases q <;> rfl

theorem exists_boolean_of_ne (h : a.isNumeric ≠ b.isNumeric) :
    a.isNumeric = false ∨ b.isNumeric = false := by
  cases ha : a.isNumeric with
  | true => exact .inr (Bool.eq_false_iff.mpr fun hb => h (ha.trans hb.symm))
  | false => exact .inl rfl

/-- A truth value always differs from a number. -/
theorem differs_of_ne (h : a.isNumeric ≠ b.isNumeric) : a.differs b = true := by
  cases a with
  | integer | real =>
    cases b with
    | integer | real => exact absurd rfl h
    | boolean => rfl
  | boolean p =>
    cases b with
    | integer | real => rfl
    | boolean => exact absurd rfl h

end Value

/-! ## The operators between two expressions -/

namespace Expr

variable {env : Environment} {limit : Nat} {left right : Expr} {a b : Value}

theorem evaluateWithin_compare (hleft : left.evaluateWithin limit env = .ok a)
    (hright : right.evaluateWithin limit env = .ok b) (comparator : Comparator) :
    (binary false (.compare comparator) left right).evaluateWithin (limit + 1) env =
      (comparator.onValues a b).map .boolean := by
  rw [evaluateWithin_binary _ hleft hright]
  show (comparator.onValues a b >>= fun holds => .ok (Value.boolean holds)) = _
  cases comparator.onValues a b <;> rfl

theorem evaluateWithin_distinct (hleft : left.evaluateWithin limit env = .ok a)
    (hright : right.evaluateWithin limit env = .ok b) :
    (binary false .distinct left right).evaluateWithin (limit + 1) env =
      .ok (.boolean (a.differs b)) := by
  rw [evaluateWithin_binary _ hleft hright]
  rfl

/-- What the comparisons of two expressions have to do with each other and with their distinctness,
    where both expressions have values within the limit that is left below the operator.

    Two truth values or two numbers can be compared for equality, and "not equal" and "differs" are
    both its negation.  A truth value and a number cannot, and differ.  An order needs two numbers.
    It is the same from both sides, and total unless one of the two is a NaN; then no comparison
    holds but "not equal". -/
theorem comparisons_coherent (hleft : left.evaluateWithin limit env = .ok a)
    (hright : right.evaluateWithin limit env = .ok b) :
    let compared (comparator : Comparator) :=
      (binary false (.compare comparator) left right).evaluateWithin (limit + 1) env
    let swapped (comparator : Comparator) :=
      (binary false (.compare comparator) right left).evaluateWithin (limit + 1) env
    let distinct := (binary false .distinct left right).evaluateWithin (limit + 1) env
    (a.isNumeric = b.isNumeric → ∃ equal, compared .equal = .ok (.boolean equal) ∧
      compared .notEqual = .ok (.boolean (!equal)) ∧ distinct = .ok (.boolean (!equal))) ∧
    (a.isNumeric ≠ b.isNumeric →
      (∃ mismatch, compared .equal = .error (.typeMismatch mismatch)) ∧
      (∃ mismatch, compared .notEqual = .error (.typeMismatch mismatch)) ∧
      distinct = .ok (.boolean true)) ∧
    (∀ comparator : Comparator, comparator.isOrdering = true →
      ((∃ e, compared comparator = .error e) ↔ a.isNumeric = false ∨ b.isNumeric = false)) ∧
    (a.isNumeric = true → b.isNumeric = true →
      compared .lessThan = swapped .greaterThan ∧
      compared .lessThanOrEqual = swapped .greaterThanOrEqual ∧
      (a.isNaN = false → b.isNaN = false → ∃ less equal greater,
        compared .lessThan = .ok (.boolean less) ∧ compared .equal = .ok (.boolean equal) ∧
        compared .greaterThan = .ok (.boolean greater) ∧ [less, equal, greater].count true = 1 ∧
        compared .lessThanOrEqual = .ok (.boolean (!greater))) ∧
      (a.isNaN = true ∨ b.isNaN = true → ∀ comparator : Comparator, comparator ≠ .notEqual →
        compared comparator = .ok (.boolean false))) := by
  intro compared swapped distinct
  -- the three trees give what the operations give on the two values
  have hcompared (comparator : Comparator) :
      compared comparator = (comparator.onValues a b).map .boolean :=
    evaluateWithin_compare hleft hright comparator
  have hswapped (comparator : Comparator) :
      swapped comparator = (comparator.onValues b a).map .boolean :=
    evaluateWithin_compare hright hleft comparator
  have hdistinct : distinct = .ok (.boolean (a.differs b)) :=
    evaluateWithin_distinct hleft hright
  simp only [hcompared, hswapped, hdistinct]
  refine ⟨?_, ?_, ?_, ?_⟩
  · -- values of one kind
    intro hsame
    obtain ⟨equal, hequal, hnotEqual, hdiffers⟩ := Value.exists_equal hsame
    rw [hequal, hnotEqual, hdiffers]
    exact ⟨equal, rfl, rfl, rfl⟩
  · -- a number and a truth value
    intro hmixed
    have hboolean := Value.exists_boolean_of_ne hmixed
    have hmismatch (comparator : Comparator) :=
      comparator.exists_onValues_eq_typeMismatch hboolean fun hsame => absurd hsame hmixed
    obtain ⟨mismatch, hequal⟩ := hmismatch .equal
    obtain ⟨mismatch', hnotEqual⟩ := hmismatch .notEqual
    rw [hequal, hnotEqual, Value.differs_of_ne hmixed]
    exact ⟨⟨mismatch, rfl⟩, ⟨mismatch', rfl⟩, rfl⟩
  · -- comparisons by order
    intro comparator hordering
    rw [← comparator.exists_onValues_eq_error_iff hordering]
    cases comparator.onValues a b <;> simp [Except.map]
  · -- two numbers: their comparisons the other way around, all three of them, and NaN
    intro ha hb
    have hreversed (comparator : Comparator) := comparator.onValues_reversed ha hb
    refine ⟨?_, ?_, ?_, ?_⟩
    · rw [← hreversed .lessThan]
      rfl
    · rw [← hreversed .lessThanOrEqual]
      rfl
    · intro ha' hb'
      obtain ⟨less, equal, greater, hless, hequal, hgreater, hcount, hle⟩ :=
        Comparator.exists_trichotomy ha hb ha' hb'
      rw [hless, hequal, hgreater, hle]
      exact ⟨less, equal, greater, rfl, rfl, rfl, hcount, rfl⟩
    · intro hnan comparator hcomparator
      rw [comparator.onValues_of_isNaN ha hb hnan hcomparator]
      rfl

/-- A NaN is no number that one is less than, equal to or greater than, and differs from it. -/
theorem comparisons_coherent_nan :
    let env : Environment := Bindings.empty
    let left : Expr := .lit false (.integer 1)
    let right : Expr := .lit false (.real Binary64.notANumber)
    left.evaluateWithin 1 env = .ok (.integer 1) ∧
    right.evaluateWithin 1 env = .ok (.real Binary64.notANumber) ∧
    (∀ comparator : Comparator, comparator ≠ .notEqual →
      (binary false (.compare comparator) left right).evaluateWithin 2 env =
        .ok (.boolean false)) ∧
    (binary false .distinct left right).evaluateWithin 2 env = .ok (.boolean true) := by
  intro env left right
  have hleft : left.evaluateWithin 1 env = .ok (.integer 1) := rfl
  have hright : right.evaluateWithin 1 env = .ok (.real Binary64.notANumber) := rfl
  obtain ⟨hequality, -, -, hnumbers⟩ := comparisons_coherent hleft hright
  -- the two numbers differ, but no other comparison of them holds
  obtain ⟨-, -, -, hnan⟩ := hnumbers rfl rfl
  have hfalse := hnan (.inr (by decide +kernel))
  obtain ⟨equal, hequal, -, hdistinct⟩ := hequality rfl
  -- "equal" is among the comparisons that do not hold
  rw [hfalse .equal (by decide)] at hequal
  cases hequal
  exact ⟨hleft, hright, hfalse, hdistinct⟩

end Expr

end Formula
