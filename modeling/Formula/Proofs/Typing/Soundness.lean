import Formula.Proofs.Evaluation.Unlimited
import Formula.Proofs.Typing.Unlimited

/-!
# Type soundness

An evaluation of a tree with a type gives a value that fits the type, or fails for a reason that
types do not see: a division by zero, an overflow, or a negative exponent.

A value *fits* a type if it has the type, or if it is an integer where a real is expected.  The
second case is needed: a conditional with an integer and a real branch has the type of reals, and
hands on the integer if it chooses so.  `Value.Fits` is therefore the invariant of the induction,
and every operation has to put up with an integer in the place of a real.
-/

namespace Formula

/-- A value may stand for a type if it has the type, and an integer also for a real. -/
def Value.Fits (v : Value) (t : ValueType) : Prop :=
  v.type = t ∨ t = .real ∧ v.type = .integer

/-- The failures that depend on the values of numbers and not on types. -/
def EvalError.isArithmetic : EvalError → Bool
  | .divisionByZero | .overflow _ | .negativeExponent _ => true
  | .typeMismatch _ | .unboundVariable _ | .depthLimitExceeded _ => false

/-- A result that a tree of the given type may have. -/
def ValueType.Admits (t : ValueType) : Except EvalError Value → Prop
  | .ok v => v.Fits t
  | .error e => e.isArithmetic

/-- Every declared variable is bound to a value that fits its type. -/
def Environment.Serves (env : Environment) (types : TypeEnvironment) : Prop :=
  ∀ name t, types.find? name = some t → ∃ v, env.find? name = some v ∧ v.Fits t

/-! ## Values that fit -/

namespace Value

variable {v : Value} {t : ValueType}

theorem fits_type (v : Value) : v.Fits v.type := .inl rfl

/-- Only truth values fit the type of truth values. -/
theorem Fits.exists_boolean (h : v.Fits .boolean) : ∃ b, v = .boolean b := by
  cases v with
  | boolean b => exact ⟨b, rfl⟩
  | integer i | real x => simp [Fits, type] at h

/-- Only integers fit the type of integers. -/
theorem Fits.exists_integer (h : v.Fits .integer) : ∃ i, v = .integer i := by
  cases v with
  | integer i => exact ⟨i, rfl⟩
  | boolean b | real x => simp [Fits, type] at h

/-- What fits the type of a number is a number. -/
theorem Fits.isNumeric (h : v.Fits t) (ht : t.isNumeric) : v.isNumeric := by
  obtain h | ⟨-, h⟩ := h
  · rwa [Value.isNumeric, h]
  · rw [Value.isNumeric, h]
    rfl

/-- Integers fit wherever reals do. -/
theorem Fits.promoted (h : v.Fits .integer) : v.Fits .real := by
  obtain ⟨i, rfl⟩ := h.exists_integer
  exact .inr ⟨rfl, rfl⟩

end Value

/-- Two types with a common type are equal, or one is promoted to the other. -/
theorem ValueType.eq_or_promoted_of_unify {s t u : ValueType} (h : s.unify t = some u) :
    u = s ∧ u = t ∨ u = .real ∧ (s = .integer ∧ t = .real ∨ s = .real ∧ t = .integer) := by
  cases s <;> cases t <;> cases h <;> simp

/-- What fits one of two types fits their common type. -/
theorem Value.Fits.unify_left {v : Value} {s t u : ValueType} (h : v.Fits s)
    (hu : s.unify t = some u) : v.Fits u := by
  obtain ⟨rfl, -⟩ | ⟨rfl, ⟨rfl, -⟩ | ⟨rfl, -⟩⟩ := ValueType.eq_or_promoted_of_unify hu
  · exact h
  · exact h.promoted
  · exact h

theorem Value.Fits.unify_right {v : Value} {s t u : ValueType} (h : v.Fits s)
    (hu : t.unify s = some u) : v.Fits u := by
  obtain ⟨-, rfl⟩ | ⟨rfl, ⟨-, rfl⟩ | ⟨-, rfl⟩⟩ := ValueType.eq_or_promoted_of_unify hu
  · exact h
  · exact h
  · exact h.promoted

/-- Types with a common type are both those of numbers or both that of truth values. -/
theorem ValueType.numeric_or_boolean_of_unify {s t : ValueType} (h : (s.unify t).isSome) :
    s.isNumeric ∧ t.isNumeric ∨ s = .boolean ∧ t = .boolean := by
  cases s <;> cases t <;> simp_all [ValueType.unify, ValueType.isNumeric]

namespace ValueType

variable {s t u : ValueType}

/-- In a sequence, a failure has to be a permitted one and a value has to lead on to a permitted
    result. -/
theorem Admits.bind {x : Except EvalError Value} {f : Value → Except EvalError Value}
    (hx : s.Admits x) (hf : ∀ v, v.Fits s → t.Admits (f v)) : t.Admits (x >>= f) := by
  cases x with
  | ok v => exact hf v hx
  | error e => exact hx

/-- A type admits what a type with fewer fitting values admits. -/
theorem Admits.imp {x : Except EvalError Value} (hx : s.Admits x)
    (h : ∀ v : Value, v.Fits s → v.Fits t) : t.Admits x := by
  cases x with
  | ok v => exact h v hx
  | error e => exact hx

theorem admits_boolean (b : Bool) : ValueType.boolean.Admits (.ok (.boolean b)) := .inl rfl

/-- An integer may stand for every number. -/
theorem Admits.of_integer {x : Except EvalError Value} (hx : ValueType.integer.Admits x)
    (ht : t.isNumeric) : t.Admits x := by
  apply hx.imp
  intro v hv
  obtain ⟨i, rfl⟩ := hv.exists_integer
  cases t with
  | integer => exact .inl rfl
  | real => exact .inr ⟨rfl, rfl⟩
  | boolean => exact nomatch ht

/-- Only the type of reals has reals. -/
theorem eq_real_of_fits {x : Float} (h : (Value.real x).Fits t) : t = .real := by
  obtain h | ⟨h, -⟩ := h
  · exact h.symm
  · exact h

theorem isNumeric_promoted (s t : ValueType) : (Checker.promoted s t).isNumeric := by
  cases s <;> cases t <;> rfl

theorem promoted_real_left (t : ValueType) : Checker.promoted .real t = .real := rfl

theorem promoted_real_right (s : ValueType) : Checker.promoted s .real = .real := by
  cases s <;> rfl

end ValueType

/-! ## Operations -/

namespace Arithmetic

/-- Passing the gate of 64 bits or not, an integer result is a permitted one. -/
theorem admits_bounded (op : Arithmetic) (i : Int) :
    ValueType.integer.Admits ((bounded op i).map .integer) := by
  unfold bounded
  split
  · exact .inl rfl
  · rfl

/-- Two integers give an integer or an arithmetic failure. -/
theorem admits_onIntegers (op : Arithmetic) (a b : Int64) :
    ValueType.integer.Admits ((op.onIntegers a b).map .integer) := by
  -- what is bounded is an integer or overflows; the other failures are divisors and exponents
  cases op with
  | add | subtract | multiply => exact admits_bounded _ _
  | divide =>
    simp only [onIntegers]
    split
    · rfl
    · exact admits_bounded _ _
  | modulo =>
    simp only [onIntegers]
    split
    · rfl
    · -- the failure is that of the quotient, under the name of the remainder
      split
      · exact admits_bounded _ _
      · next he =>
        have h := admits_bounded .modulo (a.toInt.tdiv b.toInt)
        rwa [he] at h
  | power =>
    simp only [onIntegers]
    split
    · rfl
    · split
      · exact admits_bounded _ _
      · rfl

/-- Two numbers give a number of the promoted type, or an integer if both were integers. -/
theorem admits_onValues (op : Arithmetic) {v w : Value} {s t : ValueType} (hv : v.Fits s)
    (hw : w.Fits t) (hs : s.isNumeric) (ht : t.isNumeric) :
    (Checker.promoted s t).Admits (op.onValues v w) := by
  -- a real operand has a real type, so the promoted type is that of reals as well
  cases v with
  | boolean b => exact nomatch hv.isNumeric hs
  | integer i =>
    cases w with
    | boolean b => exact nomatch hw.isNumeric ht
    | integer j =>
      exact (admits_onIntegers op i j).of_integer (ValueType.isNumeric_promoted s t)
    | real y =>
      rw [ValueType.eq_real_of_fits hw, ValueType.promoted_real_right]
      exact .inl rfl
  | real x =>
    rw [ValueType.eq_real_of_fits hv, ValueType.promoted_real_left]
    cases w with
    | boolean b => exact nomatch hw.isNumeric ht
    | integer j | real y => exact .inl rfl

/-- The sign flag of a number does not change what types the number fits. -/
theorem admits_applySign {v : Value} {t : ValueType} {negative : Bool} (hv : v.Fits t)
    (ht : negative → t.isNumeric) : t.Admits (applySign negative v) := by
  cases negative with
  | false => exact hv
  | true =>
    cases v with
    | boolean b => exact nomatch hv.isNumeric (ht rfl)
    | real x => exact hv
    | integer i =>
      -- the least integer has no negation
      simp only [applySign, negate, ↓reduceIte]
      split
      · exact hv
      · rfl

end Arithmetic

namespace Comparator

/-- Two numbers are never refused, although they may have no order. -/
theorem exists_order_of_numeric (comparator : Comparator) {v w : Value} (hv : v.isNumeric)
    (hw : w.isNumeric) : ∃ o, comparator.order v w = .ok o := by
  cases v with
  | boolean b => exact nomatch hv
  | integer i | real x =>
    cases w with
    | boolean b => exact nomatch hw
    | integer j | real y => exact ⟨_, rfl⟩

/-- Numbers can be compared in every way, and truth values for equality. -/
theorem exists_onValues (comparator : Comparator) {v w : Value} {s t : ValueType}
    (hv : v.Fits s) (hw : w.Fits t)
    (h : if comparator.isOrdering then s.isNumeric ∧ t.isNumeric else (s.unify t).isSome) :
    ∃ b, comparator.onValues v w = .ok b := by
  -- a mismatch of types is the only way to fail
  have ho : ∃ o, comparator.order v w = .ok o := by
    cases hc : comparator.isOrdering with
    | true =>
      rw [hc] at h
      exact exists_order_of_numeric comparator (hv.isNumeric h.1) (hw.isNumeric h.2)
    | false =>
      rw [hc] at h
      obtain ⟨hs, ht⟩ | ⟨rfl, rfl⟩ := ValueType.numeric_or_boolean_of_unify h
      · exact exists_order_of_numeric comparator (hv.isNumeric hs) (hw.isNumeric ht)
      · obtain ⟨a, rfl⟩ := hv.exists_boolean
        obtain ⟨b, rfl⟩ := hw.exists_boolean
        exact ⟨_, by simp only [order, hc]; rfl⟩
  obtain ⟨o, ho⟩ := ho
  exact ⟨_, by rw [onValues, ho]; rfl⟩

end Comparator

namespace Evaluator

variable {x y z : Except EvalError Value} {s t u : ValueType}

/-- Operands that keep to their types give a result that keeps to the type of the operator. -/
theorem admits_ofOperands {op : Operator} (hop : op.Allows s t u) (hx : s.Admits x)
    (hy : t.Admits y) : u.Admits (ofOperands op x y) := by
  -- the operands have values that fit, or fail as they may
  cases op with
  | arithmetic op =>
    obtain ⟨hs, ht, rfl⟩ := hop
    exact hx.bind fun v hv => hy.bind fun w hw => op.admits_onValues hv hw hs ht
  | and =>
    obtain ⟨rfl, rfl, rfl⟩ := hop
    refine hx.bind fun v hv => ?_
    obtain ⟨a, rfl⟩ := hv.exists_boolean
    -- only if the left operand has not decided, the right one counts
    cases a with
    | false => exact ValueType.admits_boolean false
    | true =>
      refine hy.bind fun w hw => ?_
      obtain ⟨b, rfl⟩ := hw.exists_boolean
      exact ValueType.admits_boolean b
  | or =>
    obtain ⟨rfl, rfl, rfl⟩ := hop
    refine hx.bind fun v hv => ?_
    obtain ⟨a, rfl⟩ := hv.exists_boolean
    cases a with
    | true => exact ValueType.admits_boolean true
    | false =>
      refine hy.bind fun w hw => ?_
      obtain ⟨b, rfl⟩ := hw.exists_boolean
      exact ValueType.admits_boolean b
  | distinct =>
    cases hop
    exact hx.bind fun v _ => hy.bind fun w _ => ValueType.admits_boolean _
  | compare comparator =>
    obtain ⟨hst, rfl⟩ := hop
    refine hx.bind fun v hv => hy.bind fun w hw => ?_
    obtain ⟨b, hb⟩ := comparator.exists_onValues hv hw hst
    rw [hb]
    exact ValueType.admits_boolean b

/-- A branch that is chosen keeps to the common type of the branches. -/
theorem admits_ofBranches (hst : s.unify t = some u) (hx : ValueType.boolean.Admits x)
    (hy : s.Admits y) (hz : t.Admits z) : u.Admits (ofBranches x y z) := by
  refine hx.bind fun v hv => ?_
  obtain ⟨c, rfl⟩ := hv.exists_boolean
  cases c with
  | true => exact hy.imp fun v hv => hv.unify_left hst
  | false => exact hz.imp fun v hv => hv.unify_right hst

end Evaluator

/-! ## Trees -/

namespace Expr

variable {types : TypeEnvironment} {env : Environment} {t : ValueType}

/-- The value of a tree with a type keeps to the type. -/
theorem admits_value (henv : env.Serves types) {e : Expr} (h : e.typeIn types = .ok t) :
    t.Admits (e.value env) := by
  -- on the tree: the value of each part fits the type that it was checked with
  induction e generalizing t with
  | lit negative value =>
    obtain ⟨rfl, hn⟩ := Checker.signed_eq_ok_iff.mp h
    exact Arithmetic.admits_applySign value.fits_type hn
  | var negative name =>
    simp only [typeIn] at h
    cases hx : types.find? name with
    | none =>
      rw [hx] at h
      cases h
    | some s =>
      rw [hx] at h
      obtain ⟨rfl, hn⟩ := Checker.signed_eq_ok_iff.mp h
      obtain ⟨v, hv, hfit⟩ := henv name s hx
      simp only [value, hv]
      exact Arithmetic.admits_applySign hfit hn
  | binary negative op left right ihl ihr =>
    obtain ⟨s₁, s₂, hl, hr, hop, hn⟩ := typeIn_binary_eq_ok_iff.mp h
    exact (Evaluator.admits_ofOperands hop (ihl hl) (ihr hr)).bind fun v hv =>
      Arithmetic.admits_applySign hv hn
  | cond negative condition whenTrue whenFalse ihc iht ihf =>
    obtain ⟨hc, s₁, s₂, ht, hf, hu, hn⟩ := typeIn_cond_eq_ok_iff.mp h
    exact (Evaluator.admits_ofBranches hu (ihc hc) (iht ht) (ihf hf)).bind fun v hv =>
      Arithmetic.admits_applySign hv hn

/-- Type soundness: where a check succeeds, an evaluation within the same limit gives a value that
    fits the type, or fails in its arithmetic.  No operand is of the wrong type, no variable is
    unbound, and the limit is not exceeded. -/
theorem evaluateWithin_of_checkWithin {limit : Nat} {e : Expr} (henv : env.Serves types)
    (h : e.checkWithin limit types = .ok t) :
    (∃ v, e.evaluateWithin limit env = .ok v ∧ v.Fits t) ∨
      e.evaluateWithin limit env = .error .divisionByZero ∨
      (∃ operation, e.evaluateWithin limit env = .error (.overflow operation)) ∨
      ∃ exponent, e.evaluateWithin limit env = .error (.negativeExponent exponent) := by
  -- the check has shown that the tree is within the limit, so the evaluation meets no limit
  rw [evaluateWithin_of_depth_le env e (depth_le_of_checkWithin h)]
  have hv := admits_value henv (typeIn_of_checkWithin h)
  cases hr : e.value env with
  | ok v =>
    rw [hr] at hv
    exact .inl ⟨v, rfl, hv⟩
  | error err =>
    rw [hr] at hv
    cases err with
    | divisionByZero => exact .inr (.inl rfl)
    | overflow operation => exact .inr (.inr (.inl ⟨operation, rfl⟩))
    | negativeExponent exponent => exact .inr (.inr (.inr ⟨exponent, rfl⟩))
    -- no type admits the others
    | typeMismatch mismatch | unboundVariable name | depthLimitExceeded limit =>
      exact nomatch hv

/-- Soundness at a variable that is declared real and bound to an integer, behind a conditional
    with branches of two types, and at the limit. -/
theorem evaluateWithin_of_checkWithin_promoted :
    let types : TypeEnvironment := Bindings.empty.insert "x" .real
    let env : Environment := Bindings.empty.insert "x" (.integer 3)
    let e : Expr := .cond true (.lit false (.boolean true)) (.var false "x") (.lit false (.integer 1))
    env.Serves types ∧ e.checkWithin 2 types = .ok .real ∧
      ((∃ v, e.evaluateWithin 2 env = .ok v ∧ v.Fits .real) ∨
        e.evaluateWithin 2 env = .error .divisionByZero ∨
        (∃ operation, e.evaluateWithin 2 env = .error (.overflow operation)) ∨
        ∃ exponent, e.evaluateWithin 2 env = .error (.negativeExponent exponent)) := by
  intro types env e
  have henv : env.Serves types := by
    intro name t h
    -- an integer serves a variable declared as real
    by_cases hx : name = "x"
    · subst hx
      rw [Bindings.find?_insert_self] at h
      cases h
      exact ⟨.integer 3, Bindings.find?_insert_self _ _ _, .inr ⟨rfl, rfl⟩⟩
    · rw [Bindings.find?_insert_ne _ hx] at h
      exact nomatch h
  have h : e.checkWithin 2 types = .ok .real := rfl
  exact ⟨henv, h, evaluateWithin_of_checkWithin henv h⟩

end Expr

end Formula
