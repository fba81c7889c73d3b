import Formula.Proofs.Typing.Exactness

/-!
# Checks agree with evaluations, error for error

A tree is *strict* if all of its nodes are evaluated whatever the values are: it has no `and`, no
`or` and no conditional.  On strict trees a check and an evaluation meet the same nodes in the same
order, and stop at the same one for the same reason.  Only the failures of arithmetic on integers
are beyond a check.

## Key results

* `foresees_applySign`, `foresees_onValues`, `foresees_order`: the check of an operation foresees
  what the operation does
* `foresees_resultInside`: the check of a strict tree foresees its evaluation, at every nesting
* `checkWithin_agrees_evaluateWithin`: where arithmetic does not fail, either both give a type and a
  value of that type, or both give the same error
-/

namespace Formula

/-- Whether an operator evaluates both operands, whatever the left one is. -/
def Operator.isStrict : Operator → Bool
  | .and | .or => false
  | .arithmetic _ | .distinct | .compare _ => true

/-- Whether every node of a tree is evaluated. -/
def Expr.isStrict : Expr → Bool
  | .lit .. | .var .. => true
  | .binary _ op left right => op.isStrict && left.isStrict && right.isStrict
  | .cond .. => false

/-- The type error that goes with an evaluation error.  The failures of arithmetic on integers have
    none. -/
def EvalError.asTypeError? : EvalError → Option TypeError
  | .typeMismatch mismatch => some (.mismatch mismatch)
  | .unboundVariable name => some (.undeclaredVariable name)
  | .depthLimitExceeded limit => some (.depthLimitExceeded limit)
  | .divisionByZero | .overflow _ | .negativeExponent _ => none

theorem EvalError.asTypeError?_eq_none_iff {e : EvalError} :
    e.asTypeError? = none ↔ e.isArithmetic = true := by
  cases e <;> simp [asTypeError?, isArithmetic]

/-- Whether a check tells how a run ends: with something that the check knows as `view`, with the
    error that the check has, or with a failure of arithmetic. -/
def Foresees {α β : Type} (view : β → α) (check : Except TypeError α) (run : Except EvalError β) :
    Prop :=
  match run with
  | .ok b => check = .ok (view b)
  | .error e => ∀ e', e.asTypeError? = some e' → check = .error e'

section Foresees

variable {α β γ δ : Type} {view : β → α} {view' : δ → γ}

theorem foresees_ok (view : β → α) (b : β) : Foresees view (.ok (view b)) (.ok b) := rfl

/-- In a sequence both stop at the first step or both go on. -/
theorem Foresees.bind {check : Except TypeError α} {run : Except EvalError β}
    {f : α → Except TypeError γ} {g : β → Except EvalError δ} (h : Foresees view check run)
    (hrest : ∀ b, Foresees view' (f (view b)) (g b)) :
    Foresees view' (check >>= f) (run >>= g) := by
  cases run with
  | ok b =>
    have hcheck : check = .ok (view b) := h
    rw [hcheck]
    exact hrest b
  | error e =>
    intro e' he'
    rw [h e' he']
    rfl

/-- A failure of arithmetic is beyond every check. -/
theorem foresees_of_isArithmetic {e : EvalError} (check : Except TypeError α)
    (h : e.isArithmetic = true) : Foresees view check (.error e) := by
  intro e' he'
  rw [EvalError.asTypeError?_eq_none_iff.mpr h] at he'
  cases he'

/-- The same error on both sides. -/
theorem foresees_refused {e : EvalError} {e' : TypeError} (h : e.asTypeError? = some e') :
    Foresees view (.error e') (.error e) := by
  intro e'' he''
  rw [Option.some.inj (h.symm.trans he'')]

end Foresees

/-! ## Operations -/

theorem foresees_applySign (negative : Bool) (v : Value) :
    Foresees Value.type (Checker.signed negative v.type) (Arithmetic.applySign negative v) := by
  cases negative with
  | false => exact foresees_ok Value.type v
  | true =>
    cases v with
    | real x => exact foresees_ok Value.type (.real (-x))
    | boolean b => exact foresees_refused rfl
    | integer i =>
      -- the type stays, and the negation of the least integer is arithmetic
      simp only [Arithmetic.applySign, Arithmetic.negate, ↓reduceIte]
      split
      · next j _ => exact foresees_ok Value.type (.integer j)
      · exact foresees_of_isArithmetic _ rfl

theorem Arithmetic.isArithmetic_of_onIntegers {op : Arithmetic} {i j : Int64} {e : EvalError}
    (h : op.onIntegers i j = .error e) : e.isArithmetic = true := by
  have hadmits := op.admits_onIntegers i j
  rwa [h] at hadmits

/-- The check of an arithmetic operator, given the types of its operands. -/
theorem foresees_onValues (op : Arithmetic) (v w : Value) :
    Foresees Value.type (do
      Checker.requireNumber (.operator (.arithmetic op)) v.type
      Checker.requireNumber (.operator (.arithmetic op)) w.type
      return Checker.promoted v.type w.type) (op.onValues v w) := by
  -- a truth value is refused on both sides, the left one first
  cases v with
  | boolean a => cases w <;> exact foresees_refused rfl
  | real x =>
    cases w with
    | boolean b => exact foresees_refused rfl
    | integer j | real y => rfl
  | integer i =>
    cases w with
    | boolean b => exact foresees_refused rfl
    | real y => rfl
    | integer j =>
      simp only [Arithmetic.onValues]
      cases hk : op.onIntegers i j with
      | ok k => exact foresees_ok Value.type (.integer k)
      | error e => exact foresees_of_isArithmetic _ (op.isArithmetic_of_onIntegers hk)

/-- The check of a comparison, given the types of its operands. -/
theorem foresees_order (comparator : Comparator) (v w : Value) :
    Foresees (fun _ => ()) (Checker.requireComparable comparator v.type w.type)
      (comparator.order v w) := by
  unfold Checker.requireComparable Comparator.order
  cases comparator.isOrdering with
  | true =>
    -- an order needs numbers, and the first operand that is none is refused
    cases v with
    | boolean a => cases w <;> exact foresees_refused rfl
    | integer i | real x =>
      cases w with
      | boolean b => exact foresees_refused rfl
      | integer j | real y => rfl
  | false =>
    -- the right operand is refused if it is of another kind than the left one
    cases v with
    | boolean a =>
      cases w with
      | boolean b => rfl
      | integer j | real y => exact foresees_refused rfl
    | integer i | real x =>
      cases w with
      | boolean b => exact foresees_refused rfl
      | integer j | real y => rfl

/-- The check of an operator that evaluates both operands. -/
theorem foresees_ofOperands {op : Operator} (hop : op.isStrict = true)
    {s t : Except TypeError ValueType} {x y : Except EvalError Value}
    (hx : Foresees Value.type s x) (hy : Foresees Value.type t y) :
    Foresees Value.type (Checker.ofOperands op s t) (Evaluator.ofOperands op x y) := by
  -- both operands are asked for, whatever their values; then the operator decides
  cases op with
  | and | or => exact nomatch hop
  | arithmetic op => exact hx.bind fun v => hy.bind fun w => foresees_onValues op v w
  | distinct =>
    exact hx.bind fun v => hy.bind fun w => foresees_ok Value.type (.boolean (v.differs w))
  | compare comparator =>
    refine hx.bind fun v => hy.bind fun w => ?_
    have hholds : Foresees (fun _ => ()) (Checker.requireComparable comparator v.type w.type)
        (comparator.onValues v w) := by
      have horder := foresees_order comparator v w
      unfold Comparator.onValues
      cases hresult : comparator.order v w with
      | ok o => rwa [hresult] at horder
      | error e => rwa [hresult] at horder
    exact hholds.bind fun b => foresees_ok Value.type (.boolean b)

/-! ## Trees -/

variable {types : TypeEnvironment} {env : Environment}

/-- Inside a child both passes look at the limit first. -/
theorem Foresees.descend {α β : Type} {view : β → α} {n : Nesting}
    {check : Pass TypeError α} {run : Pass EvalError β}
    (h : Foresees view (Nesting.result check n.enter) (Nesting.result run n.enter)) :
    Foresees view (Nesting.result (Checker.inside check) n)
      (Nesting.result (Evaluator.inside run) n) := by
  unfold Checker.inside Evaluator.inside
  rw [Nesting.result_descend, Nesting.result_descend]
  split
  · exact foresees_refused rfl
  · exact h

/-- The check of a strict tree foresees its evaluation, wherever both passes meet the tree. -/
theorem foresees_resultInside (henv : env.Matches types) {e : Expr} (he : e.isStrict = true)
    (n : Nesting) :
    Foresees Value.type (Checker.resultInside types n e) (Evaluator.resultInside env n e) := by
  -- on the tree, both passes at the same nesting
  induction e generalizing n with
  | lit negative value =>
    apply Foresees.descend
    simp only [Checker.visit, Evaluator.visit, Nesting.result_liftExcept]
    exact foresees_applySign negative value
  | var negative name =>
    apply Foresees.descend
    simp only [Checker.visit, Evaluator.visit, ← henv name]
    cases env.find? name with
    | none => exact foresees_refused rfl
    | some v =>
      simp only [Option.map_some, Nesting.result_liftExcept]
      exact foresees_applySign negative v
  | binary negative op left right ihl ihr =>
    simp only [Expr.isStrict, Bool.and_eq_true] at he
    obtain ⟨⟨hop, hl⟩, hr⟩ := he
    apply Foresees.descend
    rw [Checker.result_visit_binary, Evaluator.result_visit_binary]
    exact (foresees_ofOperands hop (ihl hl n.enter) (ihr hr n.enter)).bind fun v =>
      foresees_applySign negative v
  | cond negative condition whenTrue whenFalse => cases he

/-! ## Agreement -/

namespace Expr

/-- On a strict tree with values of exactly the declared types, a check and an evaluation within the
    same limit agree unless arithmetic fails: on the type, or on the error. -/
theorem checkWithin_agrees_evaluateWithin (henv : env.Matches types) {e : Expr}
    (he : e.isStrict = true) {limit : Nat}
    (hrun : ∀ err, e.evaluateWithin limit env = .error err → err.isArithmetic = false) :
    (∀ t, e.checkWithin limit types = .ok t ↔
      ∃ v, e.evaluateWithin limit env = .ok v ∧ v.type = t) ∧
    (∀ mismatch, e.checkWithin limit types = .error (.mismatch mismatch) ↔
      e.evaluateWithin limit env = .error (.typeMismatch mismatch)) ∧
    (∀ name, e.checkWithin limit types = .error (.undeclaredVariable name) ↔
      e.evaluateWithin limit env = .error (.unboundVariable name)) ∧
    ∀ n, e.checkWithin limit types = .error (.depthLimitExceeded n) ↔
      e.evaluateWithin limit env = .error (.depthLimitExceeded n) := by
  have hforesees : Foresees Value.type (e.checkWithin limit types) (e.evaluateWithin limit env) :=
    foresees_resultInside henv he (Nesting.start limit)
  cases hresult : e.evaluateWithin limit env with
  | ok v =>
    rw [hresult] at hforesees
    -- a value has the type that was foreseen
    have hcheck : e.checkWithin limit types = .ok v.type := hforesees
    simp [hcheck]
  | error err =>
    have harithmetic := hrun err hresult
    rw [hresult] at hforesees
    cases err with
    | typeMismatch mismatch | unboundVariable name | depthLimitExceeded n =>
      -- an error that is not arithmetic was foreseen as it is
      have hcheck := hforesees _ rfl
      simp [hcheck]
    | divisionByZero | overflow operation | negativeExponent exponent => exact nomatch harithmetic

/-- Agreement on `(-n + 1) < (n not true)`, where both refuse the right operand. -/
theorem checkWithin_agrees_evaluateWithin_comparison :
    let types : TypeEnvironment := Bindings.empty.insert "n" .integer
    let env : Environment := Bindings.empty.insert "n" (.integer 7)
    let e : Expr := .binary false (.compare .lessThan)
      (.binary false (.arithmetic .add) (.var true "n") (.lit false (.integer 1)))
      (.binary false .distinct (.var false "n") (.lit false (.boolean true)))
    let mismatch : Mismatch := ⟨.operator (.compare .lessThan), .number, .boolean⟩
    env.Matches types ∧ e.isStrict = true ∧
      (∀ err, e.evaluateWithin 3 env = .error err → err.isArithmetic = false) ∧
      e.checkWithin 3 types = .error (.mismatch mismatch) ∧
      e.evaluateWithin 3 env = .error (.typeMismatch mismatch) := by
  intro types env e mismatch
  have henv : env.Matches types := Environment.matches_empty.insert "n" (.integer 7)
  have he : e.isStrict = true := rfl
  have hresult : e.evaluateWithin 3 env = .error (.typeMismatch mismatch) := rfl
  have hrun : ∀ err, e.evaluateWithin 3 env = .error err → err.isArithmetic = false := by
    intro err herr
    obtain rfl := Except.error.inj (hresult.symm.trans herr)
    rfl
  have hagrees := checkWithin_agrees_evaluateWithin henv he hrun
  exact ⟨henv, he, hrun, (hagrees.2.1 mismatch).mpr hresult, hresult⟩

end Expr

end Formula
