import Formula.Proofs.Passes.Rules
import Formula.Proofs.Typing.Soundness

/-!
# What a limit does to a pass

A limit on the depth of a pass only cuts off.  Either the pass complains about the limit, or it gives
what it gives without one, and then it gives that under every higher limit too.  A tree that is no
deeper than the limit is never cut off.  A check looks at the whole tree, so a deeper one is never
accepted.

## Key results

* `Evaluator.rules_addsOnly`, `Checker.rules_addsOnly`: what single nodes complain about
* `value_failsOnly`, `typeIn_failsOnly`: without a limit there is no complaint about one
* `onlyCutsOff_of_levels`: a limit only cuts off a pass that needs a fixed number of levels
* `onlyCutsOff_evaluateWithin_checkWithin`: so it does with evaluations and checks
-/

namespace Formula

open Except (FailsOnly failsOnly_ok failsOnly_error)

/-! ## Errors of single nodes -/

/-- Whether an evaluation error is about what a node does with the values of its children. -/
def EvalError.IsOfOperation : EvalError → Prop
  | .unboundVariable _ | .depthLimitExceeded _ => False
  | _ => True

/-- Whether a type error is about what a node does with the types of its children. -/
def TypeError.IsOfOperation : TypeError → Prop
  | .undeclaredVariable _ | .depthLimitExceeded _ => False
  | _ => True

/-- Whether an evaluation error is about something else than the limit. -/
def EvalError.SparesLimit (e : EvalError) : Prop :=
  ∀ limit, e ≠ .depthLimitExceeded limit

/-- Whether a type error is about something else than the limit. -/
def TypeError.SparesLimit (e : TypeError) : Prop :=
  ∀ limit, e ≠ .depthLimitExceeded limit

namespace Arithmetic

theorem failsOnly_applySign (negative : Bool) (v : Value) :
    FailsOnly EvalError.IsOfOperation (applySign negative v) := by
  unfold applySign negate
  split
  · split
    · split
      · exact failsOnly_ok _
      · exact failsOnly_error trivial
    · exact failsOnly_ok _
    · exact failsOnly_error trivial
  · exact failsOnly_ok _

theorem failsOnly_onValues (op : Arithmetic) (v w : Value) :
    FailsOnly EvalError.IsOfOperation (op.onValues v w) := by
  unfold onValues
  split
  · -- two integers: only their arithmetic can fail
    next a b =>
    have hadmits := op.admits_onIntegers a b
    intro e he
    rw [he] at hadmits
    -- arithmetic complains of overflow, of a divisor or of an exponent
    cases e with
    | unboundVariable name | depthLimitExceeded limit => exact nomatch hadmits
    | _ => trivial
  · split
    · exact failsOnly_ok _
    · exact failsOnly_error trivial

end Arithmetic

theorem Comparator.failsOnly_onValues (comparator : Comparator) (v w : Value) :
    FailsOnly EvalError.IsOfOperation (comparator.onValues v w) := by
  -- what a comparison can complain of is the order of its operands
  have horder : FailsOnly EvalError.IsOfOperation (comparator.order v w) := by
    unfold order
    extract_lets mismatch
    split
    · split
      · exact failsOnly_error trivial
      · exact failsOnly_ok _
    · exact failsOnly_ok _
    · split
      · exact failsOnly_ok _
      · exact failsOnly_error trivial
  unfold onValues
  cases hresult : comparator.order v w with
  | ok order => exact failsOnly_ok _
  | error e => exact failsOnly_error (horder e hresult)

namespace Evaluator

theorem failsOnly_truth (operation : Operation) (v : Value) :
    FailsOnly EvalError.IsOfOperation (truth operation v) := by
  unfold truth
  split
  · exact failsOnly_ok _
  · exact failsOnly_error trivial

section Children

variable {allowed : EvalError → Prop} (hoperation : ∀ e : EvalError, e.IsOfOperation → allowed e)
  {x y z : Except EvalError Value}

include hoperation

/-- An operator adds nothing to the errors of its operands but those of operations. -/
theorem failsOnly_ofOperands (op : Operator) (hx : FailsOnly allowed x)
    (hy : FailsOnly allowed y) : FailsOnly allowed (ofOperands op x y) := by
  have htruth (v : Value) : FailsOnly allowed (truth (.operator op) v) :=
    (failsOnly_truth _ v).imp hoperation
  -- the operands fail as they are allowed to, and the operator as an operation does
  cases op with
  | arithmetic op =>
    exact hx.bind fun v => hy.bind fun w => (op.failsOnly_onValues v w).imp hoperation
  | and =>
    refine hx.bind fun v => (htruth v).bind fun a => ?_
    cases a with
    | true => exact hy.bind fun w => (htruth w).bind fun b => failsOnly_ok _
    | false => exact failsOnly_ok _
  | or =>
    refine hx.bind fun v => (htruth v).bind fun a => ?_
    cases a with
    | true => exact failsOnly_ok _
    | false => exact hy.bind fun w => (htruth w).bind fun b => failsOnly_ok _
  | distinct => exact hx.bind fun v => hy.bind fun w => failsOnly_ok _
  | compare comparator =>
    exact hx.bind fun v => hy.bind fun w =>
      ((comparator.failsOnly_onValues v w).imp hoperation).bind fun b => failsOnly_ok _

theorem failsOnly_ofBranches (hx : FailsOnly allowed x) (hy : FailsOnly allowed y)
    (hz : FailsOnly allowed z) : FailsOnly allowed (ofBranches x y z) := by
  refine hx.bind fun v => ((failsOnly_truth _ v).imp hoperation).bind fun c => ?_
  cases c with
  | true => exact hy
  | false => exact hz

end Children

/-- The nodes of an evaluation complain about operations. -/
theorem rules_addsOnly : rules.AddsOnly EvalError.IsOfOperation where
  operator hoperation op _ _ hx hy := failsOnly_ofOperands hoperation op hx hy
  conditional hoperation _ _ _ hx hy hz := failsOnly_ofBranches hoperation hx hy hz
  negate := Arithmetic.failsOnly_applySign true

end Evaluator

namespace Checker

theorem failsOnly_requireNumber (operation : Operation) (t : ValueType) :
    FailsOnly TypeError.IsOfOperation (requireNumber operation t) := by
  unfold requireNumber
  split
  · exact failsOnly_ok _
  · exact failsOnly_error trivial

theorem failsOnly_requireBoolean (operation : Operation) (t : ValueType) :
    FailsOnly TypeError.IsOfOperation (requireBoolean operation t) := by
  unfold requireBoolean
  split
  · exact failsOnly_ok _
  · exact failsOnly_error trivial

theorem failsOnly_signed (negative : Bool) (t : ValueType) :
    FailsOnly TypeError.IsOfOperation (signed negative t) := by
  unfold signed
  split
  · exact (failsOnly_requireNumber .negation t).bind fun _ => failsOnly_ok t
  · exact failsOnly_ok _

theorem failsOnly_requireComparable (comparator : Comparator) (s t : ValueType) :
    FailsOnly TypeError.IsOfOperation (requireComparable comparator s t) := by
  unfold requireComparable
  split
  · exact (failsOnly_requireNumber _ s).bind fun _ => failsOnly_requireNumber _ t
  · split
    · exact failsOnly_ok _
    · exact failsOnly_error trivial

theorem failsOnly_unifyBranches (s t : ValueType) :
    FailsOnly TypeError.IsOfOperation (unifyBranches s t) := by
  unfold unifyBranches
  split
  · exact failsOnly_ok _
  · exact failsOnly_error trivial

section Children

variable {allowed : TypeError → Prop} (hoperation : ∀ e : TypeError, e.IsOfOperation → allowed e)
  {x y z : Except TypeError ValueType}

include hoperation

/-- The rule of an operator adds nothing to the errors of its operands but those of operations. -/
theorem failsOnly_ofOperands (op : Operator) (hx : FailsOnly allowed x)
    (hy : FailsOnly allowed y) : FailsOnly allowed (ofOperands op x y) := by
  have hnumber (t : ValueType) : FailsOnly allowed (requireNumber (.operator op) t) :=
    (failsOnly_requireNumber _ t).imp hoperation
  have hboolean (t : ValueType) : FailsOnly allowed (requireBoolean (.operator op) t) :=
    (failsOnly_requireBoolean _ t).imp hoperation
  -- the same for the types: requirements on operands are errors of the operator
  cases op with
  | arithmetic op =>
    exact hx.bind fun s => hy.bind fun t => (hnumber s).bind fun _ => (hnumber t).bind fun _ =>
      failsOnly_ok _
  | and | or =>
    exact hx.bind fun s => (hboolean s).bind fun _ => hy.bind fun t => (hboolean t).bind fun _ =>
      failsOnly_ok _
  | distinct => exact hx.bind fun s => hy.bind fun t => failsOnly_ok _
  | compare comparator =>
    exact hx.bind fun s => hy.bind fun t =>
      ((failsOnly_requireComparable comparator s t).imp hoperation).bind fun _ => failsOnly_ok _

theorem failsOnly_ofBranches (hx : FailsOnly allowed x) (hy : FailsOnly allowed y)
    (hz : FailsOnly allowed z) : FailsOnly allowed (ofBranches x y z) :=
  hx.bind fun c => ((failsOnly_requireBoolean _ c).imp hoperation).bind fun _ =>
    hy.bind fun s => hz.bind fun t => (failsOnly_unifyBranches s t).imp hoperation

end Children

/-- The nodes of a check complain about operations. -/
theorem rules_addsOnly : rules.AddsOnly TypeError.IsOfOperation where
  operator hoperation op _ _ hx hy := failsOnly_ofOperands hoperation op hx hy
  conditional hoperation _ _ _ hx hy hz := failsOnly_ofBranches hoperation hx hy hz
  negate := failsOnly_signed true

end Checker

/-! ## Errors of trees -/

theorem EvalError.IsOfOperation.sparesLimit {err : EvalError} (h : err.IsOfOperation) :
    err.SparesLimit := by
  intro limit he
  subst he
  exact h

theorem TypeError.IsOfOperation.sparesLimit {err : TypeError} (h : err.IsOfOperation) :
    err.SparesLimit := by
  intro limit he
  subst he
  exact h

namespace Expr

/-- Without a limit, an evaluation does not complain about one. -/
theorem value_failsOnly (env : Environment) (e : Expr) :
    FailsOnly EvalError.SparesLimit (e.value env) := by
  -- a limit that the tree keeps to is as good as none
  rw [← evaluateWithin_of_depth_le env e (Nat.le_refl _), evaluateWithin_eq_inside]
  refine (Evaluator.rules_addsOnly.failsOnly_inside env e _).imp fun err herr => ?_
  cases herr with
  | own hoperation => exact hoperation.sparesLimit
  | unbound => exact fun _ => nofun
  | exceeded hlimit => simp [Nesting.start] at hlimit

/-- Without a limit, a check does not complain about one. -/
theorem typeIn_failsOnly (types : TypeEnvironment) (e : Expr) :
    FailsOnly TypeError.SparesLimit (e.typeIn types) := by
  rw [← checkWithin_of_depth_le types e (Nat.le_refl _), checkWithin_eq_inside]
  refine (Checker.rules_addsOnly.failsOnly_inside types e _).imp fun err herr => ?_
  cases herr with
  | own hoperation => exact hoperation.sparesLimit
  | unbound => exact fun _ => nofun
  | exceeded hlimit => simp [Nesting.start] at hlimit

end Expr

/-! ## Cutting off -/

/-- Whether a limit does no more to the answers of a pass over a tree of the given depth than to cut
    them off.  `whole` is the answer without a limit. -/
structure Nesting.OnlyCutsOff {ε α : Type} (exceeded : Nat → ε) (depth : Nat)
    (answer : Nat → Except ε α) (whole : Except ε α) : Prop where
  /-- An answer is the one without a limit, or the complaint about the limit. -/
  cutOff : ∀ limit, CutOff (exceeded limit) (answer limit) whole
  /-- A tree within the limit is not cut off. -/
  complete : ∀ limit, depth ≤ limit → ∀ other, answer limit ≠ .error (exceeded other)
  /-- An answer that is no complaint is also the one under every higher limit. -/
  stable : ∀ limit higher, limit ≤ higher → answer limit ≠ .error (exceeded limit) →
    answer higher = answer limit

/-- A limit only cuts off a pass that needs a fixed number of levels, no more than the tree has. -/
theorem Nesting.onlyCutsOff_of_levels {ε α : Type} {exceeded : Nat → ε} {depth levels : Nat}
    {answer : Nat → Except ε α} {whole : Except ε α} (hlevels : levels ≤ depth)
    (hwhole : ∀ limit, whole ≠ .error (exceeded limit))
    (hanswer : ∀ limit, answer limit =
      if levels ≤ limit then whole else .error (exceeded limit)) :
    OnlyCutsOff exceeded depth answer whole where
  cutOff limit := by
    rw [hanswer]
    split
    · exact .inr rfl
    · exact .inl rfl
  complete limit hdepth other := by
    rw [hanswer, if_pos (Nat.le_trans hlevels hdepth)]
    exact hwhole other
  stable limit higher hle hne := by
    -- without the room it would have been cut off
    have hroom : levels ≤ limit := by
      refine Decidable.byContradiction fun hshort => hne ?_
      rw [hanswer, if_neg hshort]
    rw [hanswer, hanswer, if_pos hroom, if_pos (Nat.le_trans hroom hle)]

namespace Expr

/-- A limit only cuts off: it never changes the answer of an evaluation or of a check, and no tree
    that is deeper than the limit passes a check. -/
theorem onlyCutsOff_evaluateWithin_checkWithin (e : Expr) :
    (∀ env, Nesting.OnlyCutsOff .depthLimitExceeded e.depth (e.evaluateWithin · env)
      (e.value env)) ∧
    ∀ types, Nesting.OnlyCutsOff .depthLimitExceeded e.depth (e.checkWithin · types)
        (e.typeIn types) ∧
      ∀ limit, limit < e.depth → ∀ t, e.checkWithin limit types ≠ .ok t := by
  constructor
  · intro env
    -- an evaluation reaches as many levels as its values let it
    obtain ⟨levels, hlevels, hanswer⟩ := e.exists_evaluateWithin_eq env
    exact Nesting.onlyCutsOff_of_levels hlevels
      (fun limit hcomplaint => e.value_failsOnly env _ hcomplaint limit rfl) hanswer
  · intro types
    obtain ⟨levels, hlevels, hanswer⟩ := e.exists_checkWithin_eq types
    constructor
    · exact Nesting.onlyCutsOff_of_levels hlevels
        (fun limit hcomplaint => e.typeIn_failsOnly types _ hcomplaint limit rfl) hanswer
    · -- a check sees all of the tree, so it answers from its depth on only
      intro limit hlt t hok
      exact Nat.not_le.mpr hlt (depth_le_of_checkWithin hok)

/-- A conditional with a branch that is deeper than the limit: an evaluation that takes the other
    branch is not cut off, and has the same value under every higher limit, but the check is cut
    off. -/
theorem onlyCutsOff_evaluateWithin_checkWithin_conditional :
    let env : Environment := Bindings.empty.insert "x" (.boolean true)
    let types : TypeEnvironment := Bindings.empty.insert "x" .boolean
    let one : Expr := .lit false (.integer 1)
    let e : Expr := .cond false (.var false "x") one (.binary false (.arithmetic .add) one one)
    e.evaluateWithin 2 env = .ok (.integer 1) ∧ (∀ limit ≥ 2, e.evaluateWithin limit env =
      .ok (.integer 1)) ∧ 2 < e.depth ∧ ∀ t, e.checkWithin 2 types ≠ .ok t := by
  intro env types one e
  obtain ⟨hevaluate, hcheck⟩ := onlyCutsOff_evaluateWithin_checkWithin e
  have htwo : e.evaluateWithin 2 env = .ok (.integer 1) := rfl
  have hne : e.evaluateWithin 2 env ≠ .error (.depthLimitExceeded 2) := by
    rw [htwo]
    exact nofun
  -- the branch that is not taken is the deeper one
  have hdepth : 2 < e.depth := by decide
  refine ⟨htwo, fun limit hlimit => ?_, hdepth, (hcheck types).2 2 hdepth⟩
  rw [← htwo]
  exact (hevaluate env).stable 2 limit hlimit hne

end Expr

end Formula
