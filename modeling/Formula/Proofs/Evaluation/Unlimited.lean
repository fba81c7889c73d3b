import Formula.Evaluation.Evaluator
import Formula.Proofs.Nesting

/-!
# Evaluation without a limit

`Expr.value` is the value of a tree by recursion on the tree alone.  An evaluation with a limit
gives the same value, or complains about the limit:

* `exists_evaluateWithin_eq`       which of both it is, for every limit
* `evaluateWithin_of_depth_le`     no complaint where the tree is no deeper than the limit

What happens at a node is said once, in `Evaluator.ofOperands` and `Evaluator.ofBranches`, which
take the results of the children.  A child whose result is not asked for is not evaluated.
-/

namespace Formula

open Nesting (Balanced CutOff Reaches)

/-- A clear sign flag changes no result. -/
theorem Arithmetic.bind_applySign_false (x : Except EvalError Value) :
    x >>= Arithmetic.applySign false = x := by
  cases x <;> rfl

namespace Evaluator

/-! ## The step at a node -/

/-- The result of an operator, given the results of its operands. -/
def ofOperands (op : Operator) (left right : Except EvalError Value) : Except EvalError Value :=
  match op with
  | .arithmetic op => do
    let a ← left
    let b ← right
    op.onValues a b
  | .and => do
    let a ← left
    if ← truth (.operator .and) a then
      let b ← right
      return .boolean (← truth (.operator .and) b)
    else return .boolean false
  | .or => do
    let a ← left
    if ← truth (.operator .or) a then return .boolean true
    else
      let b ← right
      return .boolean (← truth (.operator .or) b)
  | .distinct => do
    let a ← left
    let b ← right
    return .boolean (a.differs b)
  | .compare comparator => do
    let a ← left
    let b ← right
    return .boolean (← comparator.onValues a b)

/-- The result of a conditional, given the results of its children. -/
def ofBranches (condition whenTrue whenFalse : Except EvalError Value) : Except EvalError Value := do
  let c ← condition
  if ← truth .conditional c then whenTrue else whenFalse

end Evaluator

/-- The value of a tree, however deep it is. -/
def Expr.value (env : Environment) : Expr → Except EvalError Value
  | .lit negative value => Arithmetic.applySign negative value
  | .var negative name =>
    match env.find? name with
    | some value => Arithmetic.applySign negative value
    | none => .error (.unboundVariable name)
  | .binary negative op left right => do
    let v ← Evaluator.ofOperands op (left.value env) (right.value env)
    Arithmetic.applySign negative v
  | .cond negative condition whenTrue whenFalse => do
    let v ← Evaluator.ofBranches (condition.value env) (whenTrue.value env) (whenFalse.value env)
    Arithmetic.applySign negative v

namespace Evaluator

variable (env : Environment)

/-- The result of a child that a pass meets at nesting `n`. -/
def resultInside (n : Nesting) (e : Expr) : Except EvalError Value :=
  Nesting.result (inside (visit env e)) n

/-- Visiting a tree leaves the nesting as it was. -/
theorem visit_balanced (e : Expr) : Balanced (visit env e) := by
  -- on the tree: an operand is entered and left, what happens to its value stays at the level
  induction e with
  | lit negative value => exact Nesting.balanced_liftExcept _
  | var negative name =>
    simp only [visit]
    cases env.find? name with
    | some value => exact Nesting.balanced_liftExcept _
    | none => exact Nesting.balanced_throw _
  | binary negative op left right ihl ihr =>
    cases op with
    | arithmetic op =>
      exact ihl.descend.bind fun a => ihr.descend.bind fun b =>
        (Nesting.balanced_liftExcept _).bind fun v => Nesting.balanced_liftExcept _
    | and =>
      -- the right operand is visited only if the left one has not decided
      refine ihl.descend.bind fun x => (Nesting.balanced_liftExcept _).bind fun a => ?_
      cases a with
      | true =>
        exact ihr.descend.bind fun y => (Nesting.balanced_liftExcept _).bind fun b =>
          Nesting.balanced_liftExcept _
      | false => exact Nesting.balanced_liftExcept _
    | or =>
      refine ihl.descend.bind fun x => (Nesting.balanced_liftExcept _).bind fun a => ?_
      cases a with
      | true => exact Nesting.balanced_liftExcept _
      | false =>
        exact ihr.descend.bind fun y => (Nesting.balanced_liftExcept _).bind fun b =>
          Nesting.balanced_liftExcept _
    | distinct =>
      exact ihl.descend.bind fun a => ihr.descend.bind fun b => Nesting.balanced_liftExcept _
    | compare comparator =>
      exact ihl.descend.bind fun a => ihr.descend.bind fun b =>
        (Nesting.balanced_liftExcept _).bind fun holds => Nesting.balanced_liftExcept _
  | cond negative condition whenTrue whenFalse ihc iht ihf =>
    refine ihc.descend.bind fun x => (Nesting.balanced_liftExcept _).bind fun c => ?_
    cases c with
    | true => exact iht.descend.bind fun v => Nesting.balanced_liftExcept _
    | false => exact ihf.descend.bind fun v => Nesting.balanced_liftExcept _

theorem inside_balanced (e : Expr) : Balanced (inside (visit env e)) :=
  (visit_balanced env e).descend

/-- A node with an operator passes the results of its children on to `ofOperands`. -/
theorem result_visit_binary (n : Nesting) (negative : Bool) (op : Operator) (left right : Expr) :
    Nesting.result (visit env (.binary negative op left right)) n = (do
      let v ← ofOperands op (resultInside env n left) (resultInside env n right)
      Arithmetic.applySign negative v) := by
  cases op <;> simp [visit, ofOperands, resultInside, Nesting.result_bind, Nesting.result_ite,
    inside_balanced, Nesting.balanced_liftExcept]
  -- behind the left operand there is a choice, and each of its two steps has a result
  case and | or =>
    refine bind_congr fun x => bind_congr fun a => ?_
    cases a <;> simp

/-- A conditional passes the results of its children on to `ofBranches`. -/
theorem result_visit_cond (n : Nesting) (negative : Bool) (condition whenTrue whenFalse : Expr) :
    Nesting.result (visit env (.cond negative condition whenTrue whenFalse)) n = (do
      let v ← ofBranches (resultInside env n condition) (resultInside env n whenTrue)
        (resultInside env n whenFalse)
      Arithmetic.applySign negative v) := by
  simp [visit, ofBranches, resultInside, Nesting.result_bind, Nesting.result_ite,
    inside_balanced, Nesting.balanced_liftExcept]
  refine bind_congr fun x => bind_congr fun c => ?_
  cases c <;> simp

/-! ## The influence of the limit -/

variable {env} {exceeded : Nat → EvalError} {bound : Nat}

theorem reaches_ofOperands (op : Operator) {x y : Nesting → Except EvalError Value}
    {x' y' : Except EvalError Value} (hx : Reaches exceeded bound x x')
    (hy : Reaches exceeded bound y y') :
    Reaches exceeded bound (fun n => ofOperands op (x n) (y n)) (ofOperands op x' y') := by
  -- the operators differ in whether the right operand is always asked for
  cases op with
  | arithmetic op | distinct | compare comparator =>
    exact hx.bind fun a => hy.bind fun b => .const _
  | and =>
    -- the right operand is reached only if the left one has not decided
    refine hx.bind fun x => (Reaches.const _).bind fun a => ?_
    cases a with
    | true => exact hy.bind fun b => .const _
    | false => exact .const _
  | or =>
    refine hx.bind fun x => (Reaches.const _).bind fun a => ?_
    cases a with
    | true => exact .const _
    | false => exact hy.bind fun b => .const _

theorem reaches_ofBranches {x y z : Nesting → Except EvalError Value}
    {x' y' z' : Except EvalError Value} (hx : Reaches exceeded bound x x')
    (hy : Reaches exceeded bound y y') (hz : Reaches exceeded bound z z') :
    Reaches exceeded bound (fun n => ofBranches (x n) (y n) (z n)) (ofBranches x' y' z') := by
  refine hx.bind fun x => (Reaches.const _).bind fun c => ?_
  cases c with
  | true => exact hy
  | false => exact hz

variable (env)

/-- An evaluation goes no deeper below a node than the tree does. -/
theorem reaches_visit (e : Expr) :
    Reaches .depthLimitExceeded (e.depth - 1) (Nesting.result (visit env e)) (e.value env) := by
  -- on the tree: a node enters its operands, so it reaches one level more than they do
  induction e with
  | lit negative value =>
    simp only [visit, Expr.value, funext (Nesting.result_liftExcept _)]
    exact .const _
  | var negative name =>
    simp only [visit, Expr.value]
    cases env.find? name with
    | none => exact .const _
    | some value =>
      simp only [funext (Nesting.result_liftExcept _)]
      exact .const _
  | binary negative op left right ihl ihr =>
    have hpos := left.depth_pos
    have hpos' := right.depth_pos
    have hdepth : (Expr.binary negative op left right).depth = 1 + max left.depth right.depth := rfl
    rw [funext fun n => result_visit_binary env n negative op left right, Expr.value]
    exact (reaches_ofOperands op (ihl.descend.mono (by omega)) (ihr.descend.mono (by omega))).bind
      fun v => .const _
  | cond negative condition whenTrue whenFalse ihc iht ihf =>
    have hpos := condition.depth_pos
    have hpos' := whenTrue.depth_pos
    have hpos'' := whenFalse.depth_pos
    have hdepth : (Expr.cond negative condition whenTrue whenFalse).depth =
      1 + max condition.depth (max whenTrue.depth whenFalse.depth) := rfl
    rw [funext fun n => result_visit_cond env n negative condition whenTrue whenFalse, Expr.value]
    exact (reaches_ofBranches (ihc.descend.mono (by omega)) (iht.descend.mono (by omega))
      (ihf.descend.mono (by omega))).bind fun v => .const _

end Evaluator

namespace Expr

variable (env : Environment) (e : Expr)

/-- An evaluation needs a number of levels, no more than the tree has: with a limit that allows them
    it gives the value of the tree, and otherwise it complains about the limit. -/
theorem exists_evaluateWithin_eq :
    ∃ levels ≤ e.depth, ∀ limit, e.evaluateWithin limit env =
      if levels ≤ limit then e.value env else .error (.depthLimitExceeded limit) := by
  obtain ⟨levels, hlevels, hinside⟩ := (Evaluator.reaches_visit env e).descend
  have hpos := e.depth_pos
  refine ⟨levels, by omega, fun limit => ?_⟩
  have hstart := hinside (Nesting.start limit) (Nat.zero_le _)
  simp only [Nesting.start, Nat.zero_add] at hstart
  exact hstart

/-- An evaluation with a limit gives the value of the tree or complains about the limit. -/
theorem evaluateWithin_cutOff (limit : Nat) :
    CutOff (.depthLimitExceeded limit) (e.evaluateWithin limit env) (e.value env) := by
  obtain ⟨levels, -, hlimit⟩ := e.exists_evaluateWithin_eq env
  rw [hlimit]
  split
  · exact .inr rfl
  · exact .inl rfl

/-- What has a value within a limit has it one level further down, where the limit is higher by
    one. -/
theorem resultInside_of_evaluateWithin {limit : Nat} {a : Value}
    (h : e.evaluateWithin limit env = .ok a) :
    Evaluator.resultInside env (Nesting.start (limit + 1)).enter e = .ok a := by
  obtain ⟨levels, -, hinside⟩ := (Evaluator.reaches_visit env e).descend
  have hstart : Evaluator.resultInside env (Nesting.start limit) e = .ok a := h
  have hbelow : (Nesting.start (limit + 1)).enter.depth ≤ (Nesting.start (limit + 1)).enter.limit :=
    Nat.succ_le_succ (Nat.zero_le limit)
  unfold Evaluator.resultInside at hstart ⊢
  unfold Evaluator.inside at hstart ⊢
  rw [hinside _ (Nat.zero_le _)] at hstart
  rw [hinside _ hbelow]
  -- the levels it takes are the same; there was room for them, so there is room one level below
  by_cases hroom : (Nesting.start limit).depth + levels ≤ (Nesting.start limit).limit
  · have hroom' : (Nesting.start (limit + 1)).enter.depth + levels ≤
        (Nesting.start (limit + 1)).enter.limit := by
      simp only [Nesting.start, Nesting.enter] at hroom ⊢
      omega
    rw [if_pos hroom']
    rwa [if_pos hroom] at hstart
  · -- without room the first evaluation would have failed
    rw [if_neg hroom] at hstart
    cases hstart

/-- An operator without a sign flag passes on what it makes of the values of its operands, if they
    have these one level further down. -/
theorem evaluateWithin_binary {env : Environment} {limit : Nat} {left right : Expr} {a b : Value}
    (op : Operator) (hleft : left.evaluateWithin limit env = .ok a)
    (hright : right.evaluateWithin limit env = .ok b) :
    (binary false op left right).evaluateWithin (limit + 1) env =
      Evaluator.ofOperands op (.ok a) (.ok b) := by
  have hroom : (Nesting.start (limit + 1)).depth < (Nesting.start (limit + 1)).limit :=
    Nat.succ_pos limit
  have hvisit : (binary false op left right).evaluateWithin (limit + 1) env =
      Nesting.result (Evaluator.visit env (binary false op left right))
        (Nesting.start (limit + 1)).enter :=
    Nesting.result_descend_of_lt .depthLimitExceeded _ hroom
  -- one level below, both operands give the values they gave at the top
  rw [hvisit, Evaluator.result_visit_binary, left.resultInside_of_evaluateWithin env hleft,
    right.resultInside_of_evaluateWithin env hright]
  exact Arithmetic.bind_applySign_false _

/-- An evaluation of a tree within its limit gives the value of the tree. -/
theorem evaluateWithin_of_depth_le {limit : Nat} (h : e.depth ≤ limit) :
    e.evaluateWithin limit env = e.value env := by
  obtain ⟨levels, hlevels, hlimit⟩ := e.exists_evaluateWithin_eq env
  rw [hlimit, if_pos (Nat.le_trans hlevels h)]

end Expr

end Formula
