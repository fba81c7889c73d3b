import Formula.Typing.Checker
import Formula.Proofs.Nesting
import Formula.Proofs.Steps

/-!
# Type checking without a limit

`Expr.typeIn` is the type of a tree by recursion on the tree alone.  A check with a limit gives the
same type, or complains about the limit.  A check looks at the whole tree, so that one that succeeds
also shows that the tree keeps to the limit:

* `exists_checkWithin_eq`      which of both it is, for every limit
* `checkWithin_of_depth_le`    no complaint where the tree is no deeper than the limit
* `depth_le_of_checkWithin`    no success where it is deeper
* `Operator.Allows`            what an operator accepts, and what it gives
-/

namespace Formula

open Nesting (Balanced Reaches)

namespace Checker

/-! ## The step at a node -/

/-- The type of an operator's result, given the types of its operands. -/
def ofOperands (op : Operator) (left right : Except TypeError ValueType) :
    Except TypeError ValueType :=
  match op with
  | .arithmetic op => do
    let s ← left
    let t ← right
    requireNumber (.operator (.arithmetic op)) s
    requireNumber (.operator (.arithmetic op)) t
    return promoted s t
  | .and | .or => do
    let s ← left
    requireBoolean (.operator op) s
    let t ← right
    requireBoolean (.operator op) t
    return .boolean
  | .distinct => do
    let _ ← left
    let _ ← right
    return .boolean
  | .compare comparator => do
    let s ← left
    let t ← right
    requireComparable comparator s t
    return .boolean

/-- The type of a conditional, given the types of its children. -/
def ofBranches (condition whenTrue whenFalse : Except TypeError ValueType) :
    Except TypeError ValueType := do
  let c ← condition
  requireBoolean .conditional c
  let s ← whenTrue
  let t ← whenFalse
  unifyBranches s t

end Checker

/-- The type of a tree, however deep it is. -/
def Expr.typeIn (types : TypeEnvironment) : Expr → Except TypeError ValueType
  | .lit negative value => Checker.signed negative value.type
  | .var negative name =>
    match types.find? name with
    | some t => Checker.signed negative t
    | none => .error (.undeclaredVariable name)
  | .binary negative op left right => do
    let t ← Checker.ofOperands op (left.typeIn types) (right.typeIn types)
    Checker.signed negative t
  | .cond negative condition whenTrue whenFalse => do
    let t ← Checker.ofBranches (condition.typeIn types) (whenTrue.typeIn types)
      (whenFalse.typeIn types)
    Checker.signed negative t

namespace Checker

variable (types : TypeEnvironment)

/-- The result of a child that a pass meets at nesting `n`. -/
def resultInside (n : Nesting) (e : Expr) : Except TypeError ValueType :=
  Nesting.result (inside (visit types e)) n

/-- Visiting a tree leaves the nesting as it was. -/
theorem visit_balanced (e : Expr) : Balanced (visit types e) := by
  -- on the tree; unlike the evaluator, the checker visits every operand
  induction e with
  | lit negative value => exact Nesting.balanced_liftExcept _
  | var negative name =>
    simp only [visit]
    cases types.find? name with
    | some t => exact Nesting.balanced_liftExcept _
    | none => exact Nesting.balanced_throw _
  | binary negative op left right ihl ihr =>
    cases op with
    | arithmetic op =>
      exact ihl.descend.bind fun s => ihr.descend.bind fun t =>
        (Nesting.balanced_liftExcept _).bind fun _ => (Nesting.balanced_liftExcept _).bind fun _ =>
          Nesting.balanced_liftExcept _
    | and | or =>
      exact ihl.descend.bind fun s => (Nesting.balanced_liftExcept _).bind fun _ =>
        ihr.descend.bind fun t => (Nesting.balanced_liftExcept _).bind fun _ =>
          Nesting.balanced_liftExcept _
    | distinct =>
      exact ihl.descend.bind fun s => ihr.descend.bind fun t => Nesting.balanced_liftExcept _
    | compare comparator =>
      exact ihl.descend.bind fun s => ihr.descend.bind fun t =>
        (Nesting.balanced_liftExcept _).bind fun _ => Nesting.balanced_liftExcept _
  | cond negative condition whenTrue whenFalse ihc iht ihf =>
    exact ihc.descend.bind fun c => (Nesting.balanced_liftExcept _).bind fun _ =>
      iht.descend.bind fun s => ihf.descend.bind fun t =>
        (Nesting.balanced_liftExcept _).bind fun u => Nesting.balanced_liftExcept _

theorem inside_balanced (e : Expr) : Balanced (inside (visit types e)) :=
  (visit_balanced types e).descend

/-- A node with an operator passes the results of its children on to `ofOperands`. -/
theorem result_visit_binary (n : Nesting) (negative : Bool) (op : Operator) (left right : Expr) :
    Nesting.result (visit types (.binary negative op left right)) n = (do
      let t ← ofOperands op (resultInside types n left) (resultInside types n right)
      signed negative t) := by
  cases op <;> simp [visit, ofOperands, resultInside, Nesting.result_bind, inside_balanced,
    Nesting.balanced_liftExcept]

/-- A conditional passes the results of its children on to `ofBranches`. -/
theorem result_visit_cond (n : Nesting) (negative : Bool) (condition whenTrue whenFalse : Expr) :
    Nesting.result (visit types (.cond negative condition whenTrue whenFalse)) n = (do
      let t ← ofBranches (resultInside types n condition) (resultInside types n whenTrue)
        (resultInside types n whenFalse)
      signed negative t) := by
  simp [visit, ofBranches, resultInside, Nesting.result_bind, inside_balanced,
    Nesting.balanced_liftExcept]

/-! ## The influence of the limit -/

variable {types} {exceeded : Nat → TypeError} {bound : Nat}

theorem reaches_ofOperands (op : Operator) {x y : Nesting → Except TypeError ValueType}
    {x' y' : Except TypeError ValueType} (hx : Reaches exceeded bound x x')
    (hy : Reaches exceeded bound y y') :
    Reaches exceeded bound (fun n => ofOperands op (x n) (y n)) (ofOperands op x' y') := by
  cases op with
  | arithmetic op | distinct | compare comparator =>
    exact hx.bind fun s => hy.bind fun t => .const _
  | and | or =>
    exact hx.bind fun s => (Reaches.const _).bind fun _ => hy.bind fun t => .const _

theorem reaches_ofBranches {x y z : Nesting → Except TypeError ValueType}
    {x' y' z' : Except TypeError ValueType} (hx : Reaches exceeded bound x x')
    (hy : Reaches exceeded bound y y') (hz : Reaches exceeded bound z z') :
    Reaches exceeded bound (fun n => ofBranches (x n) (y n) (z n)) (ofBranches x' y' z') :=
  hx.bind fun _ => (Reaches.const _).bind fun _ => hy.bind fun _ => hz.bind fun _ => .const _

variable (types)

/-- A check goes no deeper below a node than the tree does. -/
theorem reaches_visit (e : Expr) :
    Reaches .depthLimitExceeded (e.depth - 1) (Nesting.result (visit types e)) (e.typeIn types) := by
  -- on the tree: one level more than the operands
  induction e with
  | lit negative value =>
    simp only [visit, Expr.typeIn, funext (Nesting.result_liftExcept _)]
    exact .const _
  | var negative name =>
    simp only [visit, Expr.typeIn]
    cases types.find? name with
    | none => exact .const _
    | some t =>
      simp only [funext (Nesting.result_liftExcept _)]
      exact .const _
  | binary negative op left right ihl ihr =>
    have hpos := left.depth_pos
    have hpos' := right.depth_pos
    have hdepth : (Expr.binary negative op left right).depth = 1 + max left.depth right.depth := rfl
    rw [funext fun n => result_visit_binary types n negative op left right, Expr.typeIn]
    exact (reaches_ofOperands op (ihl.descend.mono (by omega)) (ihr.descend.mono (by omega))).bind
      fun t => .const _
  | cond negative condition whenTrue whenFalse ihc iht ihf =>
    have hpos := condition.depth_pos
    have hpos' := whenTrue.depth_pos
    have hpos'' := whenFalse.depth_pos
    have hdepth : (Expr.cond negative condition whenTrue whenFalse).depth =
      1 + max condition.depth (max whenTrue.depth whenFalse.depth) := rfl
    rw [funext fun n => result_visit_cond types n negative condition whenTrue whenFalse,
      Expr.typeIn]
    exact (reaches_ofBranches (ihc.descend.mono (by omega)) (iht.descend.mono (by omega))
      (ihf.descend.mono (by omega))).bind fun t => .const _

end Checker

/-! ## Typing rules -/

/-- The typing rule of an operator: it accepts operands of the types `s` and `t` and gives a result
    of the type `u`. -/
def Operator.Allows (op : Operator) (s t u : ValueType) : Prop :=
  match op with
  | .arithmetic _ => s.isNumeric ∧ t.isNumeric ∧ u = Checker.promoted s t
  | .and | .or => s = .boolean ∧ t = .boolean ∧ u = .boolean
  | .distinct => u = .boolean
  | .compare comparator =>
    (if comparator.isOrdering then s.isNumeric ∧ t.isNumeric else (s.unify t).isSome) ∧
      u = .boolean

namespace Checker

@[simp] theorem requireNumber_eq_ok_iff {operation : Operation} {t : ValueType} {x : Unit} :
    requireNumber operation t = .ok x ↔ t.isNumeric := by
  cases h : t.isNumeric <;> simp [requireNumber, h]

@[simp] theorem requireBoolean_eq_ok_iff {operation : Operation} {t : ValueType} {x : Unit} :
    requireBoolean operation t = .ok x ↔ t = .boolean := by
  by_cases h : t = .boolean <;> simp [requireBoolean, h]

@[simp] theorem unifyBranches_eq_ok_iff {s t u : ValueType} :
    unifyBranches s t = .ok u ↔ s.unify t = some u := by
  cases h : s.unify t <;> simp [unifyBranches, h]

theorem requireComparable_eq_ok_iff {comparator : Comparator} {s t : ValueType} {x : Unit} :
    requireComparable comparator s t = .ok x ↔
      if comparator.isOrdering then s.isNumeric ∧ t.isNumeric else (s.unify t).isSome := by
  cases hc : comparator.isOrdering with
  | true => simp [requireComparable, hc, Except.bind_eq_ok_iff]
  | false => cases hu : (s.unify t).isSome <;> simp [requireComparable, hc, hu]

/-- The sign flag is for numbers, and keeps their type. -/
theorem signed_eq_ok_iff {negative : Bool} {s t : ValueType} :
    signed negative s = .ok t ↔ s = t ∧ (negative → s.isNumeric) := by
  cases negative with
  | false => simp [signed]
  | true => cases h : s.isNumeric <;> simp [signed, requireNumber, h, Except.map]

/-- An operator has a type exactly if its operands have types that its typing rule accepts. -/
theorem ofOperands_eq_ok_iff {op : Operator} {x y : Except TypeError ValueType} {u : ValueType} :
    ofOperands op x y = .ok u ↔ ∃ s t, x = .ok s ∧ y = .ok t ∧ op.Allows s t u := by
  -- the requirements of each operator, one by one
  cases op with
  | arithmetic op =>
    simp only [ofOperands, Except.bind_eq_ok_iff, requireNumber_eq_ok_iff, Operator.Allows]
    constructor
    · intro h
      obtain ⟨s, hs, t, ht, _, hns, _, hnt, hu⟩ := h
      cases hu
      exact ⟨s, t, hs, ht, hns, hnt, rfl⟩
    · intro h
      obtain ⟨s, t, hs, ht, hns, hnt, rfl⟩ := h
      exact ⟨s, hs, t, ht, (), hns, (), hnt, rfl⟩
  | and | or =>
    -- the left operand is looked at before the right one has a type
    simp only [ofOperands, Except.bind_eq_ok_iff, requireBoolean_eq_ok_iff, Operator.Allows]
    constructor
    · intro h
      obtain ⟨s, hs, _, rfl, t, ht, _, rfl, hu⟩ := h
      cases hu
      exact ⟨_, _, hs, ht, rfl, rfl, rfl⟩
    · intro h
      obtain ⟨s, t, hs, ht, rfl, rfl, rfl⟩ := h
      exact ⟨_, hs, (), rfl, _, ht, (), rfl, rfl⟩
  | distinct =>
    simp only [ofOperands, Except.bind_eq_ok_iff, Operator.Allows]
    constructor
    · intro h
      obtain ⟨s, hs, t, ht, hu⟩ := h
      cases hu
      exact ⟨s, t, hs, ht, rfl⟩
    · intro h
      obtain ⟨s, t, hs, ht, rfl⟩ := h
      exact ⟨s, hs, t, ht, rfl⟩
  | compare comparator =>
    simp only [ofOperands, Except.bind_eq_ok_iff, requireComparable_eq_ok_iff, Operator.Allows]
    constructor
    · intro h
      obtain ⟨s, hs, t, ht, _, hcomparable, hu⟩ := h
      cases hu
      exact ⟨s, t, hs, ht, hcomparable, rfl⟩
    · intro h
      obtain ⟨s, t, hs, ht, hcomparable, rfl⟩ := h
      exact ⟨s, hs, t, ht, (), hcomparable, rfl⟩

/-- A conditional has a type exactly if its condition is a truth value and its branches have a
    common type. -/
theorem ofBranches_eq_ok_iff {x y z : Except TypeError ValueType} {u : ValueType} :
    ofBranches x y z = .ok u ↔
      x = .ok .boolean ∧ ∃ s t, y = .ok s ∧ z = .ok t ∧ s.unify t = some u := by
  simp only [ofBranches, Except.bind_eq_ok_iff, requireBoolean_eq_ok_iff, unifyBranches_eq_ok_iff]
  constructor
  · intro h
    obtain ⟨_, hx, _, rfl, s, hy, t, hz, hu⟩ := h
    exact ⟨hx, s, t, hy, hz, hu⟩
  · intro h
    obtain ⟨hx, s, t, hy, hz, hu⟩ := h
    exact ⟨_, hx, (), rfl, s, hy, t, hz, hu⟩

/-- A check goes down to every leaf, so that one that succeeds has stayed below the limit. -/
theorem depth_le_of_resultInside {types : TypeEnvironment} {e : Expr} {n : Nesting}
    {t : ValueType} (h : resultInside types n e = .ok t) : n.depth + e.depth ≤ n.limit := by
  -- on the tree: a part that was checked had the room for it
  induction e generalizing n t with
  | lit negative value | var negative name => exact (Nesting.result_descend_eq_ok_iff.mp h).1
  | binary negative op left right ihl ihr =>
    -- both operands have been checked, whatever the operator is
    have hv := (Nesting.result_descend_eq_ok_iff.mp h).2
    rw [result_visit_binary, Except.bind_eq_ok_iff] at hv
    obtain ⟨u, hu, -⟩ := hv
    obtain ⟨s₁, s₂, hl, hr, -⟩ := ofOperands_eq_ok_iff.mp hu
    have hl := ihl hl
    have hr := ihr hr
    simp only [Nesting.enter, Expr.depth] at hl hr ⊢
    omega
  | cond negative condition whenTrue whenFalse ihc iht ihf =>
    have hv := (Nesting.result_descend_eq_ok_iff.mp h).2
    rw [result_visit_cond, Except.bind_eq_ok_iff] at hv
    obtain ⟨u, hu, -⟩ := hv
    obtain ⟨hc, s₁, s₂, ht, hf, -⟩ := ofBranches_eq_ok_iff.mp hu
    have hc := ihc hc
    have ht := iht ht
    have hf := ihf hf
    simp only [Nesting.enter, Expr.depth] at hc ht hf ⊢
    omega

end Checker

namespace Expr

variable {types : TypeEnvironment} {limit : Nat} {t : ValueType}

/-- A node with an operator has a type if its operands do, by the typing rule of the operator. -/
theorem typeIn_binary_eq_ok_iff {negative : Bool} {op : Operator} {left right : Expr} :
    (binary negative op left right).typeIn types = .ok t ↔
      ∃ s₁ s₂, left.typeIn types = .ok s₁ ∧ right.typeIn types = .ok s₂ ∧ op.Allows s₁ s₂ t ∧
        (negative → t.isNumeric) := by
  simp only [typeIn, Except.bind_eq_ok_iff, Checker.ofOperands_eq_ok_iff, Checker.signed_eq_ok_iff]
  grind

/-- A conditional has the common type of its branches. -/
theorem typeIn_cond_eq_ok_iff {negative : Bool} {condition whenTrue whenFalse : Expr} :
    (cond negative condition whenTrue whenFalse).typeIn types = .ok t ↔
      condition.typeIn types = .ok .boolean ∧
        ∃ s₁ s₂, whenTrue.typeIn types = .ok s₁ ∧ whenFalse.typeIn types = .ok s₂ ∧
          s₁.unify s₂ = some t ∧ (negative → t.isNumeric) := by
  simp only [typeIn, Except.bind_eq_ok_iff, Checker.ofBranches_eq_ok_iff, Checker.signed_eq_ok_iff]
  grind

variable (types) (e : Expr)

/-- A check needs a number of levels, no more than the tree has: with a limit that allows them it
    gives the type of the tree, and otherwise it complains about the limit. -/
theorem exists_checkWithin_eq :
    ∃ levels ≤ e.depth, ∀ limit, e.checkWithin limit types =
      if levels ≤ limit then e.typeIn types else .error (.depthLimitExceeded limit) := by
  obtain ⟨levels, hlevels, hinside⟩ := (Checker.reaches_visit types e).descend
  have hpos := e.depth_pos
  refine ⟨levels, by omega, fun limit => ?_⟩
  have hstart := hinside (Nesting.start limit) (Nat.zero_le _)
  simp only [Nesting.start, Nat.zero_add] at hstart
  exact hstart

/-- A check of a tree within its limit gives the type of the tree. -/
theorem checkWithin_of_depth_le {limit : Nat} (h : e.depth ≤ limit) :
    e.checkWithin limit types = e.typeIn types := by
  obtain ⟨levels, hlevels, hlimit⟩ := e.exists_checkWithin_eq types
  rw [hlimit, if_pos (Nat.le_trans hlevels h)]

variable {types e}

/-- A check that succeeds is one of a tree within the limit. -/
theorem depth_le_of_checkWithin (h : e.checkWithin limit types = .ok t) : e.depth ≤ limit := by
  simpa [Nesting.start] using Checker.depth_le_of_resultInside h

/-- A check that succeeds gives the type of the tree. -/
theorem typeIn_of_checkWithin (h : e.checkWithin limit types = .ok t) : e.typeIn types = .ok t := by
  rw [← h, checkWithin_of_depth_le types e (depth_le_of_checkWithin h)]

end Expr

end Formula
