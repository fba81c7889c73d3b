import Formula.Proofs.Evaluation.Unlimited
import Formula.Proofs.Expr.Variables
import Formula.Proofs.Steps
import Formula.Proofs.Typing.Unlimited

/-!
# The rules of a pass

An evaluation and a check go through a tree in the same way.  Both look at the limit on the way into
a node, take a variable from the bindings, hand the results of the children to the node, and apply
the sign flag last.  `Rules` is what is left to each of them, and `Rules.inside` is what they share.

The environment is no part of the rules: a pass reads it at the variables and nowhere else.

## Key results

* `Evaluator.resultInside_eq_inside`, `Checker.resultInside_eq_inside`: both passes follow rules
* `Rules.inside_negated`: a sign flag is applied to the result of the node without it
* `Rules.inside_replaceVars`: what stands for a variable has to give what the variable gives
* `Rules.AddsOnly.failsOnly_inside`: where the errors of a pass come from
-/

namespace Formula

open Except (FailsOnly failsOnly_ok failsOnly_error)

/-- What a pass gives at each kind of node.  An operator and a conditional get the results of their
    children, and look at no more of them than they need. -/
structure Rules (ε α : Type) where
  exceeded : Nat → ε
  unbound : String → ε
  literal : Value → α
  operator : Operator → Except ε α → Except ε α → Except ε α
  conditional : Except ε α → Except ε α → Except ε α → Except ε α
  negate : α → Except ε α

/-- The rules of evaluation. -/
def Evaluator.rules : Rules EvalError Value where
  exceeded := .depthLimitExceeded
  unbound := .unboundVariable
  literal value := value
  operator := ofOperands
  conditional := ofBranches
  negate := Arithmetic.negate

/-- The rules of type checking. -/
def Checker.rules : Rules TypeError ValueType where
  exceeded := .depthLimitExceeded
  unbound := .undeclaredVariable
  literal value := value.type
  operator := ofOperands
  conditional := ofBranches
  negate := signed true

namespace Rules

variable {ε α : Type}

section Steps

variable (rules : Rules ε α)

/-- A node is refused at the limit. -/
def enter (n : Nesting) (x : Except ε α) : Except ε α :=
  if n.limit ≤ n.depth then .error (rules.exceeded n.limit) else x

/-- The result of a node with the sign flag, given the result of the node without. -/
def signed (negative : Bool) (x : Except ε α) : Except ε α :=
  if negative then x >>= rules.negate else x

/-- The result of a variable. -/
def lookUp (bindings : Bindings α) (name : String) : Except ε α :=
  match bindings.find? name with
  | some a => .ok a
  | none => .error (rules.unbound name)

/-- The result of a tree that a pass meets at a nesting. -/
def inside (bindings : Bindings α) : Expr → Nesting → Except ε α
  | .lit negative value, n => rules.enter n (rules.signed negative (.ok (rules.literal value)))
  | .var negative name, n => rules.enter n (rules.signed negative (rules.lookUp bindings name))
  | .binary negative op left right, n =>
    rules.enter n (rules.signed negative
      (rules.operator op (inside bindings left n.enter) (inside bindings right n.enter)))
  | .cond negative condition whenTrue whenFalse, n =>
    rules.enter n (rules.signed negative
      (rules.conditional (inside bindings condition n.enter) (inside bindings whenTrue n.enter)
        (inside bindings whenFalse n.enter)))

end Steps

variable {rules : Rules ε α}

/-! ### Signs and variables -/

/-- What is done to the result of a node comes after the look at the limit. -/
theorem enter_bind (n : Nesting) (x : Except ε α) (f : α → Except ε α) :
    rules.enter n (x >>= f) = rules.enter n x >>= f := by
  unfold enter
  split <;> rfl

/-- A sign flag negates the result of the node without it, whatever kind of node it is. -/
theorem inside_negated (bindings : Bindings α) {e : Expr} (h : e.isNegative = false)
    (n : Nesting) :
    rules.inside bindings e.negated n = rules.inside bindings e n >>= rules.negate := by
  cases e with
  | lit negative value | var negative name | binary negative op left right
  | cond negative condition whenTrue whenFalse =>
    -- the flag is the last step at the node, with nothing but the limit around it
    cases h
    exact enter_bind n _ rules.negate

/-- Replacing variables keeps the result, under other bindings too, if everywhere what stands for a
    variable gives the result of the variable. -/
theorem inside_replaceVars {bindings bindings' : Bindings α} {stand : Bool → String → Expr}
    {e : Expr} (h : ∀ name, e.Mentions name → ∀ negative n,
      rules.inside bindings' (stand negative name) n =
        rules.inside bindings (.var negative name) n) (n : Nesting) :
    rules.inside bindings' (e.replaceVars stand) n = rules.inside bindings e n := by
  -- the nesting is general, for a child is met further down
  induction e generalizing n with
  | lit negative value => rfl
  | var negative name => exact h name (Expr.mentions_var_iff.mpr rfl) negative n
  | binary negative op left right ihl ihr =>
    have hl := ihl fun name hname => h name (hname.of_child (by simp [Expr.children]))
    have hr := ihr fun name hname => h name (hname.of_child (by simp [Expr.children]))
    rw [Expr.replaceVars, inside, inside, hl, hr]
  | cond negative condition whenTrue whenFalse ihc iht ihf =>
    have hc := ihc fun name hname => h name (hname.of_child (by simp [Expr.children]))
    have ht := iht fun name hname => h name (hname.of_child (by simp [Expr.children]))
    have hf := ihf fun name hname => h name (hname.of_child (by simp [Expr.children]))
    rw [Expr.replaceVars, inside, inside, hc, ht, hf]

/-! ### Errors -/

/-- Whether the errors that nodes add to those of their children are all of one sort. -/
structure AddsOnly (rules : Rules ε α) (own : ε → Prop) : Prop where
  operator : ∀ {allowed : ε → Prop}, (∀ err, own err → allowed err) → ∀ (op : Operator)
    {x y : Except ε α}, FailsOnly allowed x → FailsOnly allowed y →
    FailsOnly allowed (rules.operator op x y)
  conditional : ∀ {allowed : ε → Prop}, (∀ err, own err → allowed err) → ∀ {x y z : Except ε α},
    FailsOnly allowed x → FailsOnly allowed y → FailsOnly allowed z →
    FailsOnly allowed (rules.conditional x y z)
  negate : ∀ a, FailsOnly own (rules.negate a)

/-- The errors that a pass may have where it meets a tree: those of its nodes, that a variable of the
    tree has no binding, and that the tree does not keep to the limit. -/
inductive MayFail (rules : Rules ε α) (own : ε → Prop) (bindings : Bindings α) (e : Expr)
    (n : Nesting) : ε → Prop
  | own {err} (h : own err) : MayFail rules own bindings e n err
  | unbound {name} (hmentions : e.Mentions name) (hnone : bindings.find? name = none) :
      MayFail rules own bindings e n (rules.unbound name)
  | exceeded (hlimit : n.limit < n.depth + e.depth) :
      MayFail rules own bindings e n (rules.exceeded n.limit)

variable {own : ε → Prop} {bindings : Bindings α}

/-- A node may have the errors of its children, which are met one level further down. -/
theorem MayFail.of_child {child e : Expr} {n : Nesting} {err : ε}
    (h : MayFail rules own bindings child n.enter err) (hchild : child ∈ e.children) :
    MayFail rules own bindings e n err := by
  cases h with
  | own h => exact .own h
  | unbound hmentions hnone => exact .unbound (hmentions.of_child hchild) hnone
  | exceeded hlimit =>
    have hdepth := Expr.depth_lt_of_mem_children hchild
    refine .exceeded ?_
    simp only [Nesting.enter] at hlimit
    omega

/-- The look at the limit and the sign flag of a node may have the errors of the node. -/
theorem AddsOnly.failsOnly_node (h : rules.AddsOnly own) {e : Expr} {n : Nesting} {x : Except ε α}
    (hx : FailsOnly (MayFail rules own bindings e n) x) (negative : Bool) :
    FailsOnly (MayFail rules own bindings e n) (rules.enter n (rules.signed negative x)) := by
  have hpos := e.depth_pos
  unfold enter
  split
  · exact failsOnly_error (.exceeded (by omega))
  · cases negative with
    | false => exact hx
    | true => exact hx.bind fun a => (h.negate a).imp fun _ => .own

/-- A pass fails in one of its nodes, or at a variable of the tree without a binding, or at the limit
    if the tree does not keep to it. -/
theorem AddsOnly.failsOnly_inside (h : rules.AddsOnly own) (bindings : Bindings α) (e : Expr)
    (n : Nesting) : FailsOnly (MayFail rules own bindings e n) (rules.inside bindings e n) := by
  -- a node fails as a part of it may, by its own rule, or at the limit
  induction e generalizing n with
  | lit negative value => exact h.failsOnly_node (failsOnly_ok _) negative
  | var negative name =>
    -- only here do the bindings come in
    refine h.failsOnly_node ?_ negative
    unfold lookUp
    split
    · exact failsOnly_ok _
    · next hnone => exact failsOnly_error (.unbound (Expr.mentions_var_iff.mpr rfl) hnone)
  | binary negative op left right ihl ihr =>
    refine h.failsOnly_node (h.operator (fun _ => .own) op ?_ ?_) negative
    · exact (ihl n.enter).imp fun _ hl => hl.of_child (by simp [Expr.children])
    · exact (ihr n.enter).imp fun _ hr => hr.of_child (by simp [Expr.children])
  | cond negative condition whenTrue whenFalse ihc iht ihf =>
    refine h.failsOnly_node (h.conditional (fun _ => .own) ?_ ?_ ?_) negative
    · exact (ihc n.enter).imp fun _ hc => hc.of_child (by simp [Expr.children])
    · exact (iht n.enter).imp fun _ ht => ht.of_child (by simp [Expr.children])
    · exact (ihf n.enter).imp fun _ hf => hf.of_child (by simp [Expr.children])

end Rules

/-! ## Evaluation -/

namespace Evaluator

theorem signed_rules (negative : Bool) (x : Except EvalError Value) :
    rules.signed negative x = x >>= Arithmetic.applySign negative := by
  cases negative with
  | true => rfl
  | false => exact (Arithmetic.bind_applySign_false x).symm

/-- An evaluation follows its rules, wherever it meets a tree. -/
theorem resultInside_eq_inside (env : Environment) (e : Expr) (n : Nesting) :
    resultInside env n e = rules.inside env e n := by
  -- a child is the look at the limit and a visit behind it
  have hdescend (e : Expr) (n : Nesting) : resultInside env n e =
      rules.enter n (Nesting.result (visit env e) n.enter) := Nesting.result_descend _ _ n
  -- on the tree, with the nesting that each child is met in
  induction e generalizing n with
  | lit negative value =>
    rw [hdescend, visit, Nesting.result_liftExcept, Rules.inside, signed_rules]
    rfl
  | var negative name =>
    rw [hdescend, visit, Rules.inside, Rules.lookUp, signed_rules]
    cases env.find? name with
    | none => rfl
    | some value =>
      rw [Nesting.result_liftExcept]
      rfl
  | binary negative op left right ihl ihr =>
    rw [hdescend, result_visit_binary, ihl, ihr, Rules.inside, signed_rules]
    rfl
  | cond negative condition whenTrue whenFalse ihc iht ihf =>
    rw [hdescend, result_visit_cond, ihc, iht, ihf, Rules.inside, signed_rules]
    rfl

end Evaluator

theorem Expr.evaluateWithin_eq_inside (limit : Nat) (env : Environment) (e : Expr) :
    e.evaluateWithin limit env = Evaluator.rules.inside env e (Nesting.start limit) :=
  Evaluator.resultInside_eq_inside env e (Nesting.start limit)

/-! ## Type checking -/

namespace Checker

theorem signed_rules (negative : Bool) (x : Except TypeError ValueType) :
    rules.signed negative x = x >>= signed negative := by
  cases negative with
  | true => rfl
  | false => cases x <;> rfl

/-- A check follows its rules, wherever it meets a tree. -/
theorem resultInside_eq_inside (types : TypeEnvironment) (e : Expr) (n : Nesting) :
    resultInside types n e = rules.inside types e n := by
  have hdescend (e : Expr) (n : Nesting) : resultInside types n e =
      rules.enter n (Nesting.result (visit types e) n.enter) := Nesting.result_descend _ _ n
  -- as for the evaluator, node by node
  induction e generalizing n with
  | lit negative value =>
    rw [hdescend, visit, Nesting.result_liftExcept, Rules.inside, signed_rules]
    rfl
  | var negative name =>
    rw [hdescend, visit, Rules.inside, Rules.lookUp, signed_rules]
    cases types.find? name with
    | none => rfl
    | some t =>
      rw [Nesting.result_liftExcept]
      rfl
  | binary negative op left right ihl ihr =>
    rw [hdescend, result_visit_binary, ihl, ihr, Rules.inside, signed_rules]
    rfl
  | cond negative condition whenTrue whenFalse ihc iht ihf =>
    rw [hdescend, result_visit_cond, ihc, iht, ihf, Rules.inside, signed_rules]
    rfl

end Checker

theorem Expr.checkWithin_eq_inside (limit : Nat) (types : TypeEnvironment) (e : Expr) :
    e.checkWithin limit types = Checker.rules.inside types e (Nesting.start limit) :=
  Checker.resultInside_eq_inside types e (Nesting.start limit)

end Formula
