import Formula.Proofs.Passes.Rules
import Formula.Proofs.Printing.Regrouping

/-!
# Sign flags in the passes

A sign flag is one negation, done to the result of the node without the flag.  That is so for every
kind of node and in each pass: an evaluation negates the value, a check asks for the type of a
number, and the canonical source has a minus sign in front and parentheses around both.

* `Arithmetic.negate_integer`          only the least integer has no negation
* `Expr.evaluateWithin_negated`        the evaluation of a node with a flag
* `Expr.checkWithin_negated`           its check
* `Expr.negated_in_every_pass`         these two, case by case, and its canonical source
-/

namespace Formula

theorem Arithmetic.negate_integer (i : Int64) :
    negate (.integer i) =
      if i = Int64.minValue then .error (.overflow .negation) else .ok (.integer (-i)) := by
  by_cases h : i = Int64.minValue
  · subst h
    rfl
  · rw [negate, ← toInt_neg_of_ne h, int64?_toInt, if_neg h]

namespace Expr

variable {e : Expr}

/-- A node with a sign flag has the negated value of the node without, and no other failures than
    that and the negation. -/
theorem evaluateWithin_negated (h : e.isNegative = false) (limit : Nat) (env : Environment) :
    e.negated.evaluateWithin limit env = e.evaluateWithin limit env >>= Arithmetic.negate := by
  rw [evaluateWithin_eq_inside, evaluateWithin_eq_inside]
  exact Rules.inside_negated env h (Nesting.start limit)

/-- A node with a sign flag has the type of the node without, if that is the type of a number. -/
theorem checkWithin_negated (h : e.isNegative = false) (limit : Nat) (types : TypeEnvironment) :
    e.negated.checkWithin limit types = e.checkWithin limit types >>= Checker.signed true := by
  rw [checkWithin_eq_inside, checkWithin_eq_inside]
  exact Rules.inside_negated types h (Nesting.start limit)

theorem print_negated (h : e.isNegative = false) : e.negated.print = "(-" ++ e.print ++ ")" := by
  rw [negated, h]
  exact print_withSign h

/-- A sign flag acts as one negation behind the node, of every kind and in each pass.  The value is
    negated, where the least integer overflows and a truth value does not fit, and the type stays,
    where that of truth values does not fit.  A failure of the node stays the same.  The canonical
    source is that of the node, with a minus sign and in parentheses. -/
theorem negated_in_every_pass (h : e.isNegative = false) :
    (∀ limit env, e.negated.evaluateWithin limit env =
      match e.evaluateWithin limit env with
      | .ok (.integer i) =>
        if i = Int64.minValue then .error (.overflow .negation) else .ok (.integer (-i))
      | .ok (.real x) => .ok (.real (-x))
      | .ok (.boolean _) => .error (.typeMismatch ⟨.negation, .number, .boolean⟩)
      | .error err => .error err) ∧
    (∀ limit types, e.negated.checkWithin limit types =
      match e.checkWithin limit types with
      | .ok .boolean => .error (.mismatch ⟨.negation, .number, .boolean⟩)
      | .ok t => .ok t
      | .error err => .error err) ∧
    e.negated.print = "(-" ++ e.print ++ ")" := by
  refine ⟨fun limit env => ?_, fun limit types => ?_, print_negated h⟩
  · rw [evaluateWithin_negated h]
    cases e.evaluateWithin limit env with
    | error err => rfl
    | ok v =>
      -- an integer, a real and a truth value: only the first can be without a negation
      cases v with
      | integer i => exact Arithmetic.negate_integer i
      | real x => rfl
      | boolean b => rfl
  · rw [checkWithin_negated h]
    cases e.checkWithin limit types with
    | error err => rfl
    -- numbers keep their type
    | ok t => cases t <;> rfl

/-- A flag on a conditional and one on a logical operator: the branch that is chosen is the least
    integer, so the negation overflows although the node and its check succeed, and the operator has
    its value decided by the left operand, so the right one is not evaluated and the flag is
    refused. -/
theorem negated_in_every_pass_branch :
    let env : Environment := Bindings.empty.insert "n" (.integer Int64.minValue)
    let types : TypeEnvironment := Bindings.empty.insert "n" .integer
    let choice : Expr := .cond false (.lit false (.boolean true)) (.var false "n")
      (.lit true (.integer 1))
    let decided : Expr := .binary false .or (.lit false (.boolean true)) (.var false "m")
    choice.isNegative = false ∧ decided.isNegative = false ∧
      choice.negated.evaluateWithin 2 env = .error (.overflow .negation) ∧
      choice.negated.checkWithin 2 types = .ok .integer ∧
      choice.negated.print = "(-(if true then n else (-1)))" ∧
      decided.negated.evaluateWithin 2 env =
        .error (.typeMismatch ⟨.negation, .number, .boolean⟩) := by
  intro env types choice decided
  have hchoice : choice.isNegative = false := rfl
  have hdecided : decided.isNegative = false := rfl
  obtain ⟨hvalue, htype, hprint⟩ := negated_in_every_pass hchoice
  obtain ⟨hdecided', -, -⟩ := negated_in_every_pass hdecided
  exact ⟨hchoice, hdecided, hvalue 2 env, htype 2 types, hprint, hdecided' 2 env⟩

end Expr

end Formula
