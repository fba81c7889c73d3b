import Formula.Proofs.Passes.Limit
import Formula.Proofs.Passes.Rules

/-!
# What the bindings are for

A pass reads its bindings at the variables of the tree and nowhere else.  So other variables have no
influence on the result, a complaint names a variable of the tree, and a variable with a binding can
as well be replaced by a literal of its value.  All of that is so under every limit, for the literal
is as deep in the tree as the variable was.

## Key results

* `Rules.inside_congr`, `Rules.inside_substitute`: what follows for a pass from its rules alone
* `Expr.substitute_bound`: a bound variable against a literal
* `Expr.only_mentioned_matter`: which variables have an influence on the result
-/

namespace Formula

namespace Rules

variable {ε α : Type} {rules : Rules ε α}

/-- Bindings that agree on the variables of a tree give the same result. -/
theorem inside_congr {bindings bindings' : Bindings α} {e : Expr}
    (h : ∀ name, e.Mentions name → bindings.find? name = bindings'.find? name) (n : Nesting) :
    rules.inside bindings e n = rules.inside bindings' e n := by
  have hvar (name : String) (hname : e.Mentions name) (negative : Bool) (n : Nesting) :
      rules.inside bindings (.var negative name) n =
        rules.inside bindings' (.var negative name) n := by
    rw [inside, inside, lookUp, lookUp, h name hname]
  -- the variables stand for themselves, under the other bindings
  simpa only [Expr.replaceVars_var] using inside_replaceVars hvar n

/-- A variable with the binding that a literal gives may be replaced by the literal, which does not
    need the binding any more. -/
theorem inside_substitute {bindings bindings' : Bindings α} {name : String} {value : Value}
    (hbound : bindings.find? name = some (rules.literal value))
    (hothers : ∀ other, other ≠ name → bindings'.find? other = bindings.find? other)
    (e : Expr) (n : Nesting) :
    rules.inside bindings' (e.substitute name value) n = rules.inside bindings e n := by
  apply inside_replaceVars
  intro other _ negative n
  by_cases hother : other = name
  · -- the literal gives what the variable is bound to, and both have the same sign flag
    subst hother
    rw [if_pos rfl, inside, inside, lookUp, hbound]
  · rw [if_neg hother, inside, inside, lookUp, lookUp, hothers other hother]

end Rules

namespace Expr

variable (e : Expr) (limit : Nat)

/-- A bound variable and a literal of its value are interchangeable: for an evaluation where the
    variable is bound to the value, and for a check where it is declared with the type of the value.
    Without the variable the result is the same, whether the variable is still bound or not. -/
theorem substitute_bound (name : String) (value : Value) :
    (∀ env env' : Environment, env.find? name = some value →
      (∀ other, other ≠ name → env'.find? other = env.find? other) →
      (e.substitute name value).evaluateWithin limit env' = e.evaluateWithin limit env) ∧
    ∀ types types' : TypeEnvironment, types.find? name = some value.type →
      (∀ other, other ≠ name → types'.find? other = types.find? other) →
      (e.substitute name value).checkWithin limit types' = e.checkWithin limit types := by
  constructor
  · intro env env' hbound hothers
    rw [evaluateWithin_eq_inside, evaluateWithin_eq_inside]
    exact Rules.inside_substitute hbound hothers e (Nesting.start limit)
  · intro types types' hdeclared hothers
    rw [checkWithin_eq_inside, checkWithin_eq_inside]
    exact Rules.inside_substitute hdeclared hothers e (Nesting.start limit)

/-- A literal for both occurrences of `x` in `-x + (if y then x else z)`.  In the other environment
    `x` has another value, and in both of them `z` has none. -/
theorem substitute_bound_sum :
    let e : Expr := .binary false (.arithmetic .add) (.var true "x")
      (.cond false (.var false "y") (.var false "x") (.var false "z"))
    let env : Environment :=
      (Bindings.empty.insert "y" (.boolean true)).insert "x" (.integer 5)
    let env' : Environment :=
      (Bindings.empty.insert "y" (.boolean true)).insert "x" (.boolean false)
    let types : TypeEnvironment := Bindings.empty.insert "x" .integer
    e.substitute "x" (.integer 5) = .binary false (.arithmetic .add) (.lit true (.integer 5))
      (.cond false (.var false "y") (.lit false (.integer 5)) (.var false "z")) ∧
    env.find? "x" = some (.integer 5) ∧
    (∀ other, other ≠ "x" → env'.find? other = env.find? other) ∧
    (e.substitute "x" (.integer 5)).evaluateWithin 3 env' = .ok (.integer 0) ∧
    types.find? "x" = some (Value.integer 5).type ∧
    (∀ other, other ≠ "x" → Bindings.empty.find? other = types.find? other) ∧
    (e.substitute "x" (.integer 5)).checkWithin 3 .empty = .error (.undeclaredVariable "y") := by
  intro e env env' types
  obtain ⟨hvalue, htype⟩ := substitute_bound e 3 "x" (.integer 5)
  -- both environments bind `x` last, so they differ nowhere else
  have hothers (other : String) (hother : other ≠ "x") : env'.find? other = env.find? other := by
    rw [Bindings.find?_insert_ne _ hother, Bindings.find?_insert_ne _ hother]
  have hothers' (other : String) (hother : other ≠ "x") :
      Bindings.empty.find? other = types.find? other :=
    (Bindings.find?_insert_ne _ hother _).symm
  exact ⟨rfl, rfl, hothers, hvalue env env' rfl hothers, rfl, hothers',
    htype types .empty rfl hothers'⟩

variable {e limit} {name : String}

/-- An evaluation complains about a variable only if the tree has it and it is not bound. -/
theorem mentions_of_unboundVariable {env : Environment}
    (h : e.evaluateWithin limit env = .error (.unboundVariable name)) :
    e.Mentions name ∧ env.find? name = none := by
  rw [evaluateWithin_eq_inside] at h
  cases Evaluator.rules_addsOnly.failsOnly_inside env e _ _ h with
  | own hoperation => exact hoperation.elim
  | unbound hmentions hnone => exact ⟨hmentions, hnone⟩

/-- A check complains about a variable only if the tree has it and it is not declared. -/
theorem mentions_of_undeclaredVariable {types : TypeEnvironment}
    (h : e.checkWithin limit types = .error (.undeclaredVariable name)) :
    e.Mentions name ∧ types.find? name = none := by
  rw [checkWithin_eq_inside] at h
  cases Checker.rules_addsOnly.failsOnly_inside types e _ _ h with
  | own hoperation => exact hoperation.elim
  | unbound hmentions hnone => exact ⟨hmentions, hnone⟩

variable (e limit)

/-- Only the variables of a tree have an influence on its evaluation and on its check, and only they
    are complained about, where they have no binding. -/
theorem only_mentioned_matter :
    (∀ env₁ env₂ : Environment,
      (∀ name, e.Mentions name → env₁.find? name = env₂.find? name) →
      e.evaluateWithin limit env₁ = e.evaluateWithin limit env₂) ∧
    (∀ (env : Environment) (name : String),
      e.evaluateWithin limit env = .error (.unboundVariable name) →
      e.Mentions name ∧ env.find? name = none) ∧
    (∀ types₁ types₂ : TypeEnvironment,
      (∀ name, e.Mentions name → types₁.find? name = types₂.find? name) →
      e.checkWithin limit types₁ = e.checkWithin limit types₂) ∧
    ∀ (types : TypeEnvironment) (name : String),
      e.checkWithin limit types = .error (.undeclaredVariable name) →
      e.Mentions name ∧ types.find? name = none := by
  refine ⟨fun env₁ env₂ hagree => ?_, fun env name => mentions_of_unboundVariable,
    fun types₁ types₂ hagree => ?_, fun types name => mentions_of_undeclaredVariable⟩
  · rw [evaluateWithin_eq_inside, evaluateWithin_eq_inside]
    exact Rules.inside_congr hagree (Nesting.start limit)
  · rw [checkWithin_eq_inside, checkWithin_eq_inside]
    exact Rules.inside_congr hagree (Nesting.start limit)

/-- In `x < y or z` under bindings that agree on `x` and `y` and leave `z` unbound, where the value
    of another variable is hidden: the two evaluations have the same result, which is a complaint
    about `z`. -/
theorem only_mentioned_matter_hidden :
    let e : Expr := .binary false .or
      (.binary false (.compare .lessThan) (.var false "x") (.var false "y")) (.var false "z")
    let env : Environment :=
      (Bindings.empty.insert "x" (.integer 2)).insert "y" (.integer 1)
    let hidden : Environment := env.insert "w" (.integer 7)
    let types : TypeEnvironment := (Bindings.empty.insert "x" .integer).insert "y" .integer
    (∀ name, e.Mentions name → hidden.find? name = env.find? name) ∧
    hidden.find? "w" ≠ env.find? "w" ∧
    e.evaluateWithin 3 hidden = .error (.unboundVariable "z") ∧
    e.evaluateWithin 3 env = .error (.unboundVariable "z") ∧
    e.Mentions "z" ∧ env.find? "z" = none ∧
    e.checkWithin 3 (types.insert "w" .boolean) = e.checkWithin 3 types ∧
    e.checkWithin 3 types = .error (.undeclaredVariable "z") ∧ types.find? "z" = none := by
  intro e env hidden types
  obtain ⟨hvalue, hunbound, htype, hundeclared⟩ := only_mentioned_matter e 3
  -- the new name is not in the tree
  have hne (name : String) (hname : e.Mentions name) : name ≠ "w" := by
    rintro rfl
    simp [e] at hname
  have hagree (name : String) (hname : e.Mentions name) : hidden.find? name = env.find? name :=
    Bindings.find?_insert_ne env (hne name hname) _
  have hagree' (name : String) (hname : e.Mentions name) :
      (types.insert "w" .boolean).find? name = types.find? name :=
    Bindings.find?_insert_ne types (hne name hname) _
  have hresult : e.evaluateWithin 3 env = .error (.unboundVariable "z") := rfl
  have hresult' : e.checkWithin 3 types = .error (.undeclaredVariable "z") := rfl
  obtain ⟨hmentions, hnone⟩ := hunbound env "z" hresult
  exact ⟨hagree, by decide, (hvalue hidden env hagree).trans hresult, hresult, hmentions, hnone,
    htype _ _ hagree', hresult', (hundeclared types "z" hresult').2⟩

end Expr

end Formula
