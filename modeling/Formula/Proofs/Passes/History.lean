import Formula.Proofs.Passes.Limit

/-!
# Passes without a history

An evaluator or a checker can be used again and again, from the top of a tree or for a visit of its
root, and whether the uses before succeeded or not.  Every use starts and ends at depth zero, so it
answers like the first one.

A visit of the root does not count the root.  So it goes as far as a pass from the top with one more
level, and differs from that only in the limit that it complains about.

## Key results

* `session_eq_of_rests`: passes that come back to the top answer as if each were the first
* `Reaches.result_start`: a visit of the root against a pass from the top
* `passes_carry_no_history`: both, for evaluations and for checks
-/

namespace Formula

namespace Nesting

variable {ε α : Type}

/-! ## Sessions -/

/-- A result and the nesting behind it, which is there after a failure too. -/
def outcome : EStateM.Result ε Nesting α → Except ε α × Nesting
  | .ok a n => (.ok a, n)
  | .error e n => (.error e, n)

/-- The outcomes of passes that are done one after the other. -/
def session : List (Pass ε α) → Nesting → List (Except ε α × Nesting)
  | [], _ => []
  | pass :: passes, n =>
    let (answer, n) := outcome (pass n)
    (answer, n) :: session passes n

/-- Whether a pass that starts at the top is back at the top in the end. -/
def Rests (pass : Pass ε α) : Prop :=
  ∀ limit, outcome (pass (start limit)) = (result pass (start limit), start limit)

theorem Balanced.rests {pass : Pass ε α} (h : Balanced pass) : Rests pass := by
  intro limit
  obtain ⟨a, ha⟩ | ⟨e, he⟩ := h (start limit)
  · simp only [outcome, result, ha]
  · simp only [outcome, result, he]

/-- At the top there is nothing to go back from. -/
theorem Rests.fromTop {pass : Pass ε α} (h : Rests pass) : Rests (fromTop pass) :=
  h

/-- Passes that come back to the top answer as if each were the first. -/
theorem session_eq_of_rests {passes : List (Pass ε α)} (h : ∀ pass ∈ passes, Rests pass)
    (limit : Nat) :
    session passes (start limit) =
      passes.map fun pass => (result pass (start limit), start limit) := by
  induction passes with
  | nil => rfl
  | cons pass passes ih =>
    have hpass := h pass List.mem_cons_self limit
    have hpasses := ih fun pass hmem => h pass (List.mem_cons_of_mem _ hmem)
    simp only [session, hpass, hpasses, List.map_cons]

/-! ## Visits of roots -/

/-- A step without a child around it goes as far as one with a child around it does under a limit
    that is higher by one.  Only the complaint about the limit has to be renamed. -/
theorem Reaches.result_start {exceeded : Nat → ε} {bound : Nat} {step : Pass ε α}
    {whole : Except ε α} (h : Reaches exceeded bound (result step) whole) {limit : Nat}
    {rename : ε → ε} (hexceeded : rename (exceeded (limit + 1)) = exceeded limit)
    (hwhole : whole.mapError rename = whole) :
    result step (start limit) =
      (result (Nesting.descend exceeded step) (start (limit + 1))).mapError rename := by
  obtain ⟨levels, -, hstep⟩ := h
  have hbelow : (start (limit + 1)).depth < (start (limit + 1)).limit := Nat.succ_pos limit
  have henter := hstep (start (limit + 1)).enter hbelow
  -- one level more, and one entered already: the room is the same
  have hiff : (start (limit + 1)).enter.depth + levels ≤ (start (limit + 1)).enter.limit ↔
      (start limit).depth + levels ≤ (start limit).limit := by
    simp only [start, enter]
    omega
  rw [result_descend_of_lt _ _ hbelow, hstep _ (Nat.zero_le _), henter]
  by_cases hroom : (start limit).depth + levels ≤ (start limit).limit
  · rw [if_pos hroom, if_pos (hiff.mpr hroom), hwhole]
  · rw [if_neg hroom, if_neg (mt hiff.mp hroom)]
    exact congrArg Except.error hexceeded.symm

end Nesting

/-! ## Evaluators -/

/-- The same error, where a complaint about the limit names the given one. -/
def EvalError.withLimit (limit : Nat) : EvalError → EvalError
  | .depthLimitExceeded _ => .depthLimitExceeded limit
  | e => e

/-- Only a complaint about the limit names one. -/
theorem EvalError.SparesLimit.withLimit_eq {e : EvalError} (h : e.SparesLimit) (limit : Nat) :
    e.withLimit limit = e := by
  cases e with
  | depthLimitExceeded other => exact absurd rfl (h other)
  | _ => rfl

/-- What an evaluator can be used for. -/
inductive Evaluator.Request where
  | evaluate (env : Environment) (e : Expr)
  | visit (env : Environment) (e : Expr)

/-- The pass that a request asks for. -/
def Evaluator.Request.perform : Evaluator.Request → Pass EvalError Value
  | .evaluate env e => Evaluator.evaluate env e
  | .visit env e => Evaluator.visit env e

theorem Evaluator.Request.rests (request : Evaluator.Request) : Nesting.Rests request.perform := by
  cases request with
  | evaluate env e => exact (inside_balanced env e).rests.fromTop
  | visit env e => exact (visit_balanced env e).rests

/-! ## Checkers -/

/-- The same error, where a complaint about the limit names the given one. -/
def TypeError.withLimit (limit : Nat) : TypeError → TypeError
  | .depthLimitExceeded _ => .depthLimitExceeded limit
  | e => e

/-- Only a complaint about the limit names one. -/
theorem TypeError.SparesLimit.withLimit_eq {e : TypeError} (h : e.SparesLimit) (limit : Nat) :
    e.withLimit limit = e := by
  cases e with
  | depthLimitExceeded other => exact absurd rfl (h other)
  | _ => rfl

/-- What a checker can be used for. -/
inductive Checker.Request where
  | check (types : TypeEnvironment) (e : Expr)
  | visit (types : TypeEnvironment) (e : Expr)

/-- The pass that a request asks for. -/
def Checker.Request.perform : Checker.Request → Pass TypeError ValueType
  | .check types e => Checker.check types e
  | .visit types e => Checker.visit types e

theorem Checker.Request.rests (request : Checker.Request) : Nesting.Rests request.perform := by
  cases request with
  | check types e => exact (inside_balanced types e).rests.fromTop
  | visit types e => exact (visit_balanced types e).rests

/-! ## Both passes -/

open Nesting (session result start) in
/-- Evaluators and checkers carry no history.  Whatever they were used for before, every use answers
    like the first one and ends at depth zero, and a visit of a root answers like a pass from the
    top under a limit that is higher by one, except that a complaint names its own limit. -/
theorem passes_carry_no_history (limit : Nat) :
    (∀ requests : List Evaluator.Request,
      session (requests.map Evaluator.Request.perform) (start limit) =
        requests.map fun request => (result request.perform (start limit), start limit)) ∧
    (∀ env e, result (Evaluator.visit env e) (start limit) =
      (e.evaluateWithin (limit + 1) env).mapError (EvalError.withLimit limit)) ∧
    (∀ requests : List Checker.Request,
      session (requests.map Checker.Request.perform) (start limit) =
        requests.map fun request => (result request.perform (start limit), start limit)) ∧
    ∀ types e, result (Checker.visit types e) (start limit) =
      (e.checkWithin (limit + 1) types).mapError (TypeError.withLimit limit) := by
  refine ⟨fun requests => ?_, fun env e => ?_, fun requests => ?_, fun types e => ?_⟩
  · -- every request leaves the nesting as it found it, also when it fails
    rw [Nesting.session_eq_of_rests (by simp [Evaluator.Request.rests]), List.map_map]
    rfl
  · -- the value itself never names the limit, so only the cut changes its number
    have hwhole := (e.value_failsOnly env).mapError_eq fun _ h => h.withLimit_eq limit
    exact (Evaluator.reaches_visit env e).result_start rfl hwhole
  · rw [Nesting.session_eq_of_rests (by simp [Checker.Request.rests]), List.map_map]
    rfl
  · have hwhole := (e.typeIn_failsOnly types).mapError_eq fun _ h => h.withLimit_eq limit
    exact (Checker.reaches_visit types e).result_start rfl hwhole

end Formula
