import Formula.Proofs.Engine.Session
import Formula.Proofs.Parser.Canonicity
import Formula.Proofs.Passes.Limit

/-!
# Engines walk what they parse

The parser bounds the height of its trees, and the passes bound how deep they go.  Where the first
bound is at most the second one, an engine evaluates and checks every source that it parses without
a complaint about the limit.

## Key results

* `gives_evaluate_value`, `gives_check_typeIn`: an engine answers as if it had no limit for passes
* `walks_what_it_parses`: so it never complains, whatever it was asked before
-/

namespace Formula

open Except (FailsOnly)

/-- Whether a failure is about something else than the limit of the passes. -/
def Failure.SparesLimit : Failure → Prop
  | .parse _ => True
  | .type e => e.SparesLimit
  | .evaluation e => e.SparesLimit

namespace Engine

variable {config : EngineConfig}

/-- The trees that an engine parses are no deeper than its passes go. -/
theorem depth_le_of_uncached {source : String} {tree : Expr}
    (hlimits : config.parseLimit ≤ config.evalLimit) (h : uncached config source = .ok tree) :
    tree.depth ≤ config.evalLimit := by
  unfold uncached at h
  cases hparse : Expr.parseWithin config.parseLimit source with
  | error e =>
    rw [hparse] at h
    cases h
  | ok parsed =>
    rw [hparse] at h
    cases h
    exact Nat.le_trans (Expr.isCanonical_of_parseWithin hparse).2 hlimits

/-- Of a walk through a parsed tree, only what it does with trees that are parsed matters. -/
theorem Gives.walk_congr {α : Type} {step : EngineStep α} {source : String}
    {walk walk' : Expr → Except Failure α}
    (h : Gives config step (uncached config source >>= walk))
    (heq : ∀ tree, uncached config source = .ok tree → walk tree = walk' tree) :
    Gives config step (uncached config source >>= walk') := by
  cases htree : uncached config source with
  | error e => rwa [htree] at h
  | ok tree =>
    have hwalk : (Except.ok tree >>= walk) = (Except.ok tree >>= walk') := heq tree htree
    rwa [htree, hwalk] at h

/-- An engine evaluates what it parses as if there were no limit. -/
theorem gives_evaluate_value (hlimits : config.parseLimit ≤ config.evalLimit) (source : String)
    (env : Environment) :
    Gives config (evaluate source env) (do
      let tree ← uncached config source
      (tree.value env).mapError .evaluation) := by
  refine (gives_evaluate source env).walk_congr fun tree htree => ?_
  rw [Expr.evaluateWithin_of_depth_le env tree (depth_le_of_uncached hlimits htree)]

/-- An engine checks what it parses as if there were no limit. -/
theorem gives_check_typeIn (hlimits : config.parseLimit ≤ config.evalLimit) (source : String)
    (types : TypeEnvironment) :
    Gives config (check source types) (do
      let tree ← uncached config source
      (tree.typeIn types).mapError .type) := by
  refine (gives_check source types).walk_congr fun tree htree => ?_
  rw [Expr.checkWithin_of_depth_le types tree (depth_le_of_uncached hlimits htree)]

theorem failsOnly_uncached (source : String) :
    FailsOnly Failure.SparesLimit (uncached config source) := by
  have hparse : FailsOnly (fun _ => True) (Expr.parseWithin config.parseLimit source) :=
    fun _ _ => trivial
  exact hparse.mapError fun _ _ => trivial

/-- An engine whose parser goes no deeper than its passes never complains about the limit of its
    passes, whatever it was asked before. -/
theorem walks_what_it_parses (hlimits : config.parseLimit ≤ config.evalLimit)
    (requests : List Request) (source : String) :
    (∀ env limit, (outcome (evaluate source env (session requests (new config)).2)).1 ≠
      .error (.evaluation (.depthLimitExceeded limit))) ∧
    ∀ types limit, (outcome (check source types (session requests (new config)).2)).1 ≠
      .error (.type (.depthLimitExceeded limit)) := by
  have hnew : Sound config (new config) := sound_of_empty rfl rfl
  have hsound := (hnew.session requests).2
  constructor
  · -- what an evaluation answers is the value of a tree without any limit, which cannot complain
    intro env limit hcomplaint
    have hfails : FailsOnly Failure.SparesLimit (do
        let tree ← uncached config source
        (tree.value env).mapError .evaluation) :=
      (failsOnly_uncached source).bind fun tree =>
        (tree.value_failsOnly env).mapError fun _ he => he
    rw [(gives_evaluate_value hlimits source env hsound).1] at hcomplaint
    exact hfails _ hcomplaint limit rfl
  · -- and so is what a check answers
    intro types limit hcomplaint
    have hfails : FailsOnly Failure.SparesLimit (do
        let tree ← uncached config source
        (tree.typeIn types).mapError .type) :=
      (failsOnly_uncached source).bind fun tree =>
        (tree.typeIn_failsOnly types).mapError fun _ he => he
    rw [(gives_check_typeIn hlimits source types hsound).1] at hcomplaint
    exact hfails _ hcomplaint limit rfl

/-- A sum that is as high as both limits allow, evaluated and checked behind another request. -/
theorem walks_what_it_parses_sum :
    let config : EngineConfig := ⟨1, 2, 2⟩
    let engine := (session [.format "(x)"] (new config)).2
    config.parseLimit ≤ config.evalLimit ∧
      Expr.parseWithin 2 "1 + x" = .ok (.binary false (.arithmetic .add) (.lit false (.integer 1))
        (.var false "x")) ∧
      (outcome (evaluate "1 + x" .empty engine)).1 ≠ .error (.evaluation (.depthLimitExceeded 2)) ∧
      (outcome (check "1 + x" .empty engine)).1 ≠ .error (.type (.depthLimitExceeded 2)) := by
  intro config engine
  have hlimits : config.parseLimit ≤ config.evalLimit := by decide
  obtain ⟨hevaluate, hcheck⟩ := walks_what_it_parses hlimits [.format "(x)"] "1 + x"
  exact ⟨hlimits, by decide +kernel, hevaluate .empty 2, hcheck .empty 2⟩

end Engine

end Formula
