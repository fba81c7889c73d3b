import Formula.Evaluation.Evaluator
import Formula.Expr.Text
import Formula.Parser.Basic
import Formula.Typing.Checker

/-!
# An engine with a cache of parsed sources

An `Engine` parses a source once and keeps the tree for the next time.  What its operations answer
does not depend on the cache; `Engine.compile` is the only operation that adds to it.
-/

namespace Formula

/-- Why an engine gives no answer. -/
inductive Failure where
  | parse (error : ParseError)
  | type (error : TypeError)
  | evaluation (error : EvalError)
deriving DecidableEq

namespace Failure

/-- The message of the error behind a failure. -/
def cause : Failure → String
  | .parse e => e.message
  | .type e => e.message
  | .evaluation e => e.message

/-- The message of a failure. -/
def message : Failure → String
  | .parse e => "Parse error: " ++ e.message
  | .type e => "Type error: " ++ e.message
  | .evaluation e => "Evaluation error: " ++ e.message

/-- The place in the source where a failure arises, if it has one. -/
def position? : Failure → Option Nat
  | .parse e => e.position?
  | _ => none

end Failure

/-- The settings of an engine. -/
structure EngineConfig where
  /-- A cache that holds this many trees is emptied before the next one is added. -/
  cacheCapacity : Nat
  /-- How deep expressions may nest. -/
  parseLimit : Nat
  /-- How deep trees may be where they are evaluated or checked. -/
  evalLimit : Nat
deriving DecidableEq

namespace EngineConfig

/-- The settings if nothing else is said. -/
def standard : EngineConfig :=
  ⟨1000, Parser.defaultLimit, Nesting.defaultLimit⟩

end EngineConfig

/-- An engine: its settings and the trees of the sources it has parsed. -/
structure Engine where
  config : EngineConfig
  cache : Bindings Expr

/-- An operation of an engine. -/
abbrev EngineStep := EStateM Failure Engine

namespace Engine

/-- An engine that has not parsed anything. -/
def new (config : EngineConfig) : Engine :=
  ⟨config, Bindings.empty⟩

/-- Adds a tree to the cache. -/
def remember (source : String) (tree : Expr) (engine : Engine) : Engine :=
  let kept :=
    if engine.config.cacheCapacity ≤ engine.cache.size then Bindings.empty else engine.cache
  { engine with cache := kept.insert source tree }

/-- The tree of a source, from the cache if it is there. -/
def compile (source : String) : EngineStep Expr := fun engine =>
  match engine.cache.find? source with
  | some tree => .ok tree engine
  | none =>
    match Expr.parseWithin engine.config.parseLimit source with
    -- failures are not remembered
    | .ok tree => .ok tree (engine.remember source tree)
    | .error e => .error (.parse e) engine

/-- The value of a source. -/
def evaluate (source : String) (env : Environment) : EngineStep Value := do
  let tree ← compile source
  match tree.evaluateWithin (← get).config.evalLimit env with
  | .ok value => return value
  | .error e => throw (.evaluation e)

/-- The type of a source. -/
def check (source : String) (types : TypeEnvironment) : EngineStep ValueType := do
  let tree ← compile source
  match tree.checkWithin (← get).config.evalLimit types with
  | .ok t => return t
  | .error e => throw (.type e)

/-- The canonical form of a source. -/
def format (source : String) : EngineStep String := do
  let tree ← compile source
  return tree.print

/-- Empties the cache. -/
def clearCache (engine : Engine) : Engine :=
  { engine with cache := Bindings.empty }

/-- The number of trees in the cache. -/
def cacheSize (engine : Engine) : Nat :=
  engine.cache.size

end Engine

end Formula
