import Mathlib.Control.Monad.Basic
import Formula.Engine
import Formula.Proofs.Steps

/-!
# Sessions with an engine

The cache of an engine cannot be told from its answers.  Every tree in it is the one that its source
parses to (`Engine.Sound`), whatever has been asked before, so every request is answered as if it
were the first one (`Engine.session_eq_answers`).
-/

namespace Formula

namespace Engine

/-- What an engine can be asked for. -/
inductive Request where
  | compile (source : String)
  | evaluate (source : String) (env : Environment)
  | check (source : String) (types : TypeEnvironment)
  | format (source : String)
  | clearCache

/-- What a request is answered with. -/
inductive Answer where
  | tree (tree : Expr)
  | value (value : Value)
  | type (type : ValueType)
  | text (text : String)
  | cleared
deriving DecidableEq

/-- The operation that a request asks for. -/
def Request.perform : Request → EngineStep Answer
  | .compile source => return .tree (← Engine.compile source)
  | .evaluate source env => return .value (← Engine.evaluate source env)
  | .check source types => return .type (← Engine.check source types)
  | .format source => return .text (← Engine.format source)
  | .clearCache => do
    modify Engine.clearCache
    return .cleared

/-- A result and the engine behind it, which is there after a failure too. -/
def outcome {α : Type} : EStateM.Result Failure Engine α → Except Failure α × Engine
  | .ok a engine => (.ok a, engine)
  | .error e engine => (.error e, engine)

/-- The answers to requests one after the other, and the engine in the end. -/
def session : List Request → Engine → List (Except Failure Answer) × Engine
  | [], engine => ([], engine)
  | request :: requests, engine =>
    let (answer, engine) := outcome (request.perform engine)
    let (answers, engine) := session requests engine
    (answer :: answers, engine)

/-! ## Answers without a cache -/

/-- The tree of a source, without a cache. -/
def uncached (config : EngineConfig) (source : String) : Except Failure Expr :=
  (Expr.parseWithin config.parseLimit source).mapError .parse

/-- The answer to a request by parsing its source anew. -/
def Request.answer (config : EngineConfig) : Request → Except Failure Answer
  | .compile source => return .tree (← uncached config source)
  | .evaluate source env => do
    let tree ← uncached config source
    return .value (← (tree.evaluateWithin config.evalLimit env).mapError .evaluation)
  | .check source types => do
    let tree ← uncached config source
    return .type (← (tree.checkWithin config.evalLimit types).mapError .type)
  | .format source => return .text (← uncached config source).print
  | .clearCache => return .cleared

/-! ## What an engine has cached -/

/-- Whether an engine has the given settings and has cached nothing but what sources parse to. -/
structure Sound (config : EngineConfig) (engine : Engine) : Prop where
  config_eq : engine.config = config
  parseWithin_eq : ∀ ⦃source tree⦄, engine.cache.find? source = some tree →
    Expr.parseWithin config.parseLimit source = .ok tree

variable {config : EngineConfig} {engine : Engine}

theorem sound_of_empty (h : engine.config = config) (hcache : engine.cache = Bindings.empty) :
    Sound config engine := by
  refine ⟨h, fun source tree hfind => ?_⟩
  rw [hcache, Bindings.find?_empty] at hfind
  exact nomatch hfind

/-- A tree is remembered under the source that parses to it, whether or not the cache was full. -/
theorem Sound.remember (h : Sound config engine) {source : String} {tree : Expr}
    (hparse : Expr.parseWithin config.parseLimit source = .ok tree) :
    Sound config (engine.remember source tree) := by
  refine ⟨h.config_eq, fun other found hfind => ?_⟩
  simp only [Engine.remember] at hfind
  by_cases hother : other = source
  · subst hother
    rw [Bindings.find?_insert_self] at hfind
    rwa [← Option.some.inj hfind]
  · rw [Bindings.find?_insert_ne _ hother] at hfind
    -- the others are gone or as they were
    split at hfind
    · exact nomatch hfind
    · exact h.parseWithin_eq hfind

/-! ## Steps -/

/-- Whether a step has the given result on every sound engine, and leaves a sound engine. -/
def Gives {α : Type} (config : EngineConfig) (step : EngineStep α) (result : Except Failure α) :
    Prop :=
  ∀ ⦃engine⦄, Sound config engine →
    (outcome (step engine)).1 = result ∧ Sound config (outcome (step engine)).2

section Gives

variable {α β : Type}

theorem gives_pure (a : α) : Gives config (pure a) (.ok a) :=
  fun _ h => ⟨rfl, h⟩

theorem gives_throw (e : Failure) : Gives config (throw e : EngineStep α) (.error e) :=
  fun _ h => ⟨rfl, h⟩

theorem Gives.bind {step : EngineStep α} {result : Except Failure α} {f : α → EngineStep β}
    {g : α → Except Failure β} (hstep : Gives config step result)
    (hf : ∀ a, Gives config (f a) (g a)) : Gives config (step >>= f) (result >>= g) := by
  intro engine h
  obtain ⟨hresult, hsound⟩ := hstep h
  simp only [Bind.bind, EStateM.bind]
  -- the second step starts from an engine that is sound because the first one left it so
  cases hfirst : step engine with
  | ok a engine' =>
    rw [hfirst] at hresult hsound
    rw [← hresult]
    exact hf a hsound
  | error e engine' =>
    rw [hfirst] at hresult hsound
    rw [← hresult]
    exact ⟨rfl, hsound⟩

theorem Gives.exists_of_ok {step : EngineStep α} {a : α} (hstep : Gives config step (.ok a))
    (h : Sound config engine) : ∃ engine', step engine = .ok a engine' ∧ Sound config engine' := by
  obtain ⟨hresult, hsound⟩ := hstep h
  cases hengine : step engine with
  | ok b engine' =>
    rw [hengine] at hresult hsound
    cases hresult
    exact ⟨engine', rfl, hsound⟩
  | error e engine' =>
    rw [hengine] at hresult
    exact nomatch hresult

/-- A cached tree is the one that parsing gives again, and a new one is remembered. -/
theorem gives_compile (source : String) :
    Gives config (compile source) (uncached config source) := by
  intro engine h
  simp only [compile, uncached]
  -- a hit leaves the engine as it is, and so does a failure behind a miss
  cases hfind : engine.cache.find? source with
  | some tree =>
    rw [h.parseWithin_eq hfind]
    exact ⟨rfl, h⟩
  | none =>
    simp only [h.config_eq]
    cases hparse : Expr.parseWithin config.parseLimit source with
    | ok tree => exact ⟨rfl, h.remember hparse⟩
    | error e => exact ⟨rfl, h⟩

/-- Of the engine, what follows a look at it may only depend on the settings. -/
theorem gives_get_bind {f : Engine → EngineStep α} {result : Except Failure α}
    (hf : ∀ engine, engine.config = config → Gives config (f engine) result) :
    Gives config (get >>= f) result :=
  fun engine h => hf engine h.config_eq h

theorem gives_evaluate (source : String) (env : Environment) :
    Gives config (evaluate source env) (do
      let tree ← uncached config source
      (tree.evaluateWithin config.evalLimit env).mapError .evaluation) := by
  refine (gives_compile source).bind fun tree => gives_get_bind fun engine hconfig => ?_
  rw [hconfig]
  cases tree.evaluateWithin config.evalLimit env with
  | ok value => exact gives_pure value
  | error e => exact gives_throw (.evaluation e)

theorem gives_check (source : String) (types : TypeEnvironment) :
    Gives config (check source types) (do
      let tree ← uncached config source
      (tree.checkWithin config.evalLimit types).mapError .type) := by
  refine (gives_compile source).bind fun tree => gives_get_bind fun engine hconfig => ?_
  rw [hconfig]
  cases tree.checkWithin config.evalLimit types with
  | ok type => exact gives_pure type
  | error e => exact gives_throw (.type e)

theorem gives_format (source : String) :
    Gives config (format source) (do
      let tree ← uncached config source
      return tree.print) :=
  (gives_compile source).bind fun _ => gives_pure _

theorem gives_clearCache : Gives config (modify clearCache) (.ok ⟨⟩) :=
  fun _ h => ⟨rfl, sound_of_empty h.config_eq rfl⟩

/-- Every request is answered as without a cache. -/
theorem gives_perform (request : Request) :
    Gives config request.perform (request.answer config) := by
  cases request with
  | compile source => exact (gives_compile source).bind fun _ => gives_pure _
  -- an answer wraps what the operation gives, so only the bind has to be regrouped
  | evaluate source env =>
    rw [Request.answer, ← bind_assoc]
    exact (gives_evaluate source env).bind fun _ => gives_pure _
  | check source types =>
    rw [Request.answer, ← bind_assoc]
    exact (gives_check source types).bind fun _ => gives_pure _
  | format source =>
    rw [Request.perform, Engine.format, bind_assoc]
    exact (gives_compile source).bind fun _ => gives_pure _
  | clearCache => exact gives_clearCache.bind fun _ => gives_pure _

end Gives

/-! ## Sessions -/

/-- A session with a sound engine. -/
theorem Sound.session (h : Sound config engine) (requests : List Request) :
    (session requests engine).1 = requests.map (Request.answer config) ∧
      Sound config (session requests engine).2 := by
  induction requests generalizing engine with
  | nil => exact ⟨rfl, h⟩
  | cons request requests ih =>
    obtain ⟨hanswer, hsound⟩ := gives_perform request h
    obtain ⟨hanswers, hsound'⟩ := ih hsound
    simp only [Engine.session, List.map_cons]
    exact ⟨by rw [hanswer, hanswers], hsound'⟩

/-- The cache is invisible: whatever has been asked before, every request is answered as without a
    cache, and what is cached is what parsing gives. -/
theorem session_eq_answers (config : EngineConfig) (requests : List Request) :
    (session requests (new config)).1 = requests.map (Request.answer config) ∧
      ∀ source tree, (session requests (new config)).2.cache.find? source = some tree →
        Expr.parseWithin config.parseLimit source = .ok tree := by
  have hnew : Sound config (new config) := sound_of_empty rfl rfl
  obtain ⟨hanswers, hsound⟩ := hnew.session requests
  exact ⟨hanswers, fun _ _ hfind => hsound.parseWithin_eq hfind⟩

/-- A cache for one tree, through a hit, a failure and an eviction. -/
theorem session_eq_answers_eviction :
    let config : EngineConfig := ⟨1, 8, 8⟩
    let requests : List Request := [.compile "1", .format "1", .format "1 +", .compile "(x)"]
    let tree : Expr := .var false "x"
    (session requests (new config)).1 =
        [.ok (.tree (.lit false (.integer 1))), .ok (.text "1"),
          .error (.parse (.unexpectedEnd .expression)), .ok (.tree tree)] ∧
      (session requests (new config)).2.cache.find? "(x)" = some tree ∧
      Expr.parseWithin 8 "(x)" = .ok tree := by
  intro config requests tree
  have hsession := session_eq_answers config requests
  have hfind : (session requests (new config)).2.cache.find? "(x)" = some tree := by
    decide +kernel
  refine ⟨?_, hfind, hsession.2 _ _ hfind⟩
  -- the answers without an engine can be computed
  rw [hsession.1]
  decide +kernel

end Engine

end Formula
