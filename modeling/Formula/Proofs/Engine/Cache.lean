import Formula.Proofs.Engine.Session
import Formula.Proofs.Parser.Canonicity
import Formula.Proofs.Parser.Correctness

/-!
# The cache behind a request

Of all operations only `Engine.compile` adds to the cache.  A hit leaves the engine as it is, and so
does a source that does not parse; a new tree is remembered (`compile_cases`).  Every other request
about a source does to the engine what compiling the source does, whatever it makes of the tree.

A full cache is emptied before a tree is added.  A cache for no trees is always full, and yet it
takes the tree that is added: its capacity is the one that a cache can outgrow.

## Key results

* `behind_perform_cases`: all that a request can do to an engine
* `request_keeps_cache`: which trees are in the cache behind a request, also behind one that fails
* `cacheSize_le_capacity_iff`: the capacities that no cache outgrows
-/

namespace Formula

namespace Engine

variable {α β : Type}

/-- The engine behind a step, also behind one that fails. -/
def behind (step : EngineStep α) (engine : Engine) : Engine :=
  (outcome (step engine)).2

/-! ## Steps -/

/-- What leaves every engine as it is can be left out. -/
theorem behind_bind {step : EngineStep α} {f : α → EngineStep β}
    (hf : ∀ a engine, behind (f a) engine = engine) (engine : Engine) :
    behind (step >>= f) engine = behind step engine := by
  simp only [behind, Bind.bind, EStateM.bind]
  cases step engine with
  | ok a engine' => exact hf a engine'
  | error e engine' => rfl

/-- All that compiling a source can do: a hit, a failure, or a new tree. -/
theorem compile_cases (source : String) (engine : Engine) :
    (∃ tree, engine.cache.find? source = some tree ∧ compile source engine = .ok tree engine) ∨
    engine.cache.find? source = none ∧
      ((∃ e, Expr.parseWithin engine.config.parseLimit source = .error e ∧
          compile source engine = .error (.parse e) engine) ∨
        ∃ tree, Expr.parseWithin engine.config.parseLimit source = .ok tree ∧
          compile source engine = .ok tree (engine.remember source tree)) := by
  simp only [compile]
  -- the two questions of the step: is the tree there, and if not, does the source parse
  cases engine.cache.find? source with
  | some tree => exact .inl ⟨tree, rfl, rfl⟩
  | none =>
    cases Expr.parseWithin engine.config.parseLimit source with
    | ok tree => exact .inr ⟨rfl, .inr ⟨tree, rfl, rfl⟩⟩
    | error e => exact .inr ⟨rfl, .inl ⟨e, rfl, rfl⟩⟩

/-- The source that a request is about. -/
def Request.source? : Request → Option String
  | .compile source | .evaluate source _ | .check source _ | .format source => some source
  | .clearCache => none

/-- A request about a source compiles it, and what it does with the tree leaves the engine alone. -/
theorem exists_perform_eq {request : Request} {source : String}
    (h : request.source? = some source) :
    ∃ walk : Expr → EngineStep Answer, request.perform = compile source >>= walk ∧
      ∀ tree engine, behind (walk tree) engine = engine := by
  cases request with
  | compile _ =>
    cases h
    exact ⟨_, rfl, fun _ _ => rfl⟩
  | evaluate _ env =>
    cases h
    -- the walk reads the configuration and nothing else of the engine
    refine ⟨_, bind_assoc _ _ _, fun tree engine => ?_⟩
    rw [behind_bind fun _ _ => rfl, behind, EStateM.get_bind]
    cases tree.evaluateWithin engine.config.evalLimit env <;> rfl
  | check _ types =>
    cases h
    refine ⟨_, bind_assoc _ _ _, fun tree engine => ?_⟩
    rw [behind_bind fun _ _ => rfl, behind, EStateM.get_bind]
    cases tree.checkWithin engine.config.evalLimit types <;> rfl
  | format _ =>
    cases h
    exact ⟨_, bind_assoc _ _ _, fun _ _ => rfl⟩
  | clearCache => cases h

/-- All that a request can do to an engine: nothing, empty its cache, or add a new tree. -/
theorem behind_perform_cases (request : Request) (engine : Engine) :
    behind request.perform engine = engine ∨
    behind request.perform engine = engine.clearCache ∨
    ∃ source tree, Expr.parseWithin engine.config.parseLimit source = .ok tree ∧
      behind request.perform engine = engine.remember source tree := by
  cases hsource : request.source? with
  | none =>
    cases request with
    | clearCache => exact .inr (.inl rfl)
    | _ => cases hsource
  | some source =>
    -- behind its compilation a request leaves the engine alone
    obtain ⟨walk, hperform, hwalk⟩ := exists_perform_eq hsource
    rw [hperform, behind_bind hwalk]
    rcases compile_cases source engine with ⟨tree, -, hhit⟩ | ⟨-, ⟨e, -, hfailure⟩ |
      ⟨tree, hparse, hnew⟩⟩
    · exact .inl (by rw [behind, hhit]; rfl)
    · exact .inl (by rw [behind, hfailure]; rfl)
    · exact .inr (.inr ⟨source, tree, hparse, by rw [behind, hnew]; rfl⟩)

/-- What every request preserves holds at the end of a session. -/
theorem session_induction {P : Engine → Prop}
    (hstep : ∀ (request : Request) engine, P engine → P (behind request.perform engine))
    (requests : List Request) {engine : Engine} (h : P engine) : P (session requests engine).2 := by
  induction requests generalizing engine with
  | nil => exact h
  | cons request requests ih =>
    have hnext : P (behind request.perform engine) := hstep request engine h
    exact ih hnext

/-! ## Entries -/

/-- Whether adding a source empties the cache first. -/
def Evicts (source : String) (engine : Engine) : Prop :=
  engine.cache.find? source = none ∧ engine.config.cacheCapacity ≤ engine.cacheSize

instance (source : String) (engine : Engine) : Decidable (engine.Evicts source) :=
  inferInstanceAs (Decidable (_ ∧ _))

section Entries

variable {config : EngineConfig} {engine : Engine} {source : String}

/-- A source that does not parse is in no cache, so compiling it fails. -/
theorem Sound.compile_of_error (h : Sound config engine) {e : ParseError}
    (herror : Expr.parseWithin config.parseLimit source = .error e) :
    compile source engine = .error (.parse e) engine := by
  rcases compile_cases source engine with ⟨tree, hfind, -⟩ | ⟨-, ⟨e', herror', hfailure⟩ |
    ⟨tree, hparse, -⟩⟩
  · exact nomatch herror.symm.trans (h.parseWithin_eq hfind)
  · rw [h.config_eq] at herror'
    rwa [Except.error.inj (herror.symm.trans herror')]
  · rw [h.config_eq] at hparse
    exact nomatch herror.symm.trans hparse

/-- A source that parses is in the cache behind a compilation, and the other sources are in it as
    before, unless they have been evicted. -/
theorem Sound.find?_behind_compile (h : Sound config engine) {tree : Expr}
    (hparse : Expr.parseWithin config.parseLimit source = .ok tree) :
    (behind (compile source) engine).cache.find? source = some tree ∧
    ∀ other, other ≠ source →
      (engine.Evicts source → (behind (compile source) engine).cache.find? other = none) ∧
      (¬ engine.Evicts source →
        (behind (compile source) engine).cache.find? other = engine.cache.find? other) := by
  rcases compile_cases source engine with ⟨tree', hfind, hhit⟩ | ⟨hfind, ⟨e, herror, -⟩ |
    ⟨tree', hparse', hnew⟩⟩
  · -- what is cached is what the source parses to
    obtain rfl := Except.ok.inj (hparse.symm.trans (h.parseWithin_eq hfind))
    have hbehind : behind (compile source) engine = engine := by rw [behind, hhit]; rfl
    rw [hbehind]
    refine ⟨hfind, fun other _ => ⟨fun hevicts => ?_, fun _ => rfl⟩⟩
    exact nomatch hevicts.1.symm.trans hfind
  · -- a source that parses is not refused
    rw [h.config_eq] at herror
    exact nomatch hparse.symm.trans herror
  · -- a miss: the tree is added, to an empty cache if the old one was full
    rw [h.config_eq] at hparse'
    obtain rfl := Except.ok.inj (hparse.symm.trans hparse')
    have hbehind : behind (compile source) engine = engine.remember source tree := by
      rw [behind, hnew]
      rfl
    rw [hbehind]
    refine ⟨Bindings.find?_insert_self _ _ _, fun other hother => ?_⟩
    simp only [Engine.remember, Bindings.find?_insert_ne _ hother]
    constructor
    · intro hevicts
      have hfull : engine.config.cacheCapacity ≤ engine.cache.size := hevicts.2
      rw [if_pos hfull, Bindings.find?_empty]
    · intro hkeeps
      have hroom : ¬ engine.config.cacheCapacity ≤ engine.cache.size :=
        fun hfull => hkeeps ⟨hfind, hfull⟩
      rw [if_neg hroom]

end Entries

/-- Requests leave the cache consistent, also those that fail.  Behind a request about a source the
    engine is as behind a compilation of the source.  That is the engine as it was if the source
    does not parse.  Otherwise the source is cached, and of the other entries none is left if the
    source was new and the cache was full, and all are left if not. -/
theorem request_keeps_cache (config : EngineConfig) (requests : List Request) (source : String) :
    let engine := (session requests (new config)).2
    let compiled := behind (compile source) engine
    (∀ request : Request, request.source? = some source →
      behind request.perform engine = compiled) ∧
    (∀ e, Expr.parseWithin config.parseLimit source = .error e →
      ∀ request : Request, request.source? = some source →
        outcome (request.perform engine) = (.error (.parse e), engine)) ∧
    ∀ tree, Expr.parseWithin config.parseLimit source = .ok tree →
      compiled.cache.find? source = some tree ∧
      ∀ other, other ≠ source →
        (engine.Evicts source → compiled.cache.find? other = none) ∧
        (¬ engine.Evicts source → compiled.cache.find? other = engine.cache.find? other) := by
  intro engine compiled
  have hnew : Sound config (new config) := sound_of_empty rfl rfl
  have hsound : Sound config engine := (hnew.session requests).2
  refine ⟨fun request hsource => ?_, fun e herror request hsource => ?_,
    fun tree hparse => hsound.find?_behind_compile hparse⟩
  · -- every request on the source does to the engine what its compilation does
    obtain ⟨walk, hperform, hwalk⟩ := exists_perform_eq hsource
    rw [hperform, behind_bind hwalk]
  · -- and it fails with it before the walk
    obtain ⟨walk, hperform, -⟩ := exists_perform_eq hsource
    simp only [hperform, Bind.bind, EStateM.bind, hsound.compile_of_error herror, outcome]

/-- A full cache for one tree: a source that does not parse, a new one that parses but has no value,
    and one that is cached. -/
theorem request_keeps_cache_full :
    let engine := (session [.compile "1"] (new ⟨1, 8, 8⟩)).2
    let evaluated := behind (Request.perform (.evaluate "x" .empty)) engine
    (Expr.parseWithin 8 "1 +" = .error (.unexpectedEnd .expression) ∧
      outcome (Request.perform (.format "1 +") engine) =
        (.error (.parse (.unexpectedEnd .expression)), engine)) ∧
    (Expr.parseWithin 8 "x" = .ok (.var false "x") ∧ engine.Evicts "x" ∧
      evaluated.cache.find? "x" = some (.var false "x") ∧ evaluated.cache.find? "1" = none) ∧
    Expr.parseWithin 8 "1" = .ok (.lit false (.integer 1)) ∧ ¬ engine.Evicts "1" ∧
      (behind (compile "1") engine).cache.find? "x" = engine.cache.find? "x" := by
  intro engine evaluated
  have herror : Expr.parseWithin 8 "1 +" = .error (.unexpectedEnd .expression) := by
    decide +kernel
  have hx : Expr.parseWithin 8 "x" = .ok (.var false "x") := by decide +kernel
  have hone : Expr.parseWithin 8 "1" = .ok (.lit false (.integer 1)) := by decide +kernel
  have hevicts : engine.Evicts "x" := by decide +kernel
  have hkeeps : ¬ engine.Evicts "1" := by decide +kernel
  -- a failure, a miss that empties the cache of one tree, and a hit
  obtain ⟨-, hfailure, -⟩ := request_keeps_cache ⟨1, 8, 8⟩ [.compile "1"] "1 +"
  obtain ⟨hevaluated, -, hnew⟩ := request_keeps_cache ⟨1, 8, 8⟩ [.compile "1"] "x"
  obtain ⟨-, -, hhit⟩ := request_keeps_cache ⟨1, 8, 8⟩ [.compile "1"] "1"
  have hcompiled : evaluated = behind (compile "x") engine := hevaluated (.evaluate "x" .empty) rfl
  rw [hcompiled]
  exact ⟨⟨herror, hfailure _ herror (.format "1 +") rfl⟩,
    ⟨hx, hevicts, (hnew _ hx).1, ((hnew _ hx).2 "1" (by decide)).1 hevicts⟩,
    hone, hkeeps, ((hhit _ hone).2 "x" (by decide)).2 hkeeps⟩

/-! ## Size -/

/-- A cache has one tree behind an addition, or it was not full before. -/
theorem cacheSize_remember_le (source : String) (tree : Expr) (engine : Engine) :
    (engine.remember source tree).cacheSize ≤ max 1 engine.config.cacheCapacity := by
  simp only [cacheSize, remember]
  split
  · have hsize := Bindings.size_insert_le (Bindings.empty : Bindings Expr) source tree
    rw [Bindings.size_empty] at hsize
    omega
  · have hsize := engine.cache.size_insert_le source tree
    omega

/-- Whether an engine has the given settings and a cache within its capacity, or with one tree. -/
structure Bounded (config : EngineConfig) (engine : Engine) : Prop where
  config_eq : engine.config = config
  cacheSize_le : engine.cacheSize ≤ max 1 config.cacheCapacity

theorem bounded_new (config : EngineConfig) : Bounded config (new config) :=
  ⟨rfl, Nat.zero_le _⟩

theorem Bounded.behind_perform {config : EngineConfig} {engine : Engine}
    (h : Bounded config engine) (request : Request) :
    Bounded config (behind request.perform engine) := by
  rcases behind_perform_cases request engine with hbehind | hbehind | ⟨source, tree, -, hbehind⟩
  · rwa [hbehind]
  · rw [hbehind]
    exact ⟨h.config_eq, Nat.zero_le _⟩
  · rw [hbehind]
    have hsize := cacheSize_remember_le source tree engine
    rw [h.config_eq] at hsize
    exact ⟨h.config_eq, hsize⟩

/-- Where no level is allowed nothing parses, so a sound cache is empty. -/
theorem Sound.cacheSize_eq_zero {config : EngineConfig} {engine : Engine} (h : Sound config engine)
    (hlimit : config.parseLimit = 0) : engine.cacheSize = 0 := by
  refine Bindings.size_eq_zero_iff.mpr fun source => ?_
  cases hfind : engine.cache.find? source with
  | none => rfl
  | some tree =>
    have hdepth := (Expr.isCanonical_of_parseWithin (h.parseWithin_eq hfind)).2
    have hpos := tree.depth_pos
    omega

/-- A source that parses leaves the cache with at least one tree. -/
theorem cacheSize_session_compile_pos {config : EngineConfig} {source : String} {tree : Expr}
    (hparse : Expr.parseWithin config.parseLimit source = .ok tree) :
    0 < (session [.compile source] (new config)).2.cacheSize := by
  have hsound : Sound config (new config) := sound_of_empty rfl rfl
  have hsource : (Request.compile source).source? = some source := rfl
  obtain ⟨walk, hperform, hwalk⟩ := exists_perform_eq hsource
  have hfind := (hsound.find?_behind_compile hparse).1
  rw [← behind_bind hwalk, ← hperform] at hfind
  refine Nat.pos_of_ne_zero fun hsize => ?_
  exact nomatch (Bindings.size_eq_zero_iff.mp hsize source).symm.trans hfind

/-- How large a cache gets.  It never has more trees than its capacity, or than one if it has no
    capacity, whatever the engine is asked for; and that one tree is there as soon as a source
    parses.  So the capacity bounds the cache exactly if it is positive, or if nothing parses. -/
theorem cacheSize_le_capacity_iff (config : EngineConfig) :
    (∀ requests, (session requests (new config)).2.cacheSize ≤ max 1 config.cacheCapacity) ∧
    ((∀ requests, (session requests (new config)).2.cacheSize ≤ config.cacheCapacity) ↔
      0 < config.cacheCapacity ∨ config.parseLimit = 0) := by
  have hbounded (requests : List Request) : Bounded config (session requests (new config)).2 :=
    session_induction (fun request _ h => h.behind_perform request) requests (bounded_new config)
  refine ⟨fun requests => (hbounded requests).cacheSize_le, fun hle => ?_, fun h requests => ?_⟩
  · by_cases hlimit : config.parseLimit = 0
    · exact .inr hlimit
    · -- one literal parses, so there is a tree in the cache
      have hone : Expr.parseWithin 1 "1" = .ok (.lit false (.integer 1)) := by decide +kernel
      have hparse := Expr.parseWithin_of_le (Nat.one_le_iff_ne_zero.mpr hlimit) hone
      exact .inl (Nat.lt_of_lt_of_le (cacheSize_session_compile_pos hparse) (hle _))
  · rcases h with hcapacity | hlimit
    · -- with room for a tree, the bound with `max` is the capacity
      have hsize := (hbounded requests).cacheSize_le
      omega
    · -- where nothing parses, nothing is cached
      have hnew : Sound config (new config) := sound_of_empty rfl rfl
      have hsize := (hnew.session requests).2.cacheSize_eq_zero hlimit
      omega

/-- Not every cache keeps to its capacity: one for no trees holds a tree. -/
theorem not_forall_cacheSize_le_capacity :
    ¬ ∀ config requests, (session requests (new config)).2.cacheSize ≤ config.cacheCapacity := by
  intro h
  let config : EngineConfig := ⟨0, 256, 512⟩
  have hparse : Expr.parseWithin config.parseLimit "1" = .ok (.lit false (.integer 1)) := by
    decide +kernel
  have hpos := cacheSize_session_compile_pos hparse
  exact absurd (Nat.lt_of_lt_of_le hpos (h config _)) (Nat.lt_irrefl 0)

end Engine

end Formula
