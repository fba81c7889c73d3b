import Formula.Proofs.Parser.Reuse
import Formula.Proofs.Parser.Trace

/-!
# Every step of the parser uses up tokens

Between two expressions that are begun, or two rounds of the loop, or one of each, the parser uses
up at least one token (`Parser.UsesUp`).  The nesting limit plays no part in that.  So it is not the
limit that makes the parser stop: with `n` tokens to read it makes at most `n + 1` such turns, and
it asks for a token at most `n + 1` times.

A trace is followed with a flag that is set while a token has been used up since the last turn
(`Parser.Trail`).  A turn needs the flag and clears it, a token sets it again, and every part of the
parser that succeeds leaves it set.

## Key results

* `progresses_expression`: what an expression does to the tokens ahead and to the flag
* `Trail.pairwise_turns`, `Trail.countP_turns_le`: what a trail says about its turns
* `stops_of_expression`: what an expression leaves in the lookahead
* `turns_use_up_tokens`: the parser as a whole
-/

namespace Formula

namespace Parser

/-- Whether the tokens ahead of one parser are left of those of another when at least one of them
    has been used up. -/
def UsesUp (p p' : Parser) : Prop :=
  ∃ used rest failure?, used ≠ [] ∧ p.Faces (used ++ rest) failure? ∧ p'.Faces rest failure?

/-- A trace that starts with the lexemes `ts` ahead and ends with `rest`.  The flags say whether a
    token has been used up since the last turn. -/
inductive Trail (failure? : Option ParseError) :
    Bool → List Lexeme → List Event → Bool → List Lexeme → Prop
  | stay {ready ts} : Trail failure? ready ts [] ready ts
  | read {ready p lexeme ts trace ready' rest} (hp : p.Faces (lexeme :: ts) failure?)
      (h : Trail failure? true ts trace ready' rest) :
      Trail failure? ready (lexeme :: ts) (⟨.read, p⟩ :: trace) ready' rest
  | turn {move p ts trace ready' rest} (hmove : move ≠ .read) (hp : p.Faces ts failure?)
      (h : Trail failure? false ts trace ready' rest) :
      Trail failure? true ts (⟨move, p⟩ :: trace) ready' rest

/-! ## Trails -/

namespace Trail

variable {failure? : Option ParseError} {ready ready' ready'' : Bool}
  {ts rest rest' : List Lexeme} {trace trace' : List Event}

theorem append (h : Trail failure? ready ts trace ready' rest)
    (h' : Trail failure? ready' rest trace' ready'' rest') :
    Trail failure? ready ts (trace ++ trace') ready'' rest' := by
  induction h with
  | stay => exact h'
  | read hp _ ih => exact .read hp (ih h')
  | turn hmove hp _ ih => exact .turn hmove hp (ih h')

/-- Every token that is asked for uses one up. -/
theorem countP_reads (h : Trail failure? ready ts trace ready' rest) :
    trace.countP Event.isRead + rest.length = ts.length := by
  induction h with
  | stay => exact Nat.zero_add _
  | read hp _ ih =>
    rw [List.countP_cons_of_pos rfl, List.length_cons, ← ih]
    omega
  | turn hmove hp _ ih =>
    rw [List.countP_cons_of_neg (by simpa [Event.isRead] using hmove), ih]

/-- There are no more turns than tokens that are asked for, and one more only with the flag set. -/
theorem countP_turns_le (h : Trail failure? ready ts trace ready' rest) :
    trace.countP Event.isTurn ≤ trace.countP Event.isRead + ready.toNat := by
  induction h with
  | stay => exact Nat.zero_le _
  | read hp _ ih =>
    -- the token pays for the turn that the flag allows behind it
    rw [List.countP_cons_of_neg (by simp [Event.isTurn]), List.countP_cons_of_pos rfl]
    simp only [Bool.toNat_true] at ih
    omega
  | turn hmove hp _ ih =>
    rw [List.countP_cons_of_pos (by simpa [Event.isTurn] using hmove),
      List.countP_cons_of_neg (by simpa [Event.isRead] using hmove)]
    simpa using ih

/-- What is left is the end of what was ahead, and less where the flag has been set. -/
theorem exists_used (h : Trail failure? ready ts trace ready' rest) :
    ∃ used, ts = used ++ rest ∧ (ready = false → ready' = true → used ≠ []) := by
  induction h with
  | stay =>
    refine ⟨[], rfl, ?_⟩
    rintro rfl ⟨⟩
  | @read _ _ lexeme _ _ _ _ _ _ ih =>
    obtain ⟨used, rfl, -⟩ := ih
    exact ⟨lexeme :: used, rfl, fun _ _ => List.cons_ne_nil _ _⟩
  | turn _ _ _ ih =>
    obtain ⟨used, rfl, -⟩ := ih
    exact ⟨used, rfl, nofun⟩

/-- A turn is made with an end of the lexemes ahead, and with fewer of them where the flag was
    clear. -/
theorem exists_used_of_turn (h : Trail failure? ready ts trace ready' rest) {e : Event}
    (he : e ∈ trace) (hturn : e.isTurn = true) :
    ∃ used after, ts = used ++ after ∧ e.parser.Faces after failure? ∧
      (ready = false → used ≠ []) := by
  -- on the trail; what is used lies between its start and the turn
  induction h with
  | stay => exact absurd he List.not_mem_nil
  | @read _ _ lexeme _ _ _ _ _ _ ih =>
    rcases List.mem_cons.mp he with rfl | he
    · exact absurd hturn (by simp [Event.isTurn])
    · obtain ⟨used, after, rfl, hafter, -⟩ := ih he
      exact ⟨lexeme :: used, after, rfl, hafter, fun _ => List.cons_ne_nil _ _⟩
  | turn _ hp _ ih =>
    rcases List.mem_cons.mp he with rfl | he
    · exact ⟨[], _, rfl, hp, nofun⟩
    · obtain ⟨used, after, rfl, hafter, -⟩ := ih he
      exact ⟨used, after, rfl, hafter, nofun⟩

/-- Between two turns at least one token is used up. -/
theorem pairwise_turns (h : Trail failure? ready ts trace ready' rest) :
    (trace.filter Event.isTurn).Pairwise fun e e' => e.parser.UsesUp e'.parser := by
  induction h with
  | stay => exact List.Pairwise.nil
  | read _ _ ih =>
    rw [List.filter_cons_of_neg (by simp [Event.isTurn])]
    exact ih
  | turn hmove hp h ih =>
    rw [List.filter_cons_of_pos (by simpa [Event.isTurn] using hmove), List.pairwise_cons]
    refine ⟨fun e he => ?_, ih⟩
    -- behind the turn the flag is clear
    obtain ⟨hmem, hturn⟩ := List.mem_filter.mp he
    obtain ⟨used, after, rfl, hafter, hused⟩ := h.exists_used_of_turn hmem hturn
    exact ⟨used, after, _, hused rfl, hp, hafter⟩

end Trail

/-! ## Steps that progress -/

/-- Whether a run is a trail that, if it succeeds, ends with the flag set, at the given depth and
    with the lexemes ahead that it says. -/
def Run.Progresses {α : Type} (run : Run α) (failure? : Option ParseError) (ready : Bool)
    (depth : Nat) (ts : List Lexeme) : Prop :=
  ∃ ready' rest, Trail failure? ready ts run.trace ready' rest ∧
    ∀ a p', run.result = .ok a p' → ready' = true ∧ p'.Faces rest failure? ∧ p'.depth = depth

namespace Traced

variable {α β : Type} {failure? : Option ParseError} {ready : Bool} {depth depth' : Nat}
  {p p' : Parser} {lexeme : Lexeme} {ts : List Lexeme}

/-- Whether the runs of a step progress from wherever they start, and end at the depth where they
    have started. -/
def Progresses (ready : Bool) (step : Traced α) : Prop :=
  ∀ ⦃p ts failure?⦄, p.Faces ts failure? → (step p).Progresses failure? ready p.depth ts

/-- What follows a run starts with the flag set. -/
theorem run_bind {x : Traced α} {f : α → Traced β} (hx : (x p).Progresses failure? ready depth ts)
    (hf : ∀ a p' rest, p'.Faces rest failure? → p'.depth = depth →
      (f a p').Progresses failure? true depth' rest) :
    ((x >>= f) p).Progresses failure? ready depth' ts := by
  obtain ⟨ready', rest, htrail, hok⟩ := hx
  simp only [Bind.bind]
  cases hresult : (x p).result with
  | error e p' => exact ⟨ready', rest, htrail, nofun⟩
  | ok a p' =>
    obtain ⟨rfl, hp', hdepth⟩ := hok a p' hresult
    obtain ⟨ready'', rest', htrail', hok'⟩ := hf a p' rest hp' hdepth
    exact ⟨ready'', rest', htrail.append htrail', hok'⟩

theorem Progresses.bind {x : Traced α} {f : α → Traced β} (hx : Progresses ready x)
    (hf : ∀ a, Progresses true (f a)) : Progresses ready (x >>= f) := by
  intro p ts failure? hp
  refine run_bind (hx hp) fun a p' rest hp' hdepth => ?_
  -- the depth to come back to is the one in between
  rw [← hdepth]
  exact hf a hp'

theorem progresses_pure (a : α) : Progresses true (pure a) := by
  intro p ts failure? hp
  refine ⟨true, ts, .stay, fun _ _ hok => ?_⟩
  cases hok
  exact ⟨rfl, hp, rfl⟩

/-- A silent step that fails has an empty trace. -/
theorem progresses_of_error {step : Parsing α} {e : ParseError} (h : step p = .error e p') :
    (silent step p).Progresses failure? ready depth ts := by
  refine ⟨ready, ts, .stay, fun _ _ hok => ?_⟩
  cases h.symm.trans hok

/-- What follows a silent step goes on from where that has led. -/
theorem silent_bind_of_ok {step : Parsing α} {a : α} (h : step p = .ok a p')
    (f : α → Traced β) : (silent step >>= f) p = f a p' := by
  simp only [Bind.bind, silent, h]
  rfl

theorem silent_get_bind (f : Parser → Traced α) : (silent get >>= f) p = f p p := rfl

theorem silent_modify_bind (g : Parser → Parser) (f : PUnit → Traced α) :
    (silent (modify g) >>= f) p = f ⟨⟩ (g p) := rfl

/-! ## The parts of the parser -/

/-- Asking for a token uses up the lookahead, and the flag is set behind it. -/
theorem progresses_advance (hp : p.Faces (lexeme :: ts) failure?) :
    (advance p).Progresses failure? ready p.depth (lexeme :: ts) := by
  have htrace : (advance p).trace = [⟨.read, p⟩] := by
    simp only [advance, Bind.bind, mark, silent]
    rfl
  refine ⟨true, ts, htrace ▸ .read hp .stay, fun a p' hok => ?_⟩
  have hresult : Parser.advance p = .ok a p' := (congrFun erase_advance p).symm.trans hok
  have hadvance := meets_advance hp
  rw [hresult] at hadvance
  exact ⟨rfl, hadvance.faces, hadvance.depth⟩

/-- What follows the token in the lookahead starts with the flag set. -/
theorem progresses_advance_bind {f : Unit → Traced α} (hp : p.Faces (lexeme :: ts) failure?)
    (hf : ∀ a, Progresses true (f a)) :
    ((advance >>= f) p).Progresses failure? ready p.depth (lexeme :: ts) := by
  refine run_bind (progresses_advance hp) fun a p' rest hp' hdepth => ?_
  rw [← hdepth]
  exact hf a hp'

theorem progresses_expect (token : Token) : Progresses ready (expect token) := by
  intro p ts failure? hp
  rw [expect, silent_get_bind]
  cases ts with
  | nil =>
    rw [hp.1]
    exact progresses_of_error rfl
  | cons lexeme ts =>
    rw [hp.1]
    dsimp only
    split
    · exact progresses_advance hp
    · exact progresses_of_error rfl

theorem progresses_checkHeight (height position : Nat) :
    Progresses true (silent (checkHeight height position)) := by
  intro p ts failure? hp
  by_cases hheight : height ≤ p.limit
  · refine ⟨true, ts, .stay, fun _ _ hok => ?_⟩
    cases (checkHeight_of_le hheight).symm.trans hok
    exact ⟨rfl, hp, rfl⟩
  · have herror : checkHeight height position p = .error (.nestingTooDeep p.limit position) p := by
      rw [checkHeight, EStateM.get_bind, if_pos (Nat.not_le.mp hheight)]
      rfl
    exact progresses_of_error herror

theorem progresses_leaf {tree : Expr} (hp : p.Faces (lexeme :: ts) failure?) :
    (leaf tree p).Progresses failure? ready p.depth (lexeme :: ts) :=
  progresses_advance_bind hp fun _ => progresses_pure _

/-- A turn needs the flag, and what follows it starts without. -/
theorem progresses_turn_bind {move : Move} {f : Unit → Traced α} (hmove : move ≠ .read)
    (hp : p.Faces ts failure?) (hf : (f () p).Progresses failure? false depth ts) :
    ((mark move >>= f) p).Progresses failure? true depth ts := by
  have hrun : (mark move >>= f) p = ⟨(f () p).result, ⟨move, p⟩ :: (f () p).trace⟩ := rfl
  obtain ⟨ready', rest, htrail, hok⟩ := hf
  rw [hrun]
  exact ⟨ready', rest, .turn hmove hp htrail, hok⟩

theorem progresses_tooDeep (position : Nat) :
    Progresses true (silent (tooDeep position) : Traced α) :=
  fun _ _ _ _ => progresses_of_error rfl

/-- The loop stops, or goes on with the token in the lookahead. -/
theorem progresses_operatorAhead_bind {least : Level}
    {f : Option (Operator × Nat) → Traced α} (hp : p.Faces ts failure?)
    (hstop : (f none p).Progresses failure? true depth ts)
    (hgo : ∀ op position lexeme rest, p.Faces (lexeme :: rest) failure? →
      (f (some (op, position)) p).Progresses failure? true depth (lexeme :: rest)) :
    ((silent (operatorAhead least) >>= f) p).Progresses failure? true depth ts := by
  rcases operatorAhead_cases hp.shows least with ⟨-, hahead⟩ | ⟨_, _, op, position, htokens, -, -,
    hahead⟩
  · rw [silent_bind_of_ok hahead]
    exact hstop
  · rw [silent_bind_of_ok hahead]
    cases ts with
    | nil => cases htokens
    | cons lexeme rest => exact hgo _ _ _ _ hp

variable {E : Level → Traced Parsed}

/-- An operand uses up a token before anything else. -/
theorem progresses_operand (hE : ∀ level, Progresses true (E level)) :
    Progresses ready (operand E) := by
  intro p ts failure? hp
  -- at the end there is no operand, and a failure need not progress
  cases ts with
  | nil =>
    obtain ⟨limit, depth, lookahead, cursor⟩ := p
    obtain ⟨rfl, -⟩ : lookahead = none ∧ _ := hp
    exact progresses_of_error rfl
  | cons lexeme ts =>
    obtain ⟨limit, depth, lookahead, cursor⟩ := p
    obtain ⟨rfl, -⟩ : lookahead = some lexeme ∧ _ := id hp
    obtain ⟨token, start, stop⟩ := lexeme
    -- each branch reads its token first, so what it asks for starts further on
    cases token with
    | integer | real | identifier => exact progresses_leaf hp
    | keyword keyword =>
      cases keyword with
      | trueWord | falseWord => exact progresses_leaf hp
      | ifWord =>
        exact progresses_advance_bind hp fun _ => (hE .or).bind fun condition =>
          (progresses_expect _).bind fun _ => (hE .or).bind fun whenTrue =>
            (progresses_expect _).bind fun _ => (hE .or).bind fun whenFalse =>
              (progresses_checkHeight _ _).bind fun _ => progresses_pure _
      | _ => exact progresses_of_error rfl
    | mark mark =>
      cases mark with
      | leftParen =>
        exact progresses_advance_bind hp fun _ => (hE .or).bind fun inner =>
          (progresses_expect _).bind fun _ => progresses_pure _
      | minus =>
        exact progresses_advance_bind hp fun _ => (hE .unary).bind fun signed => progresses_pure _
      | plus => exact progresses_advance_bind hp fun _ => hE .unary
      | _ => exact progresses_of_error rfl

/-- A round of the loop makes its turn, and uses up its operator before the next one. -/
theorem progresses_round {op : Operator} {f : Parsed → Traced Parsed}
    (hE : ∀ level, Progresses true (E level)) (hp : p.Faces (lexeme :: ts) failure?)
    (hf : ∀ right, Progresses true (f right)) :
    ((do
      mark (.round op)
      advance
      let right ← E op.level.ofRightOperand
      f right : Traced Parsed) p).Progresses failure? true p.depth (lexeme :: ts) :=
  progresses_turn_bind (by simp) hp <| progresses_advance_bind hp fun _ => (hE _).bind hf

theorem progresses_climb (hE : ∀ level, Progresses true (E level)) (least : Level) (spare : Nat)
    (left : Parsed) : Progresses true (climb E least spare left) := by
  -- on the rounds that the limit leaves; what it cuts off fails, and a failure need not progress
  induction spare generalizing left with
  | zero =>
    intro p ts failure? hp
    rw [climb]
    refine progresses_operatorAhead_bind hp (progresses_pure left hp) ?_
    intro op position lexeme rest hp
    exact progresses_round hE hp fun right => progresses_tooDeep _
  | succ spare ih =>
    intro p ts failure? hp
    rw [climb]
    refine progresses_operatorAhead_bind hp (progresses_pure left hp) ?_
    intro op position lexeme rest hp
    exact progresses_round hE hp fun right => (progresses_checkHeight _ _).bind fun _ => ih _

/-- An expression makes its turn, and uses up a token before the next one. -/
theorem progresses_expression (room : Nat) (least : Level) :
    Progresses true (expression room least) := by
  -- on the room; an expression is a turn, whether it finds an operand or not
  induction room generalizing least with
  | zero =>
    intro p ts failure? hp
    rw [expression]
    exact progresses_turn_bind (by simp) hp (progresses_of_error rfl)
  | succ room ih =>
    intro p ts failure? hp
    rw [expression]
    refine progresses_turn_bind (by simp) hp ?_
    -- one level deeper, and back at the end
    have hdeeper : (p.withDepth (p.depth + 1)).Faces ts failure? := hp.withDepth _
    rw [silent_modify_bind]
    refine run_bind (progresses_operand ih hdeeper) fun first p₁ rest₁ h₁ hdepth₁ => ?_
    rw [silent_get_bind]
    refine run_bind (progresses_climb ih _ _ _ h₁) fun whole p₂ rest₂ h₂ hdepth₂ => ?_
    refine ⟨true, rest₂, .stay, fun _ _ hok => ?_⟩
    cases hok
    refine ⟨rfl, h₂.withDepth _, ?_⟩
    show p₂.depth - 1 = p.depth
    rw [hdepth₂, hdepth₁]
    rfl

/-- A step that first asks for a token, whatever is in the lookahead, has the lexemes behind the
    cursor ahead. -/
theorem exists_trail_advance_bind {f : Unit → Traced α} (hp : p.cursor.YieldsUpTo ts failure?)
    (hf : ∀ a, Progresses true (f a)) :
    ∃ trace ready' rest, ((advance >>= f) p).trace = ⟨.read, p⟩ :: trace ∧
      Trail failure? true ts trace ready' rest := by
  have hadvance := meets_advance_of_yieldsUpTo hp
  simp only [advance, Bind.bind, mark, silent]
  cases hfirst : Parser.advance p with
  -- the source starts with what is no token
  | error e p₁ => exact ⟨[], true, ts, rfl, .stay⟩
  | ok a p₁ =>
    rw [hfirst] at hadvance
    obtain ⟨ready', rest, htrail, -⟩ := hf a hadvance.1
    exact ⟨_, ready', rest, rfl, htrail⟩

/-- A parse asks for its first token, and its expression uses up the others. -/
theorem exists_trail_parse (hp : p.cursor.YieldsUpTo ts failure?) :
    ∃ trace ready' rest, (parse p).trace = ⟨.read, p⟩ :: trace ∧
      Trail failure? true ts trace ready' rest := by
  rw [parse]
  refine exists_trail_advance_bind hp fun _ p₁ ts₁ failure? h₁ => ?_
  rw [silent_get_bind]
  refine ((progresses_expression _ .or).bind fun whole => ?_) h₁
  intro p₂ ts₂ failure? h₂
  rw [silent_get_bind]
  -- behind the expression nothing is read any more
  cases ts₂ with
  | nil =>
    rw [h₂.1]
    exact progresses_pure _ h₂
  | cons lexeme rest =>
    rw [h₂.1]
    exact progresses_of_error rfl

end Traced

/-! ## What is left in the lookahead -/

section Stops

variable {E : Level → Parsing Parsed} {least : Level} {p p' : Parser} {parsed : Parsed}

theorem stops_of_climb {spare : Nat} {left : Parsed}
    (h : climb E least spare left p = .ok parsed p') :
    Stops least (p'.lookahead.toList.map Lexeme.token) := by
  -- on the levels left: the loop answers only when no operator of its own stands ahead
  induction spare generalizing p left with
  | zero =>
    rw [climb] at h
    rcases operatorAhead_cases p.shows_lookahead least with ⟨hstops, hahead⟩ |
      ⟨_, _, op, position, -, -, -, hahead⟩
    · rw [EStateM.bind_of_ok hahead] at h
      cases h
      exact hstops
    · -- a round without any level to spare fails at its end
      rw [EStateM.bind_of_ok hahead] at h
      obtain ⟨_, p₁, -, h⟩ := EStateM.bind_eq_ok_iff.mp h
      obtain ⟨_, p₂, -, h⟩ := EStateM.bind_eq_ok_iff.mp h
      cases h
  | succ spare ih =>
    rw [climb] at h
    rcases operatorAhead_cases p.shows_lookahead least with ⟨hstops, hahead⟩ |
      ⟨_, _, op, position, -, -, -, hahead⟩
    · rw [EStateM.bind_of_ok hahead] at h
      cases h
      exact hstops
    · rw [EStateM.bind_of_ok hahead] at h
      -- a token, the right operand and the height, and then the loop again
      obtain ⟨_, p₁, -, h⟩ := EStateM.bind_eq_ok_iff.mp h
      obtain ⟨_, p₂, -, h⟩ := EStateM.bind_eq_ok_iff.mp h
      obtain ⟨_, p₃, -, h⟩ := EStateM.bind_eq_ok_iff.mp h
      exact ih h

/-- Behind an expression there is no operator that it could have joined. -/
theorem stops_of_expression {room : Nat} (h : expression room least p = .ok parsed p') :
    Stops least (p'.lookahead.toList.map Lexeme.token) := by
  cases room with
  | zero =>
    rw [expression, EStateM.modify_bind] at h
    cases h
  | succ room =>
    rw [expression_succ] at h
    obtain ⟨first, p₁, -, h⟩ := EStateM.bind_eq_ok_iff.mp h
    rw [EStateM.get_bind] at h
    obtain ⟨whole, p₂, hclimb, h⟩ := EStateM.bind_eq_ok_iff.mp h
    cases h
    -- giving the depth back leaves the lookahead alone
    have hstops := stops_of_climb hclimb
    exact hstops

end Stops

/-! ## The parser as a whole -/

theorem exists_trace_expression (room : Nat) (least : Level) (p : Parser) :
    ∃ trace, (Traced.expression room least p).trace = ⟨.call least, p⟩ :: trace := by
  cases room with
  | zero => exact ⟨_, rfl⟩
  | succ room => exact ⟨_, rfl⟩

/-- An expression that succeeds uses up a token and gives its depth back. -/
theorem usesUp_of_expression {room : Nat} {least : Level} {p p' : Parser} {parsed : Parsed}
    (h : expression room least p = .ok parsed p') : p.UsesUp p' ∧ p'.depth = p.depth := by
  obtain ⟨ts, failure?, hp⟩ := p.exists_faces
  have hresult : (Traced.expression room least p).result = .ok parsed p' :=
    (congrFun (Traced.erase_expression room least) p).trans h
  obtain ⟨ready', rest, htrail, hok⟩ := Traced.progresses_expression room least hp
  obtain ⟨rfl, hrest, hdepth⟩ := hok parsed p' hresult
  obtain ⟨trace, htrace⟩ := exists_trace_expression room least p
  rw [htrace] at htrail
  cases htrail with
  | turn _ _ htrail =>
    -- the flag is clear behind the turn and set at the end
    obtain ⟨used, rfl, hused⟩ := htrail.exists_used
    exact ⟨⟨used, rest, failure?, hused rfl rfl, hp, hrest⟩, hdepth⟩

/-- The parser uses up tokens with every step.  An expression that succeeds has used up at least one
    token, gives its depth back and leaves no operator in the lookahead that it could have joined.
    Between any two expressions or rounds of the loop that are begun during an expression, at least
    one token is used up.  So whatever the limit is, a parse asks for a token at most once for every
    token of the source and once more, and begins at most so many expressions and rounds. -/
theorem turns_use_up_tokens :
    (∀ room least p parsed p', expression room least p = .ok parsed p' →
      p.UsesUp p' ∧ p'.depth = p.depth ∧
      ∀ lexeme op, p'.lookahead = some lexeme → lexeme.token.operator? = some op →
        op.level.rank < least.rank) ∧
    (∀ room least p,
      let run := Traced.expression room least p
      run.result = expression room least p ∧
      (∃ trace, run.trace = ⟨.call least, p⟩ :: trace) ∧
      (run.trace.filter Event.isTurn).Pairwise fun e e' => e.parser.UsesUp e'.parser) ∧
    ∀ limit source, ∃ lexemes failure?,
      (Cursor.ofSource source).YieldsUpTo lexemes failure? ∧
      let run := Traced.parse (start limit (Cursor.ofSource source))
      run.result = parse (start limit (Cursor.ofSource source)) ∧
      (run.trace.filter Event.isTurn).Pairwise (fun e e' => e.parser.UsesUp e'.parser) ∧
      run.trace.countP Event.isRead ≤ lexemes.length + 1 ∧
      run.trace.countP Event.isTurn ≤ lexemes.length + 1 := by
  refine ⟨?_, ?_, ?_⟩
  · -- what an expression uses, and what stands behind it
    intro room least p parsed p' h
    obtain ⟨hused, hdepth⟩ := usesUp_of_expression h
    refine ⟨hused, hdepth, fun lexeme op hlookahead hop => ?_⟩
    have hstops := stops_of_expression h
    rw [hlookahead] at hstops
    exact hstops op hop
  · -- the turns of one expression, from any state
    intro room least p run
    obtain ⟨ts, failure?, hp⟩ := p.exists_faces
    obtain ⟨_, _, htrail, -⟩ := Traced.progresses_expression room least hp
    exact ⟨congrFun (Traced.erase_expression room least) p, exists_trace_expression room least p,
      htrail.pairwise_turns⟩
  · -- a whole parse
    intro limit source
    obtain ⟨lexemes, failure?, hyields⟩ := (Cursor.ofSource source).exists_yieldsUpTo
    refine ⟨lexemes, failure?, hyields, ?_⟩
    intro run
    have hp : (start limit (Cursor.ofSource source)).cursor.YieldsUpTo lexemes failure? := hyields
    -- the first token is asked for with nothing in the lookahead: it is the one read more
    obtain ⟨trace, ready', rest, htrace, htrail⟩ := Traced.exists_trail_parse hp
    have hreads := htrail.countP_reads
    have hturns := htrail.countP_turns_le
    refine ⟨congrFun Traced.erase_parse _, ?_, ?_, ?_⟩
    · rw [htrace, List.filter_cons_of_neg (by simp [Event.isTurn])]
      exact htrail.pairwise_turns
    · rw [htrace, List.countP_cons_of_pos rfl]
      omega
    · rw [htrace, List.countP_cons_of_neg (by simp [Event.isTurn])]
      simp only [Bool.toNat_true] at hturns
      omega

/-- A signed power inside another expression, up to a word that is too weak for its level. -/
theorem turns_use_up_tokens_power :
    let p : Parser := ⟨4, 1, some ⟨.mark .minus, 0, 1⟩, ⟨1, "(a) ^ 2 and b".toList⟩⟩
    ∃ parsed p', expression 3 .multiplicative p = .ok parsed p' ∧
      p'.lookahead = some ⟨.keyword .andWord, 9, 12⟩ ∧
      p.UsesUp p' ∧ p'.depth = p.depth ∧
      ∀ lexeme op, p'.lookahead = some lexeme → lexeme.token.operator? = some op →
        op.level.rank < Level.multiplicative.rank := by
  intro p
  have hsucceeds : (outcome (expression 3 .multiplicative p)).1.isOk = true := by decide +kernel
  have hlookahead : (outcome (expression 3 .multiplicative p)).2.lookahead =
      some ⟨.keyword .andWord, 9, 12⟩ := by decide +kernel
  cases hexpression : expression 3 .multiplicative p with
  | error e p' =>
    rw [hexpression] at hsucceeds
    cases hsucceeds
  | ok parsed p' =>
    rw [hexpression] at hlookahead
    exact ⟨parsed, p', rfl, hlookahead,
      turns_use_up_tokens.1 3 .multiplicative p parsed p' hexpression⟩

end Parser

end Formula
