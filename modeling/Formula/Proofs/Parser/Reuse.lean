import Formula.Proofs.Parser.Correctness
import Formula.Proofs.Parser.Limit

/-!
# Parsers that are used again

A parser can be asked for one expression after the other, also after a failure, and goes on where it
stopped.  What it takes along is its depth.  A step does not look at the depth, a success gives it
back, and a failure leaves the expressions open that it was inside of (`Parser.LeavesOpen`).

So a parser is like a fresh one as long as no parse has broken off inside an expression.  From then
on it has less room for nesting, and differs from a fresh one in nothing but the complaint that
nesting gets too deep.

## Key results

* `leavesOpen_expression`: an expression that fails is left open
* `parse_eq_parseInRoom`: what an open expression takes away from later ones
* `parseNext_afterParses`: a parser that is used again against a fresh one
-/

namespace Formula

namespace Parser

variable {α β : Type}

/-! ## Open expressions -/

/-- How a step treats the depth.  It ends in the same way whatever the depth is, at the same depth
    if it succeeds, and deeper by the expressions that it leaves open, at least `least`, if it
    fails. -/
def LeavesOpen (least : Nat) (step : Parsing α) : Prop :=
  ∀ p : Parser, ∃ p' : Parser, p'.limit = p.limit ∧
    ((∃ a, ∀ depth, step (p.withDepth depth) = .ok a (p'.withDepth depth)) ∨
      ∃ e, ∃ opened ≥ least, ∀ depth,
        step (p.withDepth depth) = .error e (p'.withDepth (depth + opened)))

section LeavesOpen

theorem LeavesOpen.of_le {least least' : Nat} {step : Parsing α} (h : LeavesOpen least' step)
    (hle : least ≤ least') : LeavesOpen least step := by
  intro p
  obtain ⟨p', hlimit, hok | ⟨e, opened, hopened, herror⟩⟩ := h p
  · exact ⟨p', hlimit, .inl hok⟩
  · exact ⟨p', hlimit, .inr ⟨e, opened, Nat.le_trans hle hopened, herror⟩⟩

theorem leavesOpen_pure (a : α) : LeavesOpen 0 (pure a) :=
  fun p => ⟨p, rfl, .inl ⟨a, fun _ => rfl⟩⟩

theorem leavesOpen_throw (e : ParseError) : LeavesOpen 0 (throw e : Parsing α) :=
  fun p => ⟨p, rfl, .inr ⟨e, 0, Nat.le_refl _, fun _ => rfl⟩⟩

/-- What fails first leaves its expressions open. -/
theorem LeavesOpen.bind {least : Nat} {step : Parsing α} {f : α → Parsing β}
    (h : LeavesOpen least step) (hf : ∀ a, LeavesOpen least (f a)) :
    LeavesOpen least (step >>= f) := by
  intro p
  obtain ⟨p', hlimit, ⟨a, hok⟩ | ⟨e, opened, hopened, herror⟩⟩ := h p
  · obtain ⟨p'', hlimit', hrest⟩ := hf a p'
    refine ⟨p'', hlimit'.trans hlimit, ?_⟩
    simp only [Bind.bind, EStateM.bind, hok]
    exact hrest
  · refine ⟨p', hlimit, .inr ⟨e, opened, hopened, fun depth => ?_⟩⟩
    simp only [Bind.bind, EStateM.bind, herror]

/-- What follows a look at the parser must not depend on the depth. -/
theorem leavesOpen_get {least : Nat} {f : Parser → Parsing α}
    (hdepth : ∀ p depth, f (p.withDepth depth) = f p) (h : ∀ p, LeavesOpen least (f p)) :
    LeavesOpen least (get >>= f) := by
  intro p
  obtain ⟨p', hlimit, hend⟩ := h p p
  refine ⟨p', hlimit, ?_⟩
  simp only [EStateM.get_bind, hdepth]
  exact hend

theorem leavesOpen_tooDeep (position : Nat) : LeavesOpen 0 (tooDeep position : Parsing α) :=
  leavesOpen_get (fun _ _ => rfl) fun _ => leavesOpen_throw _

theorem leavesOpen_advance : LeavesOpen 0 advance := by
  intro p
  have hcursor (depth : Nat) : (p.withDepth depth).cursor = p.cursor := rfl
  simp only [advance, hcursor]
  cases Cursor.next p.cursor with
  | ok lexeme? cursor =>
    exact ⟨{ p with lookahead := lexeme?, cursor := cursor }, rfl, .inl ⟨(), fun _ => rfl⟩⟩
  | error e cursor =>
    exact ⟨{ p with cursor := cursor }, rfl, .inr ⟨e, 0, Nat.le_refl _, fun _ => rfl⟩⟩

theorem leavesOpen_expect (token : Token) : LeavesOpen 0 (expect token) := by
  refine leavesOpen_get (fun _ _ => rfl) fun p => ?_
  cases p.lookahead with
  | none => exact leavesOpen_throw _
  | some lexeme =>
    show LeavesOpen 0 (if lexeme.token = token then advance else unexpected lexeme)
    split
    · exact leavesOpen_advance
    · exact leavesOpen_throw _

theorem leavesOpen_checkHeight (height position : Nat) :
    LeavesOpen 0 (checkHeight height position) := by
  refine leavesOpen_get (fun _ _ => rfl) fun p => ?_
  split
  · exact leavesOpen_tooDeep _
  · exact leavesOpen_pure _

theorem leavesOpen_operatorAhead (least : Level) : LeavesOpen 0 (operatorAhead least) := by
  refine leavesOpen_get (fun _ _ => rfl) fun p => ?_
  cases p.lookahead with
  | none => exact leavesOpen_pure _
  | some lexeme =>
    dsimp only
    cases lexeme.token.operator? with
    | none => exact leavesOpen_pure _
    | some op =>
      dsimp only
      split <;> exact leavesOpen_pure _

theorem leavesOpen_leaf (tree : Expr) : LeavesOpen 0 (leaf tree) :=
  leavesOpen_advance.bind fun _ => leavesOpen_pure _

/-! ### The parser -/

variable {E : Level → Parsing Parsed}

/-- An operand leaves open what the expressions inside it do. -/
theorem leavesOpen_operand (hE : ∀ level, LeavesOpen 0 (E level)) : LeavesOpen 0 (operand E) := by
  -- the token selects the branch whatever the depth is
  refine leavesOpen_get (fun _ _ => rfl) fun ⟨limit, depth, lookahead, cursor⟩ => ?_
  cases lookahead with
  | none => exact leavesOpen_throw _
  | some lexeme =>
    obtain ⟨token, start, stop⟩ := lexeme
    cases token with
    | integer | real | identifier => exact leavesOpen_leaf _
    | keyword keyword =>
      cases keyword with
      | trueWord | falseWord => exact leavesOpen_leaf _
      | ifWord =>
        exact leavesOpen_advance.bind fun _ => (hE .or).bind fun condition =>
          (leavesOpen_expect _).bind fun _ => (hE .or).bind fun whenTrue =>
            (leavesOpen_expect _).bind fun _ => (hE .or).bind fun whenFalse =>
              (leavesOpen_checkHeight _ _).bind fun _ => leavesOpen_pure _
      | _ => exact leavesOpen_throw _
    | mark mark =>
      cases mark with
      | leftParen =>
        exact leavesOpen_advance.bind fun _ => (hE .or).bind fun inner =>
          (leavesOpen_expect _).bind fun _ => leavesOpen_pure _
      | minus =>
        exact leavesOpen_advance.bind fun _ => (hE .unary).bind fun signed => leavesOpen_pure _
      | plus => exact leavesOpen_advance.bind fun _ => hE .unary
      | _ => exact leavesOpen_throw _

theorem leavesOpen_climb (hE : ∀ level, LeavesOpen 0 (E level)) (least : Level) (spare : Nat)
    (left : Parsed) : LeavesOpen 0 (climb E least spare left) := by
  -- on the levels left; the loop itself enters none
  induction spare generalizing left with
  | zero =>
    rw [climb]
    refine (leavesOpen_operatorAhead least).bind fun ahead? => ?_
    cases ahead? with
    | none => exact leavesOpen_pure _
    | some ahead =>
      exact leavesOpen_advance.bind fun _ => (hE _).bind fun right => leavesOpen_tooDeep _
  | succ spare ih =>
    rw [climb]
    refine (leavesOpen_operatorAhead least).bind fun ahead? => ?_
    cases ahead? with
    | none => exact leavesOpen_pure _
    | some ahead =>
      exact leavesOpen_advance.bind fun _ => (hE _).bind fun right =>
        (leavesOpen_checkHeight _ _).bind fun _ => ih _

/-- An expression that fails is left open. -/
theorem leavesOpen_expression (room : Nat) (least : Level) :
    LeavesOpen 1 (expression room least) := by
  -- on the room; without any, the level that was entered stays open
  induction room generalizing least with
  | zero =>
    intro p
    refine ⟨p, rfl, .inr ⟨.nestingTooDeep p.limit p.cursor.position, 1, Nat.le_refl _, ?_⟩⟩
    intro depth
    rw [expression, EStateM.modify_bind]
    rfl
  | succ room ih =>
    have hE (level : Level) : LeavesOpen 0 (expression room level) := (ih level).of_le (by decide)
    have hinside : LeavesOpen 0 (do
        let first ← operand (expression room)
        climb (expression room) least ((← get).limit - first.height) first) :=
      (leavesOpen_operand hE).bind fun first =>
        leavesOpen_get (fun _ _ => rfl) fun _ => leavesOpen_climb hE least _ _
    intro p
    obtain ⟨p', hlimit, hend⟩ := hinside p
    refine ⟨p', hlimit, ?_⟩
    -- one level deeper, and back only if nothing has failed there
    have hexpression (depth : Nat) : expression (room + 1) least (p.withDepth depth) =
        ((do
          let first ← operand (expression room)
          climb (expression room) least ((← get).limit - first.height) first) >>= fun whole => do
          modify fun p => p.withDepth (p.depth - 1)
          return whole : Parsing Parsed) (p.withDepth (depth + 1)) := by
      rw [expression_succ]
      simp only [bind_assoc]
      rfl
    rcases hend with ⟨whole, hok⟩ | ⟨e, opened, -, herror⟩
    · -- an answer gives the level back
      refine .inl ⟨whole, fun depth => ?_⟩
      rw [hexpression, EStateM.bind_of_ok (hok _)]
      rfl
    · -- an error leaves it open, with those that were open already
      refine .inr ⟨e, opened + 1, Nat.le_add_left 1 opened, fun depth => ?_⟩
      have hdeeper := herror (depth + 1)
      rw [Nat.add_right_comm, Nat.add_assoc] at hdeeper
      rw [hexpression]
      exact EStateM.bind_eq_error_iff.mpr (.inl hdeeper)

end LeavesOpen

/-! ## Parsing again -/

/-- An answer and the parser behind it, which is there after a failure too. -/
def outcome : EStateM.Result ParseError Parser α → Except ParseError α × Parser
  | .ok a p => (.ok a, p)
  | .error e p => (.error e, p)

/-- What a parser answers next, and the parser behind the answer. -/
def parseNext (p : Parser) : Except ParseError Expr × Parser :=
  outcome (parse p)

/-- The parser of a source behind a number of parses. -/
def afterParses (limit : Nat) (source : String) : (calls : Nat) → Parser
  | 0 => start limit (Cursor.ofSource source)
  | calls + 1 => (afterParses limit source calls).parseNext.2

/-- Whether the next parse fails inside its expression, and neither before it nor behind it. -/
def breaksOff (p : Parser) : Bool :=
  match advance p with
  | .error _ _ => false
  | .ok _ p₁ =>
    match expression (p₁.limit - p₁.depth) .or p₁ with
    | .error _ _ => true
    | .ok _ _ => false

theorem advance_cases (p : Parser) :
    (∃ p₁, advance p = .ok () p₁ ∧ p₁.limit = p.limit ∧ p₁.depth = p.depth) ∨
    ∃ e p₁, advance p = .error e p₁ ∧ p₁.limit = p.limit ∧ p₁.depth = p.depth := by
  simp only [advance]
  cases Cursor.next p.cursor with
  | ok lexeme? cursor => exact .inl ⟨_, rfl, rfl, rfl⟩
  | error e cursor => exact .inr ⟨e, _, rfl, rfl, rfl⟩

namespace LeavesOpen

variable {least : Nat} {step : Parsing α}

/-- A success gives the depth back, and a failure keeps what it leaves open. -/
theorem cases (h : LeavesOpen least step) (p : Parser) :
    (∃ a p', step p = .ok a p' ∧ p'.limit = p.limit ∧ p'.depth = p.depth) ∨
    ∃ e p', step p = .error e p' ∧ p'.limit = p.limit ∧ p.depth + least ≤ p'.depth := by
  obtain ⟨p', hlimit, ⟨a, hok⟩ | ⟨e, opened, hopened, herror⟩⟩ := h p
  · exact .inl ⟨a, _, hok p.depth, hlimit, rfl⟩
  · exact .inr ⟨e, _, herror p.depth, hlimit, Nat.add_le_add_left hopened _⟩

/-- The answer does not depend on the depth. -/
theorem answer_withDepth (h : LeavesOpen least step) (p : Parser) (depth : Nat) :
    (outcome (step (p.withDepth depth))).1 = (outcome (step p)).1 := by
  obtain ⟨p', -, ⟨a, hok⟩ | ⟨e, opened, -, herror⟩⟩ := h p
  · have hok' : step p = .ok a (p'.withDepth p.depth) := hok p.depth
    rw [hok, hok', outcome, outcome]
  · have herror' : step p = .error e (p'.withDepth (p.depth + opened)) := herror p.depth
    rw [herror, herror', outcome, outcome]

end LeavesOpen

/-! ### Less room -/

/-- Reads the rest of the source as one expression in which `room` expressions may be nested. -/
def parseInRoom (room : Nat) : Parsing Expr := do
  advance
  expressionToEnd room

/-- Open expressions take their room away from the later ones. -/
theorem parse_eq_parseInRoom (p : Parser) : parse p = parseInRoom (p.limit - p.depth) p := by
  rw [parseInRoom]
  obtain ⟨p₁, hadvance, hlimit, hdepth⟩ | ⟨e, p₁, hadvance, -, -⟩ := p.advance_cases
  · rw [parse_eq hadvance, EStateM.bind_of_ok hadvance, hlimit, hdepth]
    rfl
  · rw [parse, EStateM.bind_eq_error_iff.mpr (.inl hadvance),
      EStateM.bind_eq_error_iff.mpr (.inl hadvance)]

theorem leavesOpen_expressionToEnd (room : Nat) : LeavesOpen 0 (expressionToEnd room) := by
  refine ((leavesOpen_expression room .or).of_le (Nat.zero_le 1)).bind fun whole => ?_
  refine leavesOpen_get (fun _ _ => rfl) fun p => ?_
  cases p.lookahead with
  | none => exact leavesOpen_pure _
  | some lexeme => exact leavesOpen_throw _

/-- Of the parser before, only the limit and the place in the source matter for the answer. -/
theorem answer_parseInRoom (room : Nat) (p : Parser) :
    (outcome (parseInRoom room p)).1 = (outcome (parseInRoom room (start p.limit p.cursor))).1 := by
  have hcursor : (start p.limit p.cursor).cursor = p.cursor := rfl
  simp only [parseInRoom, Bind.bind, EStateM.bind, advance, hcursor]
  cases Cursor.next p.cursor with
  | error e cursor => rfl
  | ok lexeme? cursor =>
    exact (leavesOpen_expressionToEnd room).answer_withDepth ⟨p.limit, 0, lexeme?, cursor⟩ p.depth

theorem goesOn_parseInRoom {higher room room' : Nat} (hroom : room ≤ room') :
    GoesOn higher (parseInRoom room) (parseInRoom room') :=
  goesOn_advance.bind fun _ => goesOn_expressionToEnd hroom

/-- Without open expressions a parser answers like a fresh one. -/
theorem answer_of_depth_eq_zero {p : Parser} (h : p.depth = 0) :
    p.parseNext.1 = (start p.limit p.cursor).parseNext.1 := by
  rw [parseNext, parseNext, parse_eq_parseInRoom, parse_eq_parseInRoom, h]
  exact answer_parseInRoom _ p

/-- Open expressions change an answer into the complaint about nesting only. -/
theorem answer_eq_or_isTooDeep (p : Parser) :
    p.parseNext.1 = (start p.limit p.cursor).parseNext.1 ∨
      ∃ n position, p.parseNext.1 = .error (.nestingTooDeep n position) := by
  rw [parseNext, parseNext, parse_eq_parseInRoom, parse_eq_parseInRoom, answer_parseInRoom]
  -- the open levels take room from the parse, and more room changes no answer but that error
  have hpersists := goesOn_parseInRoom (Nat.sub_le p.limit p.depth) (start p.limit p.cursor)
    (Nat.le_refl p.limit)
  have hfresh : (start p.limit p.cursor).withLimit p.limit = start p.limit p.cursor := rfl
  rw [hfresh] at hpersists
  have hroom : (start p.limit p.cursor).limit - (start p.limit p.cursor).depth = p.limit := rfl
  rw [hroom]
  cases hless : parseInRoom (p.limit - p.depth) (start p.limit p.cursor) with
  | ok tree p' =>
    rw [hless] at hpersists
    rw [hpersists.2]
    exact .inl rfl
  | error e p' =>
    rw [hless] at hpersists
    obtain ⟨n, position, rfl⟩ | hmore := hpersists
    · exact .inr ⟨n, position, rfl⟩
    · rw [hmore]
      exact .inl rfl

/-! ### The depth behind a parse -/

/-- A parse leaves expressions open exactly if it breaks off. -/
theorem depth_behind (p : Parser) :
    p.parseNext.2.limit = p.limit ∧
    if p.breaksOff then p.depth < p.parseNext.2.depth else p.parseNext.2.depth = p.depth := by
  rw [parseNext, breaksOff]
  -- a first token that is refused stops the parse before it enters a level
  obtain ⟨p₁, hadvance, hlimit, hdepth⟩ | ⟨e, p₁, hadvance, hlimit, hdepth⟩ := p.advance_cases
  · rw [parse_eq hadvance, hadvance]
    -- an expression, whatever stands behind it, or a failure inside it
    obtain ⟨whole, p₂, hwhole, hlimit₂, hdepth₂⟩ | ⟨e, p₂, hwhole, hlimit₂, hdepth₂⟩ :=
      (leavesOpen_expression (p₁.limit - p₁.depth) .or).cases p₁
    · rw [EStateM.bind_of_ok hwhole, EStateM.get_bind]
      simp only [hwhole]
      cases p₂.lookahead with
      | none => exact ⟨hlimit₂.trans hlimit, hdepth₂.trans hdepth⟩
      | some lexeme => exact ⟨hlimit₂.trans hlimit, hdepth₂.trans hdepth⟩
    · rw [EStateM.bind_eq_error_iff.mpr (.inl hwhole)]
      simp only [hwhole]
      exact ⟨hlimit₂.trans hlimit, hdepth ▸ hdepth₂⟩
  · rw [parse, EStateM.bind_eq_error_iff.mpr (.inl hadvance), hadvance]
    exact ⟨hlimit, hdepth⟩

theorem depth_behind_eq_zero_iff (p : Parser) :
    p.parseNext.2.depth = 0 ↔ p.depth = 0 ∧ p.breaksOff = false := by
  have hdepth := p.depth_behind.2
  cases hbreaks : p.breaksOff with
  | false =>
    rw [hbreaks] at hdepth
    have hdepth' : p.parseNext.2.depth = p.depth := hdepth
    simp [hdepth']
  | true =>
    rw [hbreaks] at hdepth
    have hdepth' : p.depth < p.parseNext.2.depth := hdepth
    simp only [reduceCtorEq, and_false, iff_false]
    omega

section Parses

variable (limit : Nat) (source : String) (calls : Nat)

theorem limit_afterParses : (afterParses limit source calls).limit = limit := by
  induction calls with
  | zero => rfl
  | succ calls ih => exact (depth_behind _).1.trans ih

/-- No expression is open exactly if none of the parses before has broken off. -/
theorem depth_afterParses_eq_zero_iff :
    (afterParses limit source calls).depth = 0 ↔
      ∀ earlier < calls, (afterParses limit source earlier).breaksOff = false := by
  induction calls with
  | zero => exact ⟨fun _ _ hlt => absurd hlt (Nat.not_lt_zero _), fun _ => rfl⟩
  | succ calls ih =>
    rw [afterParses, depth_behind_eq_zero_iff, ih, Nat.forall_lt_succ_right]

/-- A parser that is used again answers like a fresh one at the place where it stopped as long as no
    parse before has broken off inside its expression.  Exactly then nothing is left open, and what
    is left open can do nothing to an answer but make it the complaint about nesting. -/
theorem parseNext_afterParses :
    ((afterParses limit source calls).depth = 0 ↔
      ∀ earlier < calls, (afterParses limit source earlier).breaksOff = false) ∧
    ((afterParses limit source calls).depth = 0 →
      (afterParses limit source calls).parseNext.1 =
        (start limit (afterParses limit source calls).cursor).parseNext.1) ∧
    ((afterParses limit source calls).parseNext.1 =
        (start limit (afterParses limit source calls).cursor).parseNext.1 ∨
      ∃ n position,
        (afterParses limit source calls).parseNext.1 = .error (.nestingTooDeep n position)) := by
  have hlimit := limit_afterParses limit source calls
  refine ⟨depth_afterParses_eq_zero_iff limit source calls, fun hdepth => ?_, ?_⟩
  · -- at depth zero the parser is as good as fresh
    rw [answer_of_depth_eq_zero hdepth, hlimit]
  · have hanswer := (afterParses limit source calls).answer_eq_or_isTooDeep
    rwa [hlimit] at hanswer

end Parses

/-- Behind the first literal there is a second one, which makes the first parse fail, and the parser
    goes on with the sign behind it. -/
theorem parseNext_afterParses_literals :
    (∀ earlier < 1, (afterParses 2 "1 2 + 3" earlier).breaksOff = false) ∧
      (afterParses 2 "1 2 + 3" 1).depth = 0 ∧
      (afterParses 2 "1 2 + 3" 1).parseNext.1 =
        (start 2 (afterParses 2 "1 2 + 3" 1).cursor).parseNext.1 := by
  have hbreaks : ∀ earlier < 1, (afterParses 2 "1 2 + 3" earlier).breaksOff = false := by
    decide +kernel
  obtain ⟨hdepth_iff, hanswer, -⟩ := parseNext_afterParses 2 "1 2 + 3" 1
  have hdepth := hdepth_iff.mpr hbreaks
  exact ⟨hbreaks, hdepth, hanswer hdepth⟩

/-- A parenthesis that opens nothing breaks the first parse off, and the room that it keeps is what
    the literal behind it would have needed. -/
theorem not_forall_parseNext_eq_start :
    ¬ ∀ (limit : Nat) (source : String) (calls : Nat),
      (afterParses limit source calls).parseNext.1 =
          (start limit (afterParses limit source calls).cursor).parseNext.1 ∧
        (afterParses limit source calls).depth = 0 := by
  intro h
  have hanswer := (h 1 ") 1" 1).1
  revert hanswer
  decide +kernel

end Parser

end Formula
