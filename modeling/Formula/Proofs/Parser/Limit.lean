import Mathlib.Control.Monad.Basic
import Formula.Proofs.Parser.Outcome

/-!
# What the nesting limit does to the parser

The nesting limit only cuts off.  Two parsers that differ in nothing but the limit go in step, token
by token, up to the point where nesting gets too deep for the lower limit (`Parser.GoesOn`).  So
whatever a parse gives under a limit, other than the complaint about nesting, it gives under every
higher one.

And no source needs more levels than it has characters.  An expression is only entered behind a
token that has been used up, and every level of a tree takes a token of its own, so what is left to
read bounds both the room that reading it takes and the height of its tree (`Parser.Affords`).

## Key results

* `goesOn_expression`, `goesOn_parse`: parsers under two limits go in step
* `affords_expression`: with more room than there is left to read, nesting never gets too deep
* `parseWithin_cutOff`: the limit never changes an answer, and for every source some limit suffices
-/

namespace Formula

/-- Whether an error is the complaint about nesting. -/
def ParseError.IsTooDeep (e : ParseError) : Prop :=
  ∃ limit position, e = .nestingTooDeep limit position

/-- Errors about characters are not about nesting. -/
theorem ParseError.IsLexical.not_isTooDeep {e : ParseError} (h : e.IsLexical) : ¬ e.IsTooDeep := by
  rintro ⟨limit, position, rfl⟩
  exact h

namespace Parser

variable {α β : Type}

/-! ## Two limits -/

/-- The same parser under another limit. -/
def withLimit (limit : Nat) (p : Parser) : Parser :=
  { p with limit := limit }

/-- Whether an outcome under a lower limit tells the one under the limit `higher`: nesting gets too
    deep, or both are the same and so are the parsers behind them, up to the limit. -/
def Persists (higher : Nat) (lower upper : EStateM.Result ParseError Parser α) : Prop :=
  match lower with
  | .ok a p => p.limit ≤ higher ∧ upper = .ok a (p.withLimit higher)
  | .error e p => e.IsTooDeep ∨ upper = .error e (p.withLimit higher)

/-- Whether a step under any limit up to `higher` is done in the same way by another step under the
    limit `higher`, unless nesting gets too deep. -/
def GoesOn (higher : Nat) (step step' : Parsing α) : Prop :=
  ∀ p, p.limit ≤ higher → Persists higher (step p) (step' (p.withLimit higher))

section GoesOn

variable {higher : Nat}

theorem goesOn_pure (a : α) : GoesOn higher (pure a) (pure a) :=
  fun _ hp => ⟨hp, rfl⟩

theorem goesOn_throw (e : ParseError) : GoesOn higher (throw e : Parsing α) (throw e) :=
  fun _ _ => .inr rfl

/-- Sequences go in step if their parts do. -/
theorem GoesOn.bind {step step' : Parsing α} {f f' : α → Parsing β} (h : GoesOn higher step step')
    (hf : ∀ a, GoesOn higher (f a) (f' a)) : GoesOn higher (step >>= f) (step' >>= f') := by
  intro p hp
  have hfirst := h p hp
  simp only [Bind.bind, EStateM.bind]
  cases hstep : step p with
  | ok a q =>
    rw [hstep] at hfirst
    obtain ⟨hq, hstep'⟩ := hfirst
    -- the first step goes on as it did, so the second one starts from the same state
    rw [hstep']
    exact hf a q hq
  | error e q =>
    rw [hstep] at hfirst
    -- too deep already, or an error that a higher limit does not change
    rcases hfirst with hdeep | hstep'
    · exact .inl hdeep
    · rw [hstep']
      exact .inr rfl

/-- What follows a look at the parser sees the same parser, up to the limit. -/
theorem goesOn_get {f f' : Parser → Parsing α}
    (h : ∀ p, p.limit ≤ higher → GoesOn higher (f p) (f' (p.withLimit higher))) :
    GoesOn higher (get >>= f) (get >>= f') :=
  fun p hp => h p hp p hp

/-- The depth may change in any way. -/
theorem goesOn_modifyDepth (f : Nat → Nat) :
    GoesOn higher (modify fun p => { p with depth := f p.depth })
      (modify fun p => { p with depth := f p.depth }) :=
  fun _ hp => ⟨hp, rfl⟩

theorem goesOn_tooDeep (position : Nat) (step : Parsing α) :
    GoesOn higher (tooDeep position) step :=
  fun _ _ => .inl ⟨_, _, rfl⟩

theorem goesOn_advance : GoesOn higher advance advance := by
  intro p hp
  have hcursor : (p.withLimit higher).cursor = p.cursor := rfl
  simp only [advance, hcursor]
  cases Cursor.next p.cursor with
  | ok lexeme? cursor => exact ⟨hp, rfl⟩
  | error e cursor => exact .inr rfl

theorem goesOn_expect (token : Token) : GoesOn higher (expect token) (expect token) := by
  -- both have the same lookahead, and it decides how they go on
  refine goesOn_get fun ⟨limit, depth, lookahead, cursor⟩ _ => ?_
  cases lookahead with
  | none => exact goesOn_throw _
  | some lexeme =>
    show GoesOn higher (if lexeme.token = token then advance else unexpected lexeme)
      (if lexeme.token = token then advance else unexpected lexeme)
    split
    · exact goesOn_advance
    · exact goesOn_throw _

/-- A height that the lower limit allows is allowed by the higher one too. -/
theorem goesOn_checkHeight (height position : Nat) :
    GoesOn higher (checkHeight height position) (checkHeight height position) := by
  refine goesOn_get fun p hp => ?_
  have hlimit : (p.withLimit higher).limit = higher := rfl
  rw [hlimit]
  by_cases hheight : p.limit < height
  · rw [if_pos hheight]
    exact goesOn_tooDeep _ _
  · have hheight' : ¬ higher < height := by omega
    rw [if_neg hheight, if_neg hheight']
    exact goesOn_pure _

theorem goesOn_operatorAhead (least : Level) :
    GoesOn higher (operatorAhead least) (operatorAhead least) := by
  refine goesOn_get fun p _ => ?_
  have hlookahead : (p.withLimit higher).lookahead = p.lookahead := rfl
  simp only [hlookahead]
  cases p.lookahead with
  | none => exact goesOn_pure _
  | some lexeme =>
    dsimp only
    cases lexeme.token.operator? with
    | none => exact goesOn_pure _
    | some op =>
      dsimp only
      split <;> exact goesOn_pure _

theorem goesOn_leaf (tree : Expr) : GoesOn higher (leaf tree) (leaf tree) :=
  goesOn_advance.bind fun _ => goesOn_pure _

/-! ### The parser under two limits -/

variable {E E' : Level → Parsing Parsed}

/-- Operands go in step if the expressions inside them do. -/
theorem goesOn_operand (hE : ∀ level, GoesOn higher (E level) (E' level)) :
    GoesOn higher (operand E) (operand E') := by
  -- the token ahead is read apart from the limit, so both take the same branch
  refine goesOn_get fun ⟨limit, depth, lookahead, cursor⟩ _ => ?_
  cases lookahead with
  | none => exact goesOn_throw _
  | some lexeme =>
    obtain ⟨token, start, stop⟩ := lexeme
    cases token with
    | integer | real | identifier => exact goesOn_leaf _
    | keyword keyword =>
      cases keyword with
      | trueWord | falseWord => exact goesOn_leaf _
      | ifWord =>
        exact goesOn_advance.bind fun _ => (hE .or).bind fun condition =>
          (goesOn_expect _).bind fun _ => (hE .or).bind fun whenTrue =>
            (goesOn_expect _).bind fun _ => (hE .or).bind fun whenFalse =>
              (goesOn_checkHeight _ _).bind fun _ => goesOn_pure _
      | _ => exact goesOn_throw _
    | mark mark =>
      cases mark with
      | leftParen =>
        exact goesOn_advance.bind fun _ => (hE .or).bind fun inner =>
          (goesOn_expect _).bind fun _ => goesOn_pure _
      | minus => exact goesOn_advance.bind fun _ => (hE .unary).bind fun signed => goesOn_pure _
      | plus => exact goesOn_advance.bind fun _ => hE .unary
      | _ => exact goesOn_throw _

/-- The loop goes in step with one that has more levels to spare. -/
theorem goesOn_climb (hE : ∀ level, GoesOn higher (E level) (E' level)) (least : Level)
    {spare spare' : Nat} (hspare : spare ≤ spare') (left : Parsed) :
    GoesOn higher (climb E least spare left) (climb E' least spare' left) := by
  -- on the levels left for the lower limit; the higher one has at least as many
  induction spare generalizing spare' left with
  | zero =>
    -- the next operator makes the tree too high, whatever the other loop does
    rw [climb, climb]
    refine (goesOn_operatorAhead least).bind fun ahead? => ?_
    cases ahead? with
    | none => exact goesOn_pure _
    | some ahead => exact goesOn_advance.bind fun _ => (hE _).bind fun right => goesOn_tooDeep _ _
  | succ spare ih =>
    obtain ⟨spare', rfl⟩ := Nat.exists_eq_add_of_le' (Nat.le_trans (Nat.succ_pos spare) hspare)
    rw [climb, climb]
    refine (goesOn_operatorAhead least).bind fun ahead? => ?_
    cases ahead? with
    | none => exact goesOn_pure _
    | some ahead =>
      exact goesOn_advance.bind fun _ => (hE _).bind fun right =>
        (goesOn_checkHeight _ _).bind fun _ => ih (Nat.le_of_succ_le_succ hspare) _

/-- An expression goes in step with one that has more room. -/
theorem goesOn_expression {room room' : Nat} (hroom : room ≤ room') (least : Level) :
    GoesOn higher (expression room least) (expression room' least) := by
  induction room generalizing room' least with
  | zero =>
    intro p _
    exact .inl ⟨_, _, rfl⟩
  | succ room ih =>
    obtain ⟨room', rfl⟩ := Nat.exists_eq_add_of_le' (Nat.le_trans (Nat.succ_pos room) hroom)
    have hE (level : Level) := ih (Nat.le_of_succ_le_succ hroom) level
    rw [expression, expression]
    refine (goesOn_modifyDepth (· + 1)).bind fun _ => ?_
    refine (goesOn_operand hE).bind fun first => goesOn_get fun p hp => ?_
    refine (goesOn_climb hE least (Nat.sub_le_sub_right hp _) first).bind fun whole => ?_
    exact (goesOn_modifyDepth (· - 1)).bind fun _ => goesOn_pure _

/-- Reads an expression that is the rest of the source and in which `room` expressions may be
    nested, with its first token in the lookahead. -/
def expressionToEnd (room : Nat) : Parsing Expr := do
  let whole ← expression room .or
  match (← get).lookahead with
  | none => return whole.tree
  | some lexeme => unexpected lexeme

theorem goesOn_expressionToEnd {room room' : Nat} (hroom : room ≤ room') :
    GoesOn higher (expressionToEnd room) (expressionToEnd room') := by
  refine (goesOn_expression hroom .or).bind fun whole => ?_
  refine goesOn_get fun ⟨limit, depth, lookahead, cursor⟩ _ => ?_
  cases lookahead with
  | none => exact goesOn_pure _
  | some lexeme => exact goesOn_throw _

/-- Parsers under two limits go in step. -/
theorem goesOn_parse : GoesOn higher parse parse :=
  goesOn_advance.bind fun _ => goesOn_get fun _ hp =>
    goesOn_expressionToEnd (Nat.sub_le_sub_right hp _)

end GoesOn

/-! ## Enough room -/

/-- How much a parser has to read at most: its lookahead, and a token for every character behind
    it. -/
def unread (p : Parser) : Nat :=
  p.lookahead.toList.length + p.cursor.rest.length

/-- Whether a step is no complaint about nesting, and a tree that it gives is no higher than what it
    has used up of the given amount to read. -/
def Spends (p : Parser) (amount : Nat) (result : EStateM.Result ParseError Parser Parsed) : Prop :=
  result.Meets (fun parsed p' => parsed.height + p'.unread ≤ amount ∧ p'.limit = p.limit)
    fun e => ¬ e.IsTooDeep

/-- Whether expressions never nest too deep where more than they have to read is left of the room,
    and as much is allowed by the limit. -/
def Affords (room : Nat) (E : Level → Parsing Parsed) : Prop :=
  ∀ level (p : Parser), p.unread < room → p.unread ≤ p.limit → p.Spends p.unread (E level p)

section Affords

variable {p p₁ : Parser} {lexeme : Lexeme} {E : Level → Parsing Parsed} {room amount : Nat}

/-- A step behind another one that has not changed the limit. -/
theorem Spends.of_limit {result : EStateM.Result ParseError Parser Parsed} {amount' : Nat}
    (h : p₁.Spends amount result) (hlimit : p₁.limit = p.limit) (hle : amount ≤ amount') :
    p.Spends amount' result :=
  h.imp (fun _ _ h => ⟨Nat.le_trans h.1 hle, h.2.trans hlimit⟩) fun _ he => he

theorem shows_lookahead (p : Parser) : p.Shows (p.lookahead.toList.map Lexeme.token) := by
  cases hlookahead : p.lookahead with
  | none => exact hlookahead
  | some lexeme => exact ⟨lexeme, hlookahead, rfl⟩

/-- A new lookahead takes at least one character. -/
theorem unread_advance (p : Parser) :
    (advance p).Meets
      (fun _ p' => p'.unread ≤ p.cursor.rest.length ∧ p'.limit = p.limit ∧ p'.depth = p.depth)
      fun e => ¬ e.IsTooDeep := by
  simp only [advance]
  cases hnext : Cursor.next p.cursor with
  | error e cursor => exact (Cursor.isLexical_of_next hnext).not_isTooDeep
  | ok lexeme? cursor =>
    refine ⟨?_, rfl, rfl⟩
    cases lexeme? with
    -- the end: nothing is left of the source
    | none =>
      have hrest : cursor.rest = [] := (Cursor.skipGap_of_next_none hnext).2
      simp [unread, hrest]
    | some lexeme =>
      -- a token takes at least one character
      have hlt := Cursor.length_next_lt hnext
      simp only [unread, Option.toList_some, List.length_singleton]
      omega

/-- Using up the lookahead leaves less to read. -/
theorem unread_advance_lt (h : p.lookahead = some lexeme) :
    (advance p).Meets (fun _ p' => p'.unread < p.unread ∧ p'.limit = p.limit)
      fun e => ¬ e.IsTooDeep := by
  refine (unread_advance p).imp (fun _ p' hp' => ⟨?_, hp'.2.1⟩) fun _ he => he
  have hunread : p.unread = 1 + p.cursor.rest.length := by rw [unread, h]; rfl
  omega

theorem unread_expect_lt (token : Token) (p : Parser) :
    (expect token p).Meets (fun _ p' => p'.unread < p.unread ∧ p'.limit = p.limit)
      fun e => ¬ e.IsTooDeep := by
  rw [expect, EStateM.get_bind]
  cases hlookahead : p.lookahead with
  | none => rintro ⟨_, _, ⟨⟩⟩
  | some lexeme =>
    dsimp only
    split
    · exact unread_advance_lt hlookahead
    · rintro ⟨_, _, ⟨⟩⟩

/-- An operand uses up at least one token for every level of its tree. -/
theorem Affords.spends_operand (hE : Affords room E) (hroom : p.unread ≤ room)
    (hlimit : p.unread ≤ p.limit) : p.Spends p.unread (operand E p) := by
  have hshows := p.shows_lookahead
  cases hlookahead : p.lookahead with
  | none =>
    rw [hlookahead] at hshows
    rw [operand_of_nil hshows]
    rintro ⟨_, _, ⟨⟩⟩
  | some lexeme =>
    rw [hlookahead] at hshows
    -- whatever the token is, an expression behind it has less to read
    have hexpression (level : Level) {p₁ : Parser} (h : p₁.unread < p.unread ∧ p₁.limit = p.limit) :
        p₁.Spends p₁.unread (E level p₁) := hE level p₁ (by omega) (by omega)
    have hadvance := unread_advance_lt hlookahead
    by_cases hstart : lexeme.token.StartsOperand
    · -- a leaf, a parenthesis, a minus, a plus and a conditional
      obtain ⟨tree, htree⟩ | htoken | htoken | htoken | htoken := hstart
      · rw [operand_of_operand? hshows htree]
        refine hadvance.bind (fun _ he => he) fun _ p₁ h₁ => ⟨?_, h₁.2⟩
        simp only [Parsed.leaf]
        omega
      · rw [Option.toList_some, List.map_singleton, htoken] at hshows
        rw [operand_of_leftParen hshows]
        refine hadvance.bind (fun _ he => he) fun _ p₁ h₁ => ?_
        refine (hexpression .or h₁).bind (fun _ he => he) fun inner p₂ h₂ => ?_
        -- each step uses up what it has read, and the sums close the account
        refine (unread_expect_lt _ p₂).bind (fun _ he => he) fun _ p₃ h₃ => ?_
        exact ⟨by omega, by omega⟩
      · rw [Option.toList_some, List.map_singleton, htoken] at hshows
        rw [operand_of_minus hshows]
        refine hadvance.bind (fun _ he => he) fun _ p₁ h₁ => ?_
        refine (hexpression .unary h₁).bind (fun _ he => he) fun signed p₂ h₂ => ⟨?_, by omega⟩
        simp only [Parsed.negated]
        omega
      · rw [Option.toList_some, List.map_singleton, htoken] at hshows
        rw [operand_of_plus hshows]
        refine hadvance.bind (fun _ he => he) fun _ p₁ h₁ => ?_
        exact (hexpression .unary h₁).of_limit h₁.2 (Nat.le_of_lt h₁.1)
      · rw [Option.toList_some, List.map_singleton, htoken] at hshows
        obtain ⟨position, hoperand⟩ := exists_operand_of_ifWord (E := E) hshows
        rw [hoperand, conditional]
        refine hadvance.bind (fun _ he => he) fun _ p₁ h₁ => ?_
        refine (hexpression .or h₁).bind (fun _ he => he) fun condition p₂ h₂ => ?_
        refine (unread_expect_lt _ p₂).bind (fun _ he => he) fun _ p₃ h₃ => ?_
        refine (hexpression .or ⟨by omega, by omega⟩).bind (fun _ he => he) fun whenTrue p₄ h₄ => ?_
        refine (unread_expect_lt _ p₄).bind (fun _ he => he) fun _ p₅ h₅ => ?_
        refine (hexpression .or ⟨by omega, by omega⟩).bind (fun _ he => he)
          fun whenFalse p₆ h₆ => ?_
        -- the branches stand behind one another, so their heights add up to less
        have hheight : (Parsed.cond condition whenTrue whenFalse).height + p₆.unread ≤ p.unread := by
          simp only [Parsed.cond]
          omega
        rw [EStateM.bind_of_ok (checkHeight_of_le (by omega))]
        exact ⟨hheight, by omega⟩
    · rw [operand_of_not_startsOperand hlookahead hstart]
      rintro ⟨_, _, ⟨⟩⟩

/-- The loop joins no more operators than it has levels to spare. -/
theorem Affords.spends_climb (hE : Affords room E) (least : Level) {spare : Nat} {left : Parsed}
    (hroom : p.unread ≤ room) (hamount : left.height + p.unread ≤ amount)
    (hlimit : amount ≤ p.limit) (hspare : p.limit ≤ spare + left.height) :
    p.Spends amount (climb E least spare left p) := by
  -- on the levels left; each operator takes one and uses up a token
  induction spare generalizing p left with
  | zero =>
    -- the left operand is as high as the limit, so nothing can be left to read
    have hlookahead : p.lookahead = none := by
      cases h : p.lookahead with
      | none => rfl
      | some lexeme =>
        have hunread : p.unread = 1 + p.cursor.rest.length := by rw [unread, h]; rfl
        omega
    have hshows : p.Shows [] := hlookahead
    have hstops : Stops least [] := stops_of_none rfl
    rw [climb, EStateM.bind_of_ok (operatorAhead_of_stops hshows hstops)]
    exact ⟨hamount, rfl⟩
  | succ spare ih =>
    rw [climb]
    rcases operatorAhead_cases p.shows_lookahead least with ⟨-, hahead⟩ | ⟨_, _, op, position,
      htokens, -, -, hahead⟩
    · -- the loop ends with the left operand
      rw [EStateM.bind_of_ok hahead]
      exact ⟨hamount, rfl⟩
    · cases hlookahead : p.lookahead with
      | none =>
        rw [hlookahead] at htokens
        cases htokens
      | some lexeme =>
        rw [EStateM.bind_of_ok hahead]
        refine (unread_advance_lt hlookahead).bind (fun _ he => he) fun _ p₁ h₁ => ?_
        refine (hE _ p₁ (by omega) (by omega)).bind (fun _ he => he) fun right p₂ h₂ => ?_
        -- the operator makes the tree higher by one, and it has been used up
        have hheight : (Parsed.join op left right).height =
            1 + max left.height right.height := rfl
        have hlimit₂ : p₂.limit = p.limit := by omega
        dsimp only
        rw [EStateM.bind_of_ok (checkHeight_of_le (by omega))]
        exact (ih (by omega) (by omega) (by omega) (by omega)).of_limit hlimit₂ (Nat.le_refl _)

/-- With more room than there is left to read, nesting never gets too deep. -/
theorem affords_expression (room : Nat) : Affords room (expression room) := by
  induction room with
  | zero => exact fun _ _ h => absurd h (Nat.not_lt_zero _)
  | succ room ih =>
    intro least p hroom hlimit
    rw [expression_succ]
    have hoperand : (p.withDepth (p.depth + 1)).Spends p.unread _ :=
      ih.spends_operand (Nat.le_of_lt_succ hroom) hlimit
    refine hoperand.bind (fun _ he => he) fun first p₁ h₁ => ?_
    have hlimit₁ : p₁.limit = p.limit := h₁.2
    rw [EStateM.get_bind]
    refine (ih.spends_climb least (by omega) h₁.1 (by omega) (by omega)).bind (fun _ he => he)
      fun whole p₂ h₂ => ?_
    exact ⟨h₂.1, h₂.2.trans hlimit₁⟩

/-- A source nests less deep than it has characters. -/
theorem not_isTooDeep_of_parse {c : Cursor} {limit : Nat} (h : c.rest.length < limit) :
    (parse (start limit c)).Meets (fun _ _ => True) fun e => ¬ e.IsTooDeep := by
  rw [parse]
  refine (unread_advance _).bind (fun _ he => he) fun _ p₁ h₁ => ?_
  rw [EStateM.get_bind]
  have hunread₁ : p₁.unread ≤ c.rest.length := h₁.1
  have hlimit₁ : p₁.limit = limit := h₁.2.1
  have hdepth₁ : p₁.depth = 0 := h₁.2.2
  refine (affords_expression _ .or p₁ (by omega) (by omega)).bind (fun _ he => he)
    fun whole p₂ _ => ?_
  rw [EStateM.get_bind]
  cases p₂.lookahead with
  | none => trivial
  | some lexeme => rintro ⟨_, _, ⟨⟩⟩

end Affords

end Parser

namespace Expr

/-- The nesting limit only cuts off: an answer other than that nesting gets too deep is the answer
    under every higher limit, and a limit that exceeds the length of the source suffices. -/
theorem parseWithin_cutOff (source : String) :
    (∀ limit higher, limit ≤ higher →
      (∀ n position, parseWithin limit source ≠ .error (.nestingTooDeep n position)) →
      parseWithin higher source = parseWithin limit source) ∧
    ∀ limit, source.length < limit →
      ∀ n position, parseWithin limit source ≠ .error (.nestingTooDeep n position) := by
  constructor
  · -- a higher limit changes nothing
    intro limit higher hle hdeep
    -- the two fresh parsers differ in the limit only
    have hpersists := Parser.goesOn_parse (Parser.start limit (Cursor.ofSource source)) hle
    have hstart : (Parser.start limit (Cursor.ofSource source)).withLimit higher =
        Parser.start higher (Cursor.ofSource source) := rfl
    rw [hstart] at hpersists
    unfold parseWithin at hdeep ⊢
    cases hparse : Parser.parse (Parser.start limit (Cursor.ofSource source)) with
    | ok tree p =>
      rw [hparse] at hpersists
      rw [hpersists.2]
    | error e p =>
      rw [hparse] at hpersists hdeep
      -- the error is the limit's own, which is excluded, or it persists
      rcases hpersists with ⟨n, position, rfl⟩ | hupper
      · exact absurd rfl (hdeep n position)
      · rw [hupper]
  · -- a limit above the length is never met, since each level takes a character
    intro limit hlimit n position herror
    have hlength : (Cursor.ofSource source).rest.length < limit := by
      rwa [Cursor.ofSource, String.length_toList]
    have hmeets := Parser.not_isTooDeep_of_parse hlength
    unfold parseWithin at herror
    cases hparse : Parser.parse (Parser.start limit (Cursor.ofSource source)) with
    | ok tree p =>
      rw [hparse] at herror
      cases herror
    | error e p =>
      rw [hparse] at herror hmeets
      exact hmeets ⟨n, position, Except.error.inj herror⟩

/-- An unclosed parenthesis is found under every limit that lets the parser look inside. -/
theorem parseWithin_cutOff_unclosed :
    (∀ n position, parseWithin 3 "(1 + 2" ≠ .error (.nestingTooDeep n position)) ∧
      ∀ limit ≥ 3, parseWithin limit "(1 + 2" =
        .error (.unexpectedEnd (.token (.mark .rightParen))) := by
  have hparse : parseWithin 3 "(1 + 2" = .error (.unexpectedEnd (.token (.mark .rightParen))) := by
    decide +kernel
  have hdeep : ∀ n position, parseWithin 3 "(1 + 2" ≠ .error (.nestingTooDeep n position) := by
    simp [hparse]
  refine ⟨hdeep, fun limit hlimit => ?_⟩
  rw [← hparse]
  exact (parseWithin_cutOff "(1 + 2").1 3 limit hlimit hdeep

end Expr

end Formula
