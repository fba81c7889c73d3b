import Formula.Proofs.Parser.Prediction
import Formula.Proofs.Parser.Reading

/-!
# What the parser has done

Every step of the parser has one of two outcomes.  It succeeds, and then it has read what its task
reads, with room for its nesting; or it fails, and then at the place where the tokens ahead stop
being readable.  This holds from every state of a parser, also where the source ends in characters
that are no token (`Parser.Faces`).

There is one lemma for each function of the parser, and `Parser.follows_expression` puts them
together by induction on the room.
-/

namespace Formula

namespace Parser

/-! ## The lexemes ahead -/

/-- Whether the lookahead and what the cursor yields behind it are the given lexemes, and what ends
    them. -/
def Faces (p : Parser) (lexemes : List Lexeme) (failure? : Option ParseError) : Prop :=
  match lexemes with
  | [] => p.lookahead = none ∧ failure? = none
  | lexeme :: rest => p.lookahead = some lexeme ∧ p.cursor.YieldsUpTo rest failure?

/-- Every parser has some lexemes ahead. -/
theorem exists_faces (p : Parser) : ∃ lexemes failure?, p.Faces lexemes failure? := by
  cases hlookahead : p.lookahead with
  | none => exact ⟨[], none, hlookahead, rfl⟩
  | some lexeme =>
    obtain ⟨rest, failure?, hrest⟩ := p.cursor.exists_yieldsUpTo
    exact ⟨lexeme :: rest, failure?, hlookahead, hrest⟩

variable {p p' p'' : Parser} {lexemes rest rest' : List Lexeme} {lexeme : Lexeme}
  {failure? : Option ParseError} {room : Nat}

theorem Faces.shows (h : p.Faces lexemes failure?) : p.Shows (lexemes.map Lexeme.token) := by
  cases lexemes with
  | nil => exact h.1
  | cons lexeme rest => exact ⟨lexeme, h.1, rfl⟩

/-- A token of a known kind is shown as that kind. -/
theorem Faces.shows_of_eq {token : Token} (h : p.Faces (lexeme :: rest) failure?)
    (htoken : lexeme.token = token) : p.Shows (token :: rest.map Lexeme.token) :=
  ⟨lexeme, h.1, htoken⟩

/-- A parser that has gone on to `rest` and is as deep in expressions as before. -/
structure Reaches (p : Parser) (lexemes : List Lexeme) (failure? : Option ParseError) (p' : Parser)
    (rest : List Lexeme) : Prop where
  faces : p'.Faces rest failure?
  suffix : rest <:+ lexemes
  limit : p'.limit = p.limit
  depth : p'.depth = p.depth

theorem Reaches.trans (h : p.Reaches lexemes failure? p' rest)
    (h' : p'.Reaches rest failure? p'' rest') : p.Reaches lexemes failure? p'' rest' :=
  ⟨h'.faces, h'.suffix.trans h.suffix, h'.limit.trans h.limit, h'.depth.trans h.depth⟩

theorem Faces.reaches (h : p.Faces lexemes failure?) : p.Reaches lexemes failure? p lexemes :=
  ⟨h, List.suffix_refl _, rfl, rfl⟩

/-- Reading on shows the first lexeme that the cursor yields, and fails if there is none but an
    error. -/
theorem meets_advance_of_yieldsUpTo (h : p.cursor.YieldsUpTo rest failure?) :
    (advance p).Meets
      (fun _ p' => p'.Faces rest failure? ∧ p'.limit = p.limit ∧ p'.depth = p.depth)
      fun e => rest = [] ∧ failure? = some e := by
  -- the end, a refused character, or one more token
  cases h with
  | @done _ after hnext =>
    have hadvance : advance p = .ok () { p with lookahead := none, cursor := after } := by
      simp only [advance, hnext]
    rw [hadvance]
    exact ⟨⟨rfl, rfl⟩, rfl, rfl⟩
  | @failed _ after e hnext =>
    have hadvance : advance p = .error e { p with cursor := after } := by
      simp only [advance, hnext]
    rw [hadvance]
    exact ⟨rfl, rfl⟩
  | @more _ after lexeme _ _ hnext hrest =>
    have hadvance : advance p = .ok () { p with lookahead := some lexeme, cursor := after } := by
      simp only [advance, hnext]
    rw [hadvance]
    exact ⟨⟨rfl, hrest⟩, rfl, rfl⟩

/-- The lookahead is used up. -/
theorem meets_advance (h : p.Faces (lexeme :: rest) failure?) :
    (advance p).Meets (fun _ p' => p.Reaches (lexeme :: rest) failure? p' rest)
      fun e => rest = [] ∧ failure? = some e :=
  (meets_advance_of_yieldsUpTo h.2).imp
    (fun _ _ hp' => ⟨hp'.1, List.suffix_cons lexeme rest, hp'.2.1, hp'.2.2⟩) fun _ he => he

/-- The token asked for is used up, and any other one is unexpected. -/
theorem meets_expect (token : Token) (h : p.Faces lexemes failure?) :
    (expect token p).Meets
      (fun _ p' => ∃ rest, lexemes.map Lexeme.token = token :: rest.map Lexeme.token ∧
        p.Reaches lexemes failure? p' rest)
      ((Reader.only token).Fails lexemes failure?) := by
  rw [expect, EStateM.get_bind]
  -- at the end any other token would have been right, so the tokens are unfinished
  cases lexemes with
  | nil =>
    obtain ⟨hlookahead, rfl⟩ := h
    simp only [hlookahead]
    exact .unfinished ⟨[token], rfl⟩ fun _ hread => absurd hread.symm (List.cons_ne_nil _ _)
  | cons lexeme rest =>
    simp only [h.1]
    by_cases htoken : lexeme.token = token
    · rw [if_pos htoken]
      -- the token is there, and what is behind it may be refused
      refine (meets_advance h).imp (fun _ p' hp' => ?_) fun e he => ?_
      · exact ⟨rest, by rw [List.map_cons, htoken], hp'⟩
      · obtain ⟨rfl, rfl⟩ := he
        exact .unreadable ⟨[], by rw [List.append_nil, List.map_singleton, htoken]; rfl⟩
    · rw [if_neg htoken]
      -- another token, with which nothing goes on
      refine .first ⟨[token], rfl⟩ fun more after hread => htoken ?_
      exact (List.cons.inj hread).1

theorem meets_checkHeight (height position : Nat) (p : Parser) :
    (checkHeight height position p).Meets (fun _ p' => height ≤ p.limit ∧ p' = p)
      fun e => ∃ limit, e = .nestingTooDeep limit position := by
  rw [checkHeight, EStateM.get_bind]
  by_cases hheight : p.limit < height
  · rw [if_pos hheight]
    exact ⟨p.limit, rfl⟩
  · rw [if_neg hheight]
    exact ⟨Nat.not_lt.mp hheight, rfl⟩

/-! ## Outcomes -/

/-- Whether a tree is as high as said and within the limit, where a single node always is. -/
def Keeps (p : Parser) (parsed : Parsed) : Prop :=
  parsed.height = parsed.tree.depth ∧ parsed.tree.depth ≤ max 1 p.limit

theorem Keeps.of_limit {parsed : Parsed} (h : p'.Keeps parsed) (hlimit : p'.limit = p.limit) :
    p.Keeps parsed := by
  rwa [Keeps, ← hlimit]

theorem Keeps.negated {parsed : Parsed} (h : p.Keeps parsed) : p.Keeps parsed.negated := by
  have hdepth : parsed.negated.tree.depth = parsed.tree.depth := Expr.depth_withSign _ _
  rwa [Keeps, hdepth]

end Parser

/-- Whether a step has done its task on the lexemes ahead, with room for its nesting and a tree
    within the limit, or has failed where its reader does. -/
def Task.Outcome (task : Task) (room : Nat) (p : Parser) (lexemes : List Lexeme)
    (failure? : Option ParseError) (result : EStateM.Result ParseError Parser Parsed) : Prop :=
  result.Meets
    (fun parsed p' => ∃ need rest, need ≤ room ∧
      Reads task need (lexemes.map Lexeme.token) parsed.tree (rest.map Lexeme.token) ∧
      p.Reaches lexemes failure? p' rest ∧ p.Keeps parsed)
    (task.reader.Fails lexemes failure?)

namespace Parser

open Formula.Reader Formula.Task

/-- Whether a reader of expressions does what its tasks say. -/
def Follows (room : Nat) (E : Level → Parsing Parsed) : Prop :=
  ∀ ⦃p lexemes failure?⦄ least, Faces p lexemes failure? →
    (Task.expression least).Outcome room p lexemes failure? (E least p)

variable {p p' : Parser} {lexemes rest : List Lexeme} {lexeme : Lexeme}
  {failure? : Option ParseError} {room : Nat} {E : Level → Parsing Parsed}

/-! ## The parts of an operand -/

theorem outcome_leaf {tree : Expr} (hp : p.Faces (lexeme :: rest) failure?)
    (htree : lexeme.token.operand? = some tree) :
    Task.operand.Outcome room p (lexeme :: rest) failure? (leaf tree p) := by
  refine (meets_advance hp).bind (fun e he => ?_) fun _ p₁ h₁ => ?_
  · obtain ⟨rfl, rfl⟩ := he
    exact .unreadable ⟨[], 0, tree, .operand htree⟩
  · have hdepth := Token.depth_of_operand? htree
    refine ⟨0, rest, Nat.zero_le _, .operand htree, h₁, hdepth.symm, ?_⟩
    simp only [Parsed.leaf, hdepth]
    omega

theorem Follows.outcome_leftParen (hE : Follows room E) (hp : p.Faces (lexeme :: rest) failure?)
    (htoken : lexeme.token = .mark .leftParen) :
    Task.operand.Outcome room p (lexeme :: rest) failure? (operand E p) := by
  have hcons := htoken ▸ reader_leftParen
  have hparen : (only (.mark .rightParen)).Startable := startable_only rfl
  rw [operand_of_leftParen (hp.shows_of_eq htoken)]
  -- the opening parenthesis, the expression, the closing one
  refine (meets_advance hp).bind (fun e he => ?_) fun _ p₁ h₁ => ?_
  · obtain ⟨rfl, rfl⟩ := he
    exact .cons_unreadable ((startable_expression _).andThen (predictive_reader _) hparen) hcons
  refine (hE .or h₁.faces).bind (fun e he => ?_) fun inner p₂ h₂ => ?_
  · exact (he.andThen_left (predictive_reader _) hparen).cons hcons
  obtain ⟨need, rest₂, hneed, hreads, h₂, hkeeps⟩ := h₂
  refine (meets_expect _ h₂.faces).bind (fun e he => ?_) fun _ p₃ h₃ => ?_
  · exact (he.andThen_right (predictive_reader _) hparen h₂.suffix ⟨_, _, hreads⟩).cons hcons
  obtain ⟨rest₃, hclosed, h₃⟩ := h₃
  rw [hclosed] at hreads
  refine ⟨need, rest₃, hneed, ?_, (h₁.trans h₂).trans h₃, hkeeps.of_limit h₁.limit⟩
  rw [List.map_cons, htoken]
  exact .parenthesized hreads

theorem Follows.outcome_minus (hE : Follows room E) (hp : p.Faces (lexeme :: rest) failure?)
    (htoken : lexeme.token = .mark .minus) :
    Task.operand.Outcome room p (lexeme :: rest) failure? (operand E p) := by
  have hcons := htoken ▸ reader_minus
  rw [operand_of_minus (hp.shows_of_eq htoken)]
  refine (meets_advance hp).bind (fun e he => ?_) fun _ p₁ h₁ => ?_
  · obtain ⟨rfl, rfl⟩ := he
    exact .cons_unreadable (startable_expression _) hcons
  refine (hE .unary h₁.faces).bind (fun e he => he.cons hcons) fun signed p₂ h₂ => ?_
  obtain ⟨need, rest₂, hneed, hreads, h₂, hkeeps⟩ := h₂
  refine ⟨need, rest₂, hneed, ?_, h₁.trans h₂, (hkeeps.of_limit h₁.limit).negated⟩
  rw [List.map_cons, htoken]
  exact .minus hreads

theorem Follows.outcome_plus (hE : Follows room E) (hp : p.Faces (lexeme :: rest) failure?)
    (htoken : lexeme.token = .mark .plus) :
    Task.operand.Outcome room p (lexeme :: rest) failure? (operand E p) := by
  have hcons := htoken ▸ reader_plus
  rw [operand_of_plus (hp.shows_of_eq htoken)]
  refine (meets_advance hp).bind (fun e he => ?_) fun _ p₁ h₁ => ?_
  · obtain ⟨rfl, rfl⟩ := he
    exact .cons_unreadable (startable_expression _) hcons
  -- nothing comes behind the expression, so it is bound to no further step
  rw [← bind_pure (E .unary)]
  refine (hE .unary h₁.faces).bind (fun e he => he.cons hcons) fun operand p₂ h₂ => ?_
  obtain ⟨need, rest₂, hneed, hreads, h₂, hkeeps⟩ := h₂
  refine ⟨need, rest₂, hneed, ?_, h₁.trans h₂, hkeeps.of_limit h₁.limit⟩
  rw [List.map_cons, htoken]
  exact .plus hreads

theorem Follows.outcome_ifWord (hE : Follows room E) (hp : p.Faces (lexeme :: rest) failure?)
    (htoken : lexeme.token = .keyword .ifWord) :
    Task.operand.Outcome room p (lexeme :: rest) failure? (operand E p) := by
  have hcons := htoken ▸ reader_ifWord
  have hE' := predictive_reader (.expression .or)
  -- what comes behind each part can always be read
  have hfalse := startable_expression .or
  have helse := (startable_only rfl).andThen (predictive_only (.keyword .elseWord)) hfalse
  have htrue := hfalse.andThen hE' helse
  have hthen := (startable_only rfl).andThen (predictive_only (.keyword .thenWord)) htrue
  obtain ⟨position, hoperand⟩ := exists_operand_of_ifWord (E := E) (hp.shows_of_eq htoken)
  rw [hoperand, conditional]
  -- `if` and the condition
  refine (meets_advance hp).bind (fun e he => ?_) fun _ p₁ h₁ => ?_
  · obtain ⟨rfl, rfl⟩ := he
    exact .cons_unreadable (hfalse.andThen hE' hthen) hcons
  refine (hE .or h₁.faces).bind (fun e he => ?_) fun condition p₂ h₂ => ?_
  · exact (he.andThen_left hE' hthen).cons hcons
  obtain ⟨n₁, rest₂, hn₁, hc, h₂, hckeeps⟩ := h₂
  have hfrom₂ {e} (he : Fails _ rest₂ failure? e) :=
    (he.andThen_right hE' hthen h₂.suffix ⟨_, _, hc⟩).cons hcons
  -- `then` and its branch
  refine (meets_expect _ h₂.faces).bind (fun e he => ?_) fun _ p₃ h₃ => ?_
  · exact hfrom₂ (he.andThen_left (predictive_only _) htrue)
  obtain ⟨rest₃, hthenWord, h₃⟩ := h₃
  have hfrom₃ {e} (he : Fails _ rest₃ failure? e) :=
    hfrom₂ (he.andThen_right (predictive_only _) htrue h₃.suffix hthenWord)
  refine (hE .or h₃.faces).bind (fun e he => ?_) fun whenTrue p₄ h₄ => ?_
  · exact hfrom₃ (he.andThen_left hE' helse)
  obtain ⟨n₂, rest₄, hn₂, ht, h₄, htkeeps⟩ := h₄
  have hfrom₄ {e} (he : Fails _ rest₄ failure? e) :=
    hfrom₃ (he.andThen_right hE' helse h₄.suffix ⟨_, _, ht⟩)
  -- `else` and its branch
  refine (meets_expect _ h₄.faces).bind (fun e he => ?_) fun _ p₅ h₅ => ?_
  · exact hfrom₄ (he.andThen_left (predictive_only _) hfalse)
  obtain ⟨rest₅, helseWord, h₅⟩ := h₅
  refine (hE .or h₅.faces).bind (fun e he => ?_) fun whenFalse p₆ h₆ => ?_
  · exact hfrom₄ (he.andThen_right (predictive_only _) hfalse h₅.suffix helseWord)
  obtain ⟨n₃, rest₆, hn₃, hf, h₆, hfkeeps⟩ := h₆
  have h₁₆ := ((((h₁.trans h₂).trans h₃).trans h₄).trans h₅).trans h₆
  -- the height of the whole
  refine (meets_checkHeight _ position p₆).bind (fun e he => ?_) fun _ p₇ h₇ => ?_
  · obtain ⟨_, rfl⟩ := he
    exact .tooDeep
  obtain ⟨hheight, rfl⟩ := h₇
  have hwhole : (Parsed.cond condition whenTrue whenFalse).height =
      (Parsed.cond condition whenTrue whenFalse).tree.depth := by
    simp only [Parsed.cond, Expr.depth, hckeeps.1, htkeeps.1, hfkeeps.1]
  have hn : max n₁ (max n₂ n₃) ≤ room := by omega
  rw [hthenWord] at hc
  rw [helseWord] at ht
  refine ⟨_, rest₆, hn, ?_, h₁₆, hwhole, ?_⟩
  · rw [List.map_cons, htoken]
    exact .conditional hc ht hf
  · rw [h₁₆.limit] at hheight
    omega

/-- What an operand has done. -/
theorem Follows.outcome_operand (hE : Follows room E) (hp : p.Faces lexemes failure?) :
    Task.operand.Outcome room p lexemes failure? (operand E p) := by
  cases lexemes with
  | nil =>
    obtain ⟨-, rfl⟩ := id hp
    rw [operand_of_nil hp.shows]
    -- without tokens there is no operand, but every operand goes on from there
    refine .unfinished startable_operand.viable_nil fun rest hread => ?_
    obtain ⟨_, _, hread⟩ := hread
    exact nomatch hread
  | cons lexeme rest =>
    by_cases hstart : lexeme.token.StartsOperand
    · obtain ⟨tree, htree⟩ | htoken | htoken | htoken | htoken := hstart
      · rw [operand_of_operand? hp.shows htree]
        exact outcome_leaf hp htree
      · exact hE.outcome_leftParen hp htoken
      · exact hE.outcome_minus hp htoken
      · exact hE.outcome_plus hp htoken
      · exact hE.outcome_ifWord hp htoken
    · rw [operand_of_not_startsOperand hp.1 hstart]
      -- no operand begins with the token
      exact .first startable_operand.viable_nil fun _ _ hread =>
        hstart (startsOperand_of_reader hread)

/-! ## The loop -/

/-- An operator and its right operand, where `further` does what comes behind them. -/
theorem Follows.outcome_join (hE : Follows room E) {least : Level} {op : Operator} {left : Parsed}
    (further : Parsed → Parsing Parsed) (hleft : p.Keeps left)
    (hp : p.Faces (lexeme :: rest) failure?) (hop : lexeme.token.operator? = some op)
    (hlevel : least.rank ≤ op.level.rank)
    (hfurther : ∀ right p₁ rest₁, p.Reaches (lexeme :: rest) failure? p₁ rest₁ →
      (Parsed.join op left right).height = (Parsed.join op left right).tree.depth →
      (Task.climb least (Parsed.join op left right).tree).Outcome room p₁ rest₁ failure?
        (further (Parsed.join op left right) p₁)) :
    (Task.climb least left.tree).Outcome room p (lexeme :: rest) failure?
      ((do
        advance
        let right ← E op.level.ofRightOperand
        further (Parsed.join op left right) : Parsing Parsed) p) := by
  have hcons := reader_climb hop hlevel left.tree
  have hclimb := startable_climb least left.tree
  -- the operator
  refine (meets_advance hp).bind (fun e he => ?_) fun _ p₁ h₁ => ?_
  · obtain ⟨rfl, rfl⟩ := he
    exact .cons_unreadable ((startable_expression _).andThen (predictive_reader _) hclimb) hcons
  rw [← bind_pure (E _ >>= _), bind_assoc]
  -- its right operand, and the loop behind it
  refine (hE _ h₁.faces).bind (fun e he => ?_) fun right p₂ h₂ => ?_
  · exact (he.andThen_left (predictive_reader _) hclimb).cons hcons
  obtain ⟨n₁, rest₂, hn₁, hright, h₂, hkeeps⟩ := h₂
  have hjoined : (Parsed.join op left right).height =
      (Parsed.join op left right).tree.depth := by
    simp only [Parsed.join, Expr.depth, hleft.1, hkeeps.1]
  refine (hfurther right p₂ rest₂ (h₁.trans h₂) hjoined).bind (fun e he => ?_)
    fun whole p₃ h₃ => ?_
  · -- the loop that goes on is one with another left operand
    rw [reader_climb_eq _ _ left.tree] at he
    exact (he.andThen_right (predictive_reader _) hclimb h₂.suffix ⟨_, _, hright⟩).cons hcons
  obtain ⟨n₂, rest₃, hn₂, hwhole, h₃, hkeeps'⟩ := h₃
  refine ⟨max n₁ n₂, rest₃, by omega, .join hop hlevel hright hwhole, (h₁.trans h₂).trans h₃,
    hkeeps'.of_limit (h₁.trans h₂).limit⟩

/-- What the loop does with a tree that it has joined, with `spare` levels left before. -/
def joined (E : Level → Parsing Parsed) (least : Level) (spare position : Nat) (whole : Parsed) :
    Parsing Parsed :=
  match spare with
  | 0 => tooDeep position
  | spare + 1 => do
    checkHeight whole.height position
    climb E least spare whole

/-- One round of the loop: it stops, or it joins an operator with its right operand. -/
theorem Follows.outcome_round (hE : Follows room E) {least : Level} {spare : Nat} {left : Parsed}
    (hleft : p.Keeps left) (hp : p.Faces lexemes failure?)
    (hjoined : ∀ position whole p₁ rest₁, p.Reaches lexemes failure? p₁ rest₁ →
      whole.height = whole.tree.depth →
      (Task.climb least whole.tree).Outcome room p₁ rest₁ failure?
        (joined E least spare position whole p₁)) :
    (Task.climb least left.tree).Outcome room p lexemes failure?
      (climb E least spare left p) := by
  rcases operatorAhead_cases hp.shows least with ⟨hstops, hahead⟩ | ⟨token, ts, op, position,
    hshows, hop, hlevel, hahead⟩
  · rw [climb, EStateM.bind_of_ok hahead]
    -- no operator of this loop stands ahead
    exact ⟨0, lexemes, Nat.zero_le _, .stop hstops, hp.reaches, hleft⟩
  · -- an operator, so there is a token
    cases lexemes with
    | nil => cases hshows
    | cons lexeme rest =>
      obtain ⟨rfl, -⟩ := List.cons.inj hshows
      rw [climb, EStateM.bind_of_ok hahead]
      exact hE.outcome_join (joined E least spare position) hleft hp hop hlevel fun _ _ _ =>
        hjoined position _ _ _

/-- What the loop has done. -/
theorem Follows.outcome_climb (hE : Follows room E) {least : Level} {spare : Nat} {left : Parsed}
    (hleft : p.Keeps left) (hp : p.Faces lexemes failure?) :
    (Task.climb least left.tree).Outcome room p lexemes failure?
      (climb E least spare left p) := by
  -- on the operators that may still be joined; the left operand grows along
  induction spare generalizing p lexemes left with
  | zero => exact hE.outcome_round hleft hp fun _ _ _ _ _ _ => .tooDeep
  | succ spare ih =>
    refine hE.outcome_round hleft hp fun position whole p₁ rest₁ h₁ hwhole => ?_
    refine (meets_checkHeight whole.height position p₁).bind (fun e he => ?_) fun _ p₂ h₂ => ?_
    · obtain ⟨_, rfl⟩ := he
      exact .tooDeep
    · obtain ⟨hheight, rfl⟩ := h₂
      exact ih ⟨hwhole, by omega⟩ h₁.faces

/-! ## Expressions -/

theorem Faces.withDepth (h : p.Faces lexemes failure?) (depth : Nat) :
    (p.withDepth depth).Faces lexemes failure? := by
  cases lexemes <;> exact h

/-- What an expression has done. -/
theorem follows_expression (room : Nat) : Follows room (expression room) := by
  -- on the room, which every expression takes one of
  induction room with
  | zero =>
    -- no room is left for any expression
    intro p lexemes failure? least _
    rw [expression, EStateM.modify_bind]
    exact .tooDeep
  | succ room ih =>
    intro p lexemes failure? least hp
    rw [expression_succ]
    -- the first operand, and then the loop around it
    refine (ih.outcome_operand (hp.withDepth _)).bind (fun e he => ?_) fun first p₁ h₁ => ?_
    · rw [reader_expression least (.ofValue (.boolean true))]
      exact he.andThen_left (predictive_reader _) (startable_climb _ _)
    obtain ⟨n₁, rest₁, hn₁, hoperand, h₁, hkeeps⟩ := h₁
    rw [EStateM.get_bind]
    refine (ih.outcome_climb (hkeeps.of_limit h₁.limit.symm) h₁.faces).bind (fun e he => ?_)
      fun whole p₂ h₂ => ?_
    · rw [reader_expression least first.tree]
      exact he.andThen_right (predictive_reader _) (startable_climb _ _) h₁.suffix ⟨_, _, hoperand⟩
    obtain ⟨n₂, rest₂, hn₂, hclimb, h₂, hkeeps'⟩ := h₂
    have h₁₂ := h₁.trans h₂
    have hdepth₂ : p₂.depth = p.depth + 1 := h₁₂.depth
    have hlimit₁ : p₁.limit = p.limit := h₁.limit
    -- back from the expression, the depth is the one from before
    refine ⟨max n₁ n₂ + 1, rest₂, by omega, .expression hoperand hclimb,
      ⟨h₂.faces.withDepth _, h₁₂.suffix, h₁₂.limit, ?_⟩, hkeeps'.of_limit hlimit₁⟩
    show p₂.depth - 1 = p.depth
    omega

/-! ## Whole sources -/

/-- What a parser of whole sources has done: it has read all tokens, with room for their nesting and
    a tree within the limit, or has failed where the reader of whole sources does. -/
theorem meets_parse {c : Cursor} (limit : Nat) (h : c.YieldsUpTo lexemes failure?) :
    (parse (start limit c)).Meets
      (fun tree _ => failure? = none ∧ tree.depth ≤ limit ∧
        ∃ need ≤ limit, Reads (.expression .or) need (lexemes.map Lexeme.token) tree [])
      (whole.Fails lexemes failure?) := by
  have hexpression := predictive_reader (.expression .or)
  have hc : (start limit c).cursor.YieldsUpTo lexemes failure? := h
  rw [parse]
  -- the first token, the expression, and nothing behind it
  refine (meets_advance_of_yieldsUpTo hc).bind (fun e he => ?_) fun _ p₁ h₁ => ?_
  · obtain ⟨rfl, rfl⟩ := he
    exact .unreadable ((startable_expression .or).andThen hexpression startable_ended).viable_nil
  obtain ⟨hp₁, hlimit, hdepth⟩ := h₁
  have hroom : p₁.limit - p₁.depth = limit := by rw [hlimit, hdepth]; rfl
  rw [EStateM.get_bind, hroom]
  refine (follows_expression limit .or hp₁).bind (fun e he => ?_) fun parsed p₂ h₂ => ?_
  · exact he.andThen_left hexpression startable_ended
  obtain ⟨need, rest, hneed, hreads, h₂, -, hheight⟩ := h₂
  rw [EStateM.get_bind]
  cases rest with
  | nil =>
    obtain ⟨hlookahead, hend⟩ := h₂.faces
    simp only [hlookahead]
    -- an expression takes room, so the limit is not zero
    have hpos := hreads.need_pos
    have hlimit' : p₁.limit = limit := hlimit
    exact ⟨hend, by omega, need, hneed, hreads⟩
  | cons lexeme rest =>
    simp only [h₂.faces.1]
    -- a token behind a whole expression blocks
    refine (Fails.first ⟨[], rfl, rfl⟩ fun more rest' hread => ?_).andThen_right hexpression
      startable_ended h₂.suffix ⟨_, _, hreads⟩
    exact nomatch hread.1

end Parser

/-- The tree of a source text, or why there is none. -/
theorem Expr.parseWithin_cases {source : String} {lexemes : List Lexeme}
    {failure? : Option ParseError} (limit : Nat)
    (h : (Cursor.ofSource source).YieldsUpTo lexemes failure?) :
    (∃ tree, parseWithin limit source = .ok tree ∧ failure? = none ∧ tree.depth ≤ limit ∧
      ∃ need ≤ limit, Reads (.expression .or) need (lexemes.map Lexeme.token) tree []) ∨
    ∃ e, parseWithin limit source = .error e ∧ Reader.whole.Fails lexemes failure? e := by
  have hmeets := Parser.meets_parse limit h
  simp only [parseWithin]
  cases hparse : Parser.parse (Parser.start limit (Cursor.ofSource source)) with
  | ok tree p =>
    rw [hparse] at hmeets
    exact .inl ⟨tree, rfl, hmeets⟩
  | error e p =>
    rw [hparse] at hmeets
    exact .inr ⟨e, rfl, hmeets⟩

end Formula
