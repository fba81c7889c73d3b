import Formula.Parser.Basic
import Formula.Proofs.Parser.Climbing
import Formula.Proofs.Token.Stream

/-!
# Where the parser succeeds

The parser follows `Reads`: where a task can be done, with room for its nesting and a tree within
the limit, the step of the parser succeeds.
-/

namespace Formula

namespace Parser

/-! ## The tokens ahead -/

/-- The tokens that a parser has still to read. -/
def Ahead (p : Parser) : List Token → Prop
  | [] => p.lookahead = none
  | token :: rest => ∃ lexeme lexemes, p.lookahead = some lexeme ∧ lexeme.token = token ∧
      p.cursor.Yields lexemes ∧ lexemes.map Lexeme.token = rest

/-- A parser that has gone on to `rest` and is as deep in expressions as before. -/
structure LeadsTo (p p' : Parser) (rest : List Token) : Prop where
  ahead : p'.Ahead rest
  limit : p'.limit = p.limit
  depth : p'.depth = p.depth

/-- Whether the lookahead is the first of the given tokens. -/
def Shows (p : Parser) : List Token → Prop
  | [] => p.lookahead = none
  | token :: _ => ∃ lexeme, p.lookahead = some lexeme ∧ lexeme.token = token

theorem Ahead.shows {p : Parser} {tokens : List Token} (h : p.Ahead tokens) : p.Shows tokens := by
  cases tokens with
  | nil => exact h
  | cons token rest =>
    obtain ⟨lexeme, _, hlookahead, htoken, _⟩ := h
    exact ⟨lexeme, hlookahead, htoken⟩

theorem LeadsTo.trans {p p' p'' : Parser} {ts rest : List Token} (h : p.LeadsTo p' ts)
    (h' : p'.LeadsTo p'' rest) : p.LeadsTo p'' rest :=
  ⟨h'.ahead, h'.limit.trans h.limit, h'.depth.trans h.depth⟩

/-- With the lookahead in sight a step takes its branch by computation. -/
theorem Shows.exists_eq {p : Parser} {token : Token} {rest : List Token}
    (h : p.Shows (token :: rest)) :
    ∃ limit depth start stop cursor, p = ⟨limit, depth, some ⟨token, start, stop⟩, cursor⟩ := by
  obtain ⟨lexeme, hlookahead, rfl⟩ := h
  exact ⟨p.limit, p.depth, lexeme.start, lexeme.stop, p.cursor, by rw [← hlookahead]⟩

/-- The same parser at another depth. -/
def withDepth (depth : Nat) (p : Parser) : Parser :=
  { p with depth := depth }

theorem Ahead.withDepth {p : Parser} {ts : List Token} (h : p.Ahead ts) (depth : Nat) :
    (p.withDepth depth).Ahead ts := by
  cases ts <;> exact h

/-- Reading on takes the first token that the cursor yields. -/
theorem exists_advance_of_yields {p : Parser} {lexemes : List Lexeme}
    (h : p.cursor.Yields lexemes) :
    ∃ p', advance p = .ok () p' ∧ p.LeadsTo p' (lexemes.map Lexeme.token) := by
  cases h with
  | @done _ after hnext =>
    refine ⟨{ p with lookahead := none, cursor := after }, ?_, rfl, rfl, rfl⟩
    simp only [advance, hnext]
  | @more _ after lexeme lexemes hnext hrest =>
    refine ⟨{ p with lookahead := some lexeme, cursor := after }, ?_, ?_, rfl, rfl⟩
    · simp only [advance, hnext]
    · exact ⟨lexeme, lexemes, rfl, rfl, hrest, rfl⟩

theorem exists_advance {p : Parser} {token : Token} {rest : List Token}
    (h : p.Ahead (token :: rest)) : ∃ p', advance p = .ok () p' ∧ p.LeadsTo p' rest := by
  obtain ⟨_, lexemes, -, -, hyields, rfl⟩ := h
  exact exists_advance_of_yields hyields

/-- The token asked for is used up. -/
theorem exists_expect {p : Parser} {token : Token} {rest : List Token}
    (h : p.Ahead (token :: rest)) : ∃ p', expect token p = .ok () p' ∧ p.LeadsTo p' rest := by
  obtain ⟨lexeme, _, hlookahead, htoken, _⟩ := id h
  have hexpect : expect token p = advance p := by
    rw [expect, EStateM.get_bind]
    simp only [hlookahead, htoken, if_true]
  rw [hexpect]
  exact exists_advance h

/-- The loop stops where no operator is strong enough. -/
theorem operatorAhead_of_stops {p : Parser} {tokens : List Token} {least : Level}
    (h : p.Shows tokens) (hstops : Stops least tokens) :
    operatorAhead least p = .ok none p := by
  rw [operatorAhead, EStateM.get_bind]
  -- the end, a token that is no operator, or an operator that is too weak
  cases tokens with
  | nil =>
    have hlookahead : p.lookahead = none := h
    rw [hlookahead]
    rfl
  | cons token rest =>
    obtain ⟨lexeme, hlookahead, rfl⟩ := h
    simp only [hlookahead]
    cases hop : lexeme.token.operator? with
    | none => rfl
    | some op =>
      have hlt : ¬ least.rank ≤ op.level.rank := Nat.not_le.mpr (hstops op hop)
      simp only [hlt, if_false]
      rfl

/-- The loop goes on with an operator that is strong enough. -/
theorem operatorAhead_of_le {p : Parser} {token : Token} {rest : List Token} {least : Level}
    {op : Operator} (h : p.Shows (token :: rest)) (hop : token.operator? = some op)
    (hle : least.rank ≤ op.level.rank) :
    ∃ position, operatorAhead least p = .ok (some (op, position)) p := by
  obtain ⟨lexeme, hlookahead, rfl⟩ := h
  rw [operatorAhead, EStateM.get_bind]
  simp only [hlookahead, hop, hle, if_true]
  exact ⟨lexeme.start, rfl⟩

/-- The loop either stops or has an operator that is strong enough ahead. -/
theorem operatorAhead_cases {p : Parser} {tokens : List Token} (h : p.Shows tokens)
    (least : Level) :
    (Stops least tokens ∧ operatorAhead least p = .ok none p) ∨
    ∃ token rest op position, tokens = token :: rest ∧ token.operator? = some op ∧
      least.rank ≤ op.level.rank ∧ operatorAhead least p = .ok (some (op, position)) p := by
  by_cases hstops : Stops least tokens
  · exact .inl ⟨hstops, operatorAhead_of_stops h hstops⟩
  · right
    simp only [Stops, Classical.not_forall, Nat.not_lt] at hstops
    obtain ⟨op, hop, hlevel⟩ := hstops
    cases tokens with
    | nil => exact nomatch hop
    | cons token rest =>
      obtain ⟨position, hahead⟩ := operatorAhead_of_le h hop hlevel
      exact ⟨token, rest, op, position, rfl, hop, hlevel, hahead⟩

theorem checkHeight_of_le {p : Parser} {height position : Nat} (h : height ≤ p.limit) :
    checkHeight height position p = .ok () p := by
  rw [checkHeight, EStateM.get_bind]
  simp only [Nat.not_lt.mpr h, if_false]
  rfl

/-! ## The parts of an operand -/

variable {E : Level → Parsing Parsed} {p : Parser} {token : Token} {rest : List Token}

theorem operand_of_operand? {tree : Expr} (h : p.Shows (token :: rest))
    (htree : token.operand? = some tree) : operand E p = leaf tree p := by
  obtain ⟨_, _, _, _, _, rfl⟩ := h.exists_eq
  cases token with
  | integer | real | identifier =>
    cases htree
    rfl
  | keyword keyword =>
    cases keyword with
    | trueWord | falseWord =>
      cases htree
      rfl
    | _ => exact nomatch htree
  | mark mark => exact nomatch htree

theorem operand_of_leftParen (h : p.Shows (.mark .leftParen :: rest)) :
    operand E p = (do
      advance
      let inner ← E .or
      expect (.mark .rightParen)
      return inner : Parsing Parsed) p := by
  obtain ⟨_, _, _, _, _, rfl⟩ := h.exists_eq
  rfl

theorem operand_of_minus (h : p.Shows (.mark .minus :: rest)) :
    operand E p = (do
      advance
      let signed ← E .unary
      return signed.negated : Parsing Parsed) p := by
  obtain ⟨_, _, _, _, _, rfl⟩ := h.exists_eq
  rfl

theorem operand_of_plus (h : p.Shows (.mark .plus :: rest)) :
    operand E p = (do
      advance
      E .unary : Parsing Parsed) p := by
  obtain ⟨_, _, _, _, _, rfl⟩ := h.exists_eq
  rfl

/-- Reads a conditional whose first word is at the given position. -/
def conditional (E : Level → Parsing Parsed) (position : Nat) : Parsing Parsed := do
  advance
  let condition ← E .or
  expect (.keyword .thenWord)
  let whenTrue ← E .or
  expect (.keyword .elseWord)
  let whenFalse ← E .or
  checkHeight (Parsed.cond condition whenTrue whenFalse).height position
  return Parsed.cond condition whenTrue whenFalse

theorem exists_operand_of_ifWord (h : p.Shows (.keyword .ifWord :: rest)) :
    ∃ position, operand E p = conditional E position p := by
  obtain ⟨_, _, start, _, _, rfl⟩ := h.exists_eq
  exact ⟨start, rfl⟩

/-- Without any tokens there is no operand. -/
theorem operand_of_nil (h : p.Shows []) :
    operand E p = .error (.unexpectedEnd .expression) p := by
  have hlookahead : p.lookahead = none := h
  rw [operand, EStateM.get_bind, hlookahead]
  rfl

/-- No other token starts an operand. -/
theorem operand_of_not_startsOperand {lexeme : Lexeme} (h : p.lookahead = some lexeme)
    (hstart : ¬ lexeme.token.StartsOperand) :
    operand E p = .error (.unexpectedToken lexeme.token lexeme.start) p := by
  obtain ⟨token, start, stop⟩ := lexeme
  rw [operand, EStateM.get_bind, h]
  -- every token that starts an operand is excluded, and the others end up in the same branch
  cases token with
  | integer | real | identifier => exact absurd (.inl ⟨_, rfl⟩) hstart
  | keyword keyword =>
    cases keyword with
    | trueWord | falseWord => exact absurd (.inl ⟨_, rfl⟩) hstart
    | ifWord => exact absurd (by simp [Token.StartsOperand]) hstart
    | _ => rfl
  | mark mark =>
    cases mark with
    | leftParen | minus | plus => exact absurd (by simp [Token.StartsOperand]) hstart
    | _ => rfl

/-- An expression is an operand and what the loop joins to it, one level deeper. -/
theorem expression_succ (room : Nat) (least : Level) (p : Parser) :
    expression (room + 1) least p = (do
      let first ← operand (expression room)
      let whole ← climb (expression room) least ((← get).limit - first.height) first
      modify fun p => p.withDepth (p.depth - 1)
      return whole : Parsing Parsed) (p.withDepth (p.depth + 1)) := by
  rw [expression, EStateM.modify_bind]
  rfl

end Parser

/-! ## Where a task can be done, the parser does it -/

/-- The loop only adds to its left operand. -/
theorem Reads.depth_le {task : Task} {need : Nat} {ts rest : List Token} {tree : Expr}
    (h : Reads task need ts tree rest) :
    ∀ least left, task = .climb least left → left.depth ≤ tree.depth := by
  -- only the loop has a left operand, and each join puts it one level deeper
  induction h with
  | stop h =>
    intro least left htask
    cases htask
    exact Nat.le_refl _
  | join _ _ _ _ _ ihc =>
    intro least left htask
    cases htask
    have hle := ihc _ _ rfl
    simp only [Expr.depth] at hle
    omega
  | _ =>
    intro least left htask
    cases htask

/-- A tree with its height. -/
def Expr.parsed (tree : Expr) : Parsed :=
  ⟨tree, tree.depth⟩

namespace Task

/-- The parser's own step for a task, where `room` expressions may be nested.  The loop may have any
    number of operators to spare that suffices up to the limit. -/
def Succeeds (room : Nat) (p : Parser) (tree : Expr) (rest : List Token) : Task → Prop
  | .operand => ∃ p', Parser.operand (Parser.expression room) p = .ok tree.parsed p' ∧
      p.LeadsTo p' rest
  | .climb least left => ∀ spare, p.limit ≤ spare + left.depth →
      ∃ p', Parser.climb (Parser.expression room) least spare left.parsed p = .ok tree.parsed p' ∧
        p.LeadsTo p' rest
  | .expression least => ∃ p', Parser.expression room least p = .ok tree.parsed p' ∧
      p.LeadsTo p' rest

/-- Whether a task succeeds on the given tokens wherever the limit allows its tree. -/
def SucceedsOn (task : Task) (room : Nat) (ts : List Token) (tree : Expr) (rest : List Token) :
    Prop :=
  ∀ ⦃p : Parser⦄, p.Ahead ts → tree.depth ≤ p.limit → task.Succeeds room p tree rest

namespace SucceedsOn

open Formula.Parser

variable {room : Nat} {least : Level} {ts rest : List Token} {tree : Expr}

theorem operand {token : Token} (h : token.operand? = some tree) :
    Task.operand.SucceedsOn room (token :: rest) tree rest := by
  intro p hp _
  obtain ⟨p₁, hadvance, h₁⟩ := exists_advance hp
  refine ⟨p₁, ?_, h₁⟩
  rw [operand_of_operand? hp.shows h, leaf, EStateM.bind_of_ok hadvance, Expr.parsed,
    Token.depth_of_operand? h]
  rfl

theorem parenthesized
    (h : (Task.expression .or).SucceedsOn room ts tree (.mark .rightParen :: rest)) :
    Task.operand.SucceedsOn room (.mark .leftParen :: ts) tree rest := by
  intro p hp hdepth
  obtain ⟨p₁, hadvance, h₁⟩ := exists_advance hp
  obtain ⟨p₂, hinner, h₂⟩ := h h₁.ahead (by rwa [h₁.limit])
  obtain ⟨p₃, hexpect, h₃⟩ := exists_expect h₂.ahead
  refine ⟨p₃, ?_, (h₁.trans h₂).trans h₃⟩
  rw [operand_of_leftParen hp.shows, EStateM.bind_of_ok hadvance, EStateM.bind_of_ok hinner,
    EStateM.bind_of_ok hexpect]
  rfl

theorem minus (h : (Task.expression .unary).SucceedsOn room ts tree rest) :
    Task.operand.SucceedsOn room (.mark .minus :: ts) tree.negated rest := by
  intro p hp hdepth
  -- a sign toggles a flag, and no tree gets higher by that
  have hnegated : tree.negated.depth = tree.depth := Expr.depth_withSign _ _
  obtain ⟨p₁, hadvance, h₁⟩ := exists_advance hp
  obtain ⟨p₂, hsigned, h₂⟩ := h h₁.ahead (by rwa [h₁.limit, ← hnegated])
  refine ⟨p₂, ?_, h₁.trans h₂⟩
  rw [operand_of_minus hp.shows, EStateM.bind_of_ok hadvance, EStateM.bind_of_ok hsigned]
  simp only [Expr.parsed, hnegated]
  rfl

theorem plus (h : (Task.expression .unary).SucceedsOn room ts tree rest) :
    Task.operand.SucceedsOn room (.mark .plus :: ts) tree rest := by
  intro p hp hdepth
  obtain ⟨p₁, hadvance, h₁⟩ := exists_advance hp
  obtain ⟨p₂, hsigned, h₂⟩ := h h₁.ahead (by rwa [h₁.limit])
  refine ⟨p₂, ?_, h₁.trans h₂⟩
  rw [operand_of_plus hp.shows, EStateM.bind_of_ok hadvance]
  exact hsigned

theorem conditional {cs fs : List Token} {condition whenTrue whenFalse : Expr}
    (hc : (Task.expression .or).SucceedsOn room cs condition (.keyword .thenWord :: ts))
    (ht : (Task.expression .or).SucceedsOn room ts whenTrue (.keyword .elseWord :: fs))
    (hf : (Task.expression .or).SucceedsOn room fs whenFalse rest) :
    Task.operand.SucceedsOn room (.keyword .ifWord :: cs) (.cond false condition whenTrue whenFalse)
      rest := by
  intro p hp hdepth
  have hbranches : condition.depth ≤ p.limit ∧ whenTrue.depth ≤ p.limit ∧
      whenFalse.depth ≤ p.limit := by
    simp only [Expr.depth] at hdepth
    omega
  -- each step starts with what the step before has left
  obtain ⟨p₁, hadvance, h₁⟩ := exists_advance hp
  obtain ⟨p₂, hc, h₂⟩ := hc h₁.ahead (by rw [h₁.limit]; exact hbranches.1)
  obtain ⟨p₃, hthen, h₃⟩ := exists_expect h₂.ahead
  have h₁₃ := (h₁.trans h₂).trans h₃
  obtain ⟨p₄, ht, h₄⟩ := ht h₃.ahead (by rw [h₁₃.limit]; exact hbranches.2.1)
  obtain ⟨p₅, helse, h₅⟩ := exists_expect h₄.ahead
  have h₁₅ := (h₁₃.trans h₄).trans h₅
  obtain ⟨p₆, hf, h₆⟩ := hf h₅.ahead (by rw [h₁₅.limit]; exact hbranches.2.2)
  have h₁₆ := h₁₅.trans h₆
  obtain ⟨position, hoperand⟩ := exists_operand_of_ifWord hp.shows
  -- the tree is within the limit, and its height is its depth
  have hheight : (Parsed.cond condition.parsed whenTrue.parsed whenFalse.parsed).height ≤
      p₆.limit := by
    rw [h₁₆.limit]
    exact hdepth
  have hcheck : checkHeight _ position p₆ = .ok () p₆ := checkHeight_of_le hheight
  refine ⟨p₆, ?_, h₁₆⟩
  rw [hoperand, Parser.conditional, EStateM.bind_of_ok hadvance, EStateM.bind_of_ok hc,
    EStateM.bind_of_ok hthen, EStateM.bind_of_ok ht, EStateM.bind_of_ok helse,
    EStateM.bind_of_ok hf]
  exact EStateM.bind_of_ok hcheck _

theorem stop (h : Stops least rest) : (Task.climb least tree).SucceedsOn room rest tree rest := by
  intro p hp _ spare _
  refine ⟨p, ?_, hp, rfl, rfl⟩
  rw [Parser.climb, EStateM.bind_of_ok (operatorAhead_of_stops hp.shows h)]
  rfl

theorem join {token : Token} {op : Operator} {left right : Expr} {after : List Token}
    (hop : token.operator? = some op) (hlevel : least.rank ≤ op.level.rank)
    (hr : (Task.expression op.level.ofRightOperand).SucceedsOn room ts right after)
    (hc : (Task.climb least (.binary false op left right)).SucceedsOn room after tree rest)
    (hjoined : (Expr.binary false op left right).depth ≤ tree.depth) :
    (Task.climb least left).SucceedsOn room (token :: ts) tree rest := by
  intro p hp hdepth spare hspare
  simp only [Expr.depth] at hjoined
  -- the joined tree is within the limit, so the loop had a level to spare
  obtain ⟨spare, rfl⟩ : ∃ spare', spare = spare' + 1 := ⟨spare - 1, by omega⟩
  obtain ⟨position, hahead⟩ := operatorAhead_of_le hp.shows hop hlevel
  obtain ⟨p₁, hadvance, h₁⟩ := exists_advance hp
  obtain ⟨p₂, hright, h₂⟩ := hr h₁.ahead (by rw [h₁.limit]; omega)
  have h₁₂ := h₁.trans h₂
  have hcheck : checkHeight (Parsed.join op left.parsed right.parsed).height position p₂ =
      .ok () p₂ :=
    checkHeight_of_le (by rw [h₁₂.limit]; simp only [Parsed.join, Expr.parsed]; omega)
  obtain ⟨p₃, hwhole, h₃⟩ := hc h₂.ahead (by rw [h₁₂.limit]; exact hdepth) spare
    (by rw [h₁₂.limit]; simp only [Expr.depth]; omega)
  refine ⟨p₃, ?_, h₁₂.trans h₃⟩
  rw [Parser.climb, EStateM.bind_of_ok hahead]
  simp only
  rw [EStateM.bind_of_ok hadvance, EStateM.bind_of_ok hright, EStateM.bind_of_ok hcheck]
  exact hwhole

/-- One level of the room is for the expression itself. -/
theorem expression {first : Expr} {after : List Token}
    (ho : Task.operand.SucceedsOn room ts first after)
    (hc : (Task.climb least first).SucceedsOn room after tree rest)
    (hfirst : first.depth ≤ tree.depth) :
    (Task.expression least).SucceedsOn (room + 1) ts tree rest := by
  intro p hp hdepth
  obtain ⟨p₁, ho, h₁⟩ := ho (hp.withDepth (p.depth + 1)) (Nat.le_trans hfirst hdepth)
  have hlimit : p₁.limit = p.limit := h₁.limit
  -- the loop starts with all levels to spare that the first operand leaves
  obtain ⟨p₂, hwhole, h₂⟩ := hc h₁.ahead (by rw [hlimit]; exact hdepth)
    (p₁.limit - first.depth) (by omega)
  have hdepth₂ : p₂.depth = p.depth + 1 := h₂.depth.trans h₁.depth
  refine ⟨p₂.withDepth (p₂.depth - 1), ?_, h₂.ahead.withDepth _, h₂.limit.trans hlimit, ?_⟩
  · rw [expression_succ, EStateM.bind_of_ok ho, EStateM.get_bind]
    exact EStateM.bind_of_ok hwhole _
  · -- the level that was entered is left
    show p₂.depth - 1 = p.depth
    omega

end SucceedsOn

end Task

/-- A task succeeds if there is room for its nesting and the limit allows its tree. -/
theorem Reads.succeedsOn {task : Task} {need : Nat} {ts rest : List Token} {tree : Expr}
    (h : Reads task need ts tree rest) {room : Nat} (hroom : need ≤ room) :
    task.SucceedsOn room ts tree rest := by
  -- on the reading; a nested expression has one less room, as it needs one less
  induction h generalizing room with
  | operand h => exact .operand h
  | parenthesized _ ih => exact .parenthesized (ih hroom)
  | minus _ ih => exact .minus (ih hroom)
  | plus _ ih => exact .plus (ih hroom)
  | conditional _ _ _ ihc iht ihf =>
    obtain ⟨hroom₁, hroom₂₃⟩ := Nat.max_le.mp hroom
    obtain ⟨hroom₂, hroom₃⟩ := Nat.max_le.mp hroom₂₃
    exact .conditional (ihc hroom₁) (iht hroom₂) (ihf hroom₃)
  | stop h => exact .stop h
  | join hop hlevel _ hc ihr ihc =>
    obtain ⟨hroom₁, hroom₂⟩ := Nat.max_le.mp hroom
    exact .join hop hlevel (ihr hroom₁) (ihc hroom₂) (hc.depth_le _ _ rfl)
  | expression _ hc iho ihc =>
    obtain ⟨room, rfl⟩ : ∃ room', room = room' + 1 := ⟨room - 1, by omega⟩
    obtain ⟨hroom₁, hroom₂⟩ := Nat.max_le.mp (Nat.le_of_succ_le_succ hroom)
    exact .expression (iho hroom₁) (ihc hroom₂) (hc.depth_le _ _ rfl)

end Formula
