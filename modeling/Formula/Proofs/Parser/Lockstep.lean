import Mathlib.Control.Monad.Basic
import Formula.Parser.Basic
import Formula.Proofs.Steps

/-!
# Parsers of two sources

A parser decides by tokens, and it only hands positions on.  So two parsers go in step if the
cursors that they read from give the same tokens, whatever else differs between their sources.
`Simulates` is what there is to show about the cursors: a relation `R` between positions and a
relation `Q` between cursors, which one call of `next` keeps.

## Key results

* `inStep_expression`, `inStep_parse`: the parsers go in step
* `Expr.corresponds_parseWithin`: they give the same tree, or errors that differ in positions only,
  and these are related
-/

namespace Formula

/-! ## What differs in positions only -/

/-- The same error at another position. -/
def ParseError.withPosition (position : Nat) : ParseError → ParseError
  | .unexpectedToken token _ => .unexpectedToken token position
  | .unexpectedEnd expected => .unexpectedEnd expected
  | .unexpectedCharacter character _ => .unexpectedCharacter character position
  | .invalidNumber literal _ => .invalidNumber literal position
  | .nestingTooDeep limit _ => .nestingTooDeep limit position

/-- Whether two errors are the same up to their positions, and these are related. -/
def ParseError.Corresponds (R : Nat → Nat → Prop) (e e' : ParseError) : Prop :=
  e.withPosition 0 = e'.withPosition 0 ∧ Option.Rel R e.position? e'.position?

/-- Whether two lexemes have the same token and related places. -/
structure Lexeme.Corresponds (R : Nat → Nat → Prop) (lexeme lexeme' : Lexeme) : Prop where
  token : lexeme.token = lexeme'.token
  start : R lexeme.start lexeme'.start

section Lockstep

variable (R : Nat → Nat → Prop) (Q : Cursor → Cursor → Prop)

/-- Whether two calls give the same up to positions, and leave related cursors behind. -/
inductive Cursor.SameResult : EStateM.Result ParseError Cursor (Option Lexeme) →
    EStateM.Result ParseError Cursor (Option Lexeme) → Prop
  | token {lexeme lexeme' after after'} (h : lexeme.Corresponds R lexeme') (hQ : Q after after') :
      SameResult (.ok (some lexeme) after) (.ok (some lexeme') after')
  | nothing {after after'} (hQ : Q after after') : SameResult (.ok none after) (.ok none after')
  | failure {e e' after after'} (h : e.Corresponds R e') :
      SameResult (.error e after) (.error e' after')

/-- Whether related cursors are at related positions, and a call keeps them related. -/
structure Simulates : Prop where
  position : ∀ {c c'}, Q c c' → R c.position c'.position
  next : ∀ {c c'}, Q c c' → Cursor.SameResult R Q (Cursor.next c) (Cursor.next c')

namespace Parser

/-- Whether two parsers look alike up to positions. -/
structure Alike (p p' : Parser) : Prop where
  limit : p.limit = p'.limit
  depth : p.depth = p'.depth
  lookahead : Option.Rel (Lexeme.Corresponds R) p.lookahead p'.lookahead
  cursor : Q p.cursor p'.cursor

variable {α β : Type}

/-- Whether two outcomes are related values in parsers that look alike, or errors that
    correspond. -/
inductive SameOutcome (S : α → α → Prop) :
    EStateM.Result ParseError Parser α → EStateM.Result ParseError Parser α → Prop
  | ok {a a' p p'} (ha : S a a') (h : Alike R Q p p') : SameOutcome S (.ok a p) (.ok a' p')
  | error {e e' p p'} (h : e.Corresponds R e') : SameOutcome S (.error e p) (.error e' p')

/-- Whether two steps have the same outcome in parsers that look alike. -/
def InStep (S : α → α → Prop) (step step' : Parsing α) : Prop :=
  ∀ p p', Alike R Q p p' → SameOutcome R Q S (step p) (step' p')

variable {R Q} {S : α → α → Prop} {T : β → β → Prop}

/-- Parsers that look alike have no token ahead, or the same one at related places. -/
theorem Alike.lookahead_cases {p p' : Parser} (h : Alike R Q p p') :
    (p.lookahead = none ∧ p'.lookahead = none) ∨
      ∃ token start stop start' stop', p.lookahead = some ⟨token, start, stop⟩ ∧
        p'.lookahead = some ⟨token, start', stop'⟩ ∧ R start start' := by
  have hlookahead := h.lookahead
  generalize p.lookahead = lexeme? at hlookahead
  generalize p'.lookahead = lexeme?' at hlookahead
  cases hlookahead with
  | none => exact .inl ⟨rfl, rfl⟩
  | @some lexeme lexeme' hlexeme =>
    obtain ⟨token, start, stop⟩ := lexeme
    obtain ⟨token', start', stop'⟩ := lexeme'
    obtain rfl : token = token' := hlexeme.token
    exact .inr ⟨token, start, stop, start', stop', rfl, rfl, hlexeme.start⟩

/-! ## Steps and their sequences -/

theorem inStep_pure {a a' : α} (h : S a a') : InStep R Q S (pure a) (pure a') :=
  fun _ _ hp => .ok h hp

theorem inStep_throw {e e' : ParseError} (h : e.Corresponds R e') :
    InStep R Q S (throw e : Parsing α) (throw e') :=
  fun _ _ _ => .error h

theorem InStep.bind {step step' : Parsing α} {f f' : α → Parsing β} (h : InStep R Q S step step')
    (hf : ∀ a a', S a a' → InStep R Q T (f a) (f' a')) :
    InStep R Q T (step >>= f) (step' >>= f') := by
  intro p p' hp
  have hfirst := h p p' hp
  simp only [Bind.bind, EStateM.bind]
  generalize step p = result at hfirst
  generalize step' p' = result' at hfirst
  cases hfirst with
  | ok ha hq => exact hf _ _ ha _ _ hq
  | error he => exact .error he

/-- What follows a step without a result. -/
theorem InStep.andThen {step step' : Parsing α} {next next' : Parsing β}
    (h : InStep R Q Eq step step') (hnext : InStep R Q T next next') :
    InStep R Q T (step >>= fun _ => next) (step' >>= fun _ => next') :=
  h.bind fun _ _ _ => hnext

/-- What follows a look at the parser sees parsers that look alike. -/
theorem inStep_get {f f' : Parser → Parsing α}
    (h : ∀ p p', Alike R Q p p' → InStep R Q S (f p) (f' p')) :
    InStep R Q S (get >>= f) (get >>= f') :=
  fun p p' hp => h p p' hp p p' hp

theorem inStep_modifyDepth (f : Nat → Nat) :
    InStep R Q Eq (modify fun p => { p with depth := f p.depth })
      (modify fun p => { p with depth := f p.depth }) := by
  intro p p' hp
  refine .ok rfl ⟨hp.limit, ?_, hp.lookahead, hp.cursor⟩
  show f p.depth = f p'.depth
  rw [hp.depth]

theorem inStep_unexpected {lexeme lexeme' : Lexeme} (h : lexeme.Corresponds R lexeme') :
    InStep R Q S (unexpected lexeme : Parsing α) (unexpected lexeme') := by
  apply inStep_throw
  constructor
  · simp only [ParseError.withPosition, h.token]
  · exact .some h.start

theorem inStep_unexpectedEnd (expected : Expected) :
    InStep R Q S (throw (.unexpectedEnd expected) : Parsing α) (throw (.unexpectedEnd expected)) :=
  inStep_throw ⟨rfl, .none⟩

theorem inStep_tooDeep {position position' : Nat} (h : R position position') :
    InStep R Q S (tooDeep position : Parsing α) (tooDeep position') := by
  refine inStep_get fun p p' hp => ?_
  rw [hp.limit]
  exact inStep_throw ⟨rfl, .some h⟩

theorem inStep_checkHeight (height : Nat) {position position' : Nat} (h : R position position') :
    InStep R Q Eq (checkHeight height position) (checkHeight height position') := by
  refine inStep_get fun p p' hp => ?_
  rw [hp.limit]
  by_cases hlt : p'.limit < height
  · rw [if_pos hlt, if_pos hlt]
    exact inStep_tooDeep h
  · rw [if_neg hlt, if_neg hlt]
    exact inStep_pure rfl

/-! ## Reading on -/

section Reading

variable (hsimulates : Simulates R Q)

include hsimulates

theorem inStep_advance : InStep R Q Eq advance advance := by
  intro p p' hp
  have hnext := hsimulates.next hp.cursor
  unfold advance
  generalize Cursor.next p.cursor = result at hnext
  generalize Cursor.next p'.cursor = result' at hnext
  cases hnext with
  | token h hQ => exact .ok rfl ⟨hp.limit, hp.depth, .some h, hQ⟩
  | nothing hQ => exact .ok rfl ⟨hp.limit, hp.depth, .none, hQ⟩
  | failure h => exact .error h

theorem inStep_expect (token : Token) : InStep R Q Eq (expect token) (expect token) := by
  refine inStep_get fun p p' hp => ?_
  rcases hp.lookahead_cases with ⟨h, h'⟩ | ⟨found, start, stop, start', stop', h, h', hstart⟩
  · rw [h, h']
    exact inStep_unexpectedEnd _
  · rw [h, h']
    dsimp only
    by_cases hfound : found = token
    · rw [if_pos hfound, if_pos hfound]
      exact inStep_advance hsimulates
    · rw [if_neg hfound, if_neg hfound]
      exact inStep_unexpected ⟨rfl, hstart⟩

theorem inStep_leaf (tree : Expr) : InStep R Q Eq (leaf tree) (leaf tree) :=
  (inStep_advance hsimulates).andThen (inStep_pure rfl)

omit hsimulates in
/-- The same operator is ahead, at related places. -/
theorem inStep_operatorAhead (least : Level) :
    InStep R Q (Option.Rel fun ahead ahead' => ahead.1 = ahead'.1 ∧ R ahead.2 ahead'.2)
      (operatorAhead least) (operatorAhead least) := by
  refine inStep_get fun p p' hp => ?_
  -- both parsers see nothing, or the same token at places that correspond
  rcases hp.lookahead_cases with ⟨h, h'⟩ | ⟨token, start, stop, start', stop', h, h', hstart⟩
  · rw [h, h']
    exact inStep_pure .none
  · rw [h, h']
    dsimp only
    cases token.operator? with
    | none => exact inStep_pure .none
    | some op =>
      dsimp only
      by_cases hle : least.rank ≤ op.level.rank
      · rw [if_pos hle, if_pos hle]
        exact inStep_pure (.some ⟨rfl, hstart⟩)
      · rw [if_neg hle, if_neg hle]
        exact inStep_pure .none

/-! ## Expressions -/

variable {E : Level → Parsing Parsed}

/-- Operands go in step if the expressions inside them do. -/
theorem inStep_operand (hE : ∀ level, InStep R Q Eq (E level) (E level)) :
    InStep R Q Eq (operand E) (operand E) := by
  have hadvance := inStep_advance hsimulates
  refine inStep_get fun p p' hp => ?_
  -- so both take the branch of the same token
  rcases hp.lookahead_cases with ⟨h, h'⟩ | ⟨token, start, stop, start', stop', h, h', hstart⟩
  · rw [h, h']
    exact inStep_unexpectedEnd _
  · rw [h, h']
    cases token with
    | integer | real | identifier => exact inStep_leaf hsimulates _
    | keyword keyword =>
      cases keyword with
      | trueWord | falseWord => exact inStep_leaf hsimulates _
      | ifWord =>
        -- part by part: the trees are equal, the places correspond
        refine hadvance.andThen ((hE .or).bind ?_)
        rintro condition _ rfl
        refine (inStep_expect hsimulates _).andThen ((hE .or).bind ?_)
        rintro whenTrue _ rfl
        refine (inStep_expect hsimulates _).andThen ((hE .or).bind ?_)
        rintro whenFalse _ rfl
        exact (inStep_checkHeight _ hstart).andThen (inStep_pure rfl)
      | _ => exact inStep_unexpected ⟨rfl, hstart⟩
    | mark mark =>
      cases mark with
      | leftParen =>
        refine hadvance.andThen ((hE .or).bind ?_)
        rintro inner _ rfl
        exact (inStep_expect hsimulates _).andThen (inStep_pure rfl)
      | minus =>
        refine hadvance.andThen ((hE .unary).bind ?_)
        rintro signed _ rfl
        exact inStep_pure rfl
      | plus => exact hadvance.andThen (hE .unary)
      | _ => exact inStep_unexpected ⟨rfl, hstart⟩

theorem inStep_climb (hE : ∀ level, InStep R Q Eq (E level) (E level)) (least : Level)
    (spare : Nat) (left : Parsed) :
    InStep R Q Eq (climb E least spare left) (climb E least spare left) := by
  -- the loop by the levels that are left for it
  induction spare generalizing left with
  | zero =>
    rw [climb]
    refine (inStep_operatorAhead least).bind fun ahead? ahead?' hahead => ?_
    cases hahead with
    | none => exact inStep_pure rfl
    | @some ahead ahead' h =>
      obtain ⟨op, position⟩ := ahead
      obtain ⟨op', position'⟩ := ahead'
      obtain ⟨rfl, hposition⟩ := h
      -- no level is left, so both report the operator as too deep
      refine (inStep_advance hsimulates).andThen ((hE _).bind fun right right' _ => ?_)
      exact inStep_tooDeep hposition
  | succ spare ih =>
    rw [climb]
    refine (inStep_operatorAhead least).bind fun ahead? ahead?' hahead => ?_
    cases hahead with
    | none => exact inStep_pure rfl
    | @some ahead ahead' h =>
      obtain ⟨op, position⟩ := ahead
      obtain ⟨op', position'⟩ := ahead'
      obtain ⟨rfl, hposition⟩ := h
      -- both join the same operator, and the loop goes on with the same tree
      refine (inStep_advance hsimulates).andThen ((hE _).bind ?_)
      rintro right _ rfl
      exact (inStep_checkHeight _ hposition).andThen (ih _)

/-- Expressions go in step under every limit. -/
theorem inStep_expression (room : Nat) (least : Level) :
    InStep R Q Eq (expression room least) (expression room least) := by
  -- on the room: without any, both fail before they read
  induction room generalizing least with
  | zero =>
    rw [expression]
    refine (inStep_modifyDepth (· + 1)).andThen (inStep_get fun p p' hp => ?_)
    exact inStep_tooDeep (hsimulates.position hp.cursor)
  | succ room ih =>
    rw [expression]
    refine (inStep_modifyDepth (· + 1)).andThen ((inStep_operand hsimulates ih).bind ?_)
    rintro first _ rfl
    refine inStep_get fun p p' hp => ?_
    rw [hp.limit]
    refine (inStep_climb hsimulates ih _ _ _).bind ?_
    rintro whole _ rfl
    exact (inStep_modifyDepth (· - 1)).andThen (inStep_pure rfl)

theorem inStep_parse : InStep R Q Eq parse parse := by
  refine (inStep_advance hsimulates).andThen (inStep_get fun p p' hp => ?_)
  rw [hp.limit, hp.depth]
  refine (inStep_expression hsimulates _ .or).bind ?_
  rintro whole _ rfl
  refine inStep_get fun q q' hq => ?_
  rcases hq.lookahead_cases with ⟨h, h'⟩ | ⟨token, start, stop, start', stop', h, h', hstart⟩
  · rw [h, h']
    exact inStep_pure rfl
  · rw [h, h']
    exact inStep_unexpected ⟨rfl, hstart⟩

end Reading

end Parser

end Lockstep

/-! ## Whole sources -/

/-- Sources whose cursors are related are parsed alike. -/
theorem Expr.corresponds_parseWithin {R : Nat → Nat → Prop} {Q : Cursor → Cursor → Prop}
    (hsimulates : Simulates R Q) (limit : Nat) {source source' : String}
    (h : Q (.ofSource source) (.ofSource source')) :
    (∃ tree, parseWithin limit source = .ok tree ∧ parseWithin limit source' = .ok tree) ∨
      ∃ e e', parseWithin limit source = .error e ∧ parseWithin limit source' = .error e' ∧
        e.Corresponds R e' := by
  have hstart : Parser.Alike R Q (.start limit (.ofSource source))
      (.start limit (.ofSource source')) := ⟨rfl, rfl, .none, h⟩
  have hparse := Parser.inStep_parse hsimulates _ _ hstart
  unfold parseWithin
  generalize Parser.parse (.start limit (.ofSource source)) = result at hparse
  generalize Parser.parse (.start limit (.ofSource source')) = result' at hparse
  -- either way the answers stand in the relation
  cases hparse with
  | @ok tree _ _ _ ha _ =>
    obtain rfl := ha
    exact .inl ⟨tree, rfl, rfl⟩
  | @error e e' _ _ h => exact .inr ⟨e, e', rfl, rfl, h⟩

end Formula
