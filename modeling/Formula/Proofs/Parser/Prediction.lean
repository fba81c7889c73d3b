import Formula.Proofs.Parser.Climbing
import Formula.Proofs.Token.Stream

/-!
# Where reading fails

A `Reader` is a part of the parser, seen as a relation between the tokens ahead of it and those that
it leaves.  Tokens are *viable* for a reader if it reads all of them in some text, and they *block*
it if there is no text that starts with them and that it reads.

The parser never goes back, so it fails at the first token with which the tokens so far block it.
`Reader.Fails` says so for each kind of error.  The readers of the parser are predictive: what they
read depends on the tokens that they use up and on the operator behind them.  So a failure of a
part is one of the whole, whether the part comes first or behind another one
(`Fails.andThen_left`, `Fails.andThen_right`).
-/

namespace Formula

/-! ## What is read, whatever follows -/

/-- Whether tokens start with the same operator as others or with none, so that no loop goes on with
    them that stops at the others. -/
def StopsLike (rest rest' : List Token) : Prop :=
  ∀ op, operatorAhead? rest' = some op → operatorAhead? rest = some op

theorem stopsLike_of_none {rest rest' : List Token} (h : operatorAhead? rest' = none) :
    StopsLike rest rest' := by
  intro op hop
  rw [h] at hop
  exact nomatch hop

namespace StopsLike

variable {rest rest' : List Token}

theorem stops (h : StopsLike rest rest') {least : Level} (hstops : Stops least rest) :
    Stops least rest' :=
  fun op hop => hstops op (h op hop)

/-- With the same tokens before them, both start alike. -/
theorem append (h : StopsLike rest rest') (used : List Token) :
    StopsLike (used ++ rest) (used ++ rest') := by
  cases used with
  | nil => exact h
  | cons token used => exact fun _ hop => hop

end StopsLike

/-- A task uses up tokens from the start, and would read them also before other tokens. -/
theorem Reads.exists_used {task : Task} {need : Nat} {ts rest : List Token} {tree : Expr}
    (h : Reads task need ts tree rest) :
    ∃ used, ts = used ++ rest ∧
      ∀ rest', StopsLike rest rest' → Reads task need (used ++ rest') tree rest' := by
  -- on the reading: what it uses are the tokens of its parts, and the last part sees the rest
  induction h with
  | @operand token _ _ h => exact ⟨[token], rfl, fun _ _ => .operand h⟩
  | parenthesized _ ih =>
    obtain ⟨used, rfl, hused⟩ := ih
    refine ⟨.mark .leftParen :: (used ++ [.mark .rightParen]), by simp, fun rest' _ => ?_⟩
    have hinner := hused (.mark .rightParen :: rest') (stopsLike_of_none rfl)
    simpa using Reads.parenthesized hinner
  | minus _ ih =>
    obtain ⟨used, rfl, hused⟩ := ih
    exact ⟨.mark .minus :: used, rfl, fun rest' hrest' => .minus (hused rest' hrest')⟩
  | plus _ ih =>
    obtain ⟨used, rfl, hused⟩ := ih
    exact ⟨.mark .plus :: used, rfl, fun rest' hrest' => .plus (hused rest' hrest')⟩
  | conditional _ _ _ ihc iht ihf =>
    obtain ⟨cs, rfl, hcs⟩ := ihc
    obtain ⟨ts, rfl, hts⟩ := iht
    obtain ⟨fs, rfl, hfs⟩ := ihf
    refine ⟨.keyword .ifWord :: (cs ++ .keyword .thenWord :: (ts ++ .keyword .elseWord :: fs)),
      by simp, fun rest' hrest' => ?_⟩
    have hc := hcs (.keyword .thenWord :: (ts ++ .keyword .elseWord :: (fs ++ rest')))
      (stopsLike_of_none rfl)
    have ht := hts (.keyword .elseWord :: (fs ++ rest')) (stopsLike_of_none rfl)
    simpa using Reads.conditional hc ht (hfs rest' hrest')
  | stop h => exact ⟨[], rfl, fun _ hrest' => .stop (hrest'.stops h)⟩
  | @join _ _ token _ _ _ _ _ _ _ _ hop hlevel _ _ ihr ihc =>
    obtain ⟨used, rfl, hused⟩ := ihr
    obtain ⟨used', rfl, hused'⟩ := ihc
    refine ⟨token :: (used ++ used'), by simp, fun rest' hrest' => ?_⟩
    -- the right operand stops at what the loop uses as it did before
    have hright := hused (used' ++ rest') (hrest'.append used')
    simpa using Reads.join hop hlevel hright (hused' rest' hrest')
  | expression _ _ iho ihc =>
    obtain ⟨used, rfl, hused⟩ := iho
    obtain ⟨used', rfl, hused'⟩ := ihc
    refine ⟨used ++ used', by simp, fun rest' hrest' => ?_⟩
    have hfirst := hused (used' ++ rest') (hrest'.append used')
    simpa using Reads.expression hfirst (hused' rest' hrest')

/-- What a loop reads does not depend on the operand that it starts with. -/
theorem Reads.exists_climb {task : Task} {need : Nat} {ts rest : List Token} {tree : Expr}
    (h : Reads task need ts tree rest) :
    ∀ least left, task = .climb least left →
      ∀ left', ∃ tree', Reads (.climb least left') need ts tree' rest := by
  -- the loop never looks at its left operand
  induction h with
  | stop h =>
    intro least left htask left'
    cases htask
    exact ⟨left', .stop h⟩
  | join hop hlevel hr _ _ ihc =>
    intro least left htask left'
    cases htask
    obtain ⟨tree', htree'⟩ := ihc _ _ rfl (.binary false _ left' _)
    exact ⟨tree', .join hop hlevel hr htree'⟩
  | _ =>
    intro least left htask
    cases htask

/-! ## Readers -/

/-- What a part of the parser does with tokens: it uses up some and leaves the others. -/
abbrev Reader := List Token → List Token → Prop

namespace Reader

/-- One reader behind another. -/
def andThen (R S : Reader) : Reader := fun ts rest =>
  ∃ between, R ts between ∧ S between rest

/-- The reader of one token. -/
def only (token : Token) : Reader := fun ts rest => ts = token :: rest

/-- The reader of the end: nothing is ahead. -/
def ended : Reader := fun ts rest => ts = [] ∧ rest = []

/-- Whether tokens can be continued so that a reader uses up all of them. -/
def Viable (R : Reader) (used : List Token) : Prop :=
  ∃ more, R (used ++ more) []

/-- Whether a reader can do nothing with any text that starts with the given tokens. -/
def Blocked (R : Reader) (ts : List Token) : Prop :=
  ∀ more rest, ¬ R (ts ++ more) rest

/-- Whether a reader can read something behind an expression: it need not start with an
    operator. -/
def Startable (R : Reader) : Prop :=
  ∃ ts, operatorAhead? ts = none ∧ R ts []

/-- Whether the tokens ahead decide what a reader uses up, and of those that it leaves only an
    operator at their start matters. -/
structure Predictive (R : Reader) : Prop where
  unique : ∀ {ts rest rest'}, R ts rest → R ts rest' → rest = rest'
  exists_used : ∀ {ts rest}, R ts rest → ∃ used, ts = used ++ rest ∧
    ∀ rest', StopsLike rest rest' → R (used ++ rest') rest'

variable {R S : Reader}

theorem Startable.viable_nil (h : R.Startable) : R.Viable [] := by
  obtain ⟨ts, -, hts⟩ := h
  exact ⟨ts, hts⟩

theorem predictive_only (token : Token) : (only token).Predictive where
  unique h h' := (List.cons.inj (h.symm.trans h')).2
  exists_used h := ⟨[token], h, fun _ _ => rfl⟩

theorem startable_only {token : Token} (h : token.operator? = none) : (only token).Startable :=
  ⟨[token], h, rfl⟩

theorem startable_ended : ended.Startable :=
  ⟨[], rfl, rfl, rfl⟩

/-- Tokens that a predictive reader has used up stay used up before other tokens. -/
theorem Predictive.exchange (h : R.Predictive) {used rest rest' : List Token}
    (hR : R (used ++ rest) rest) (hrest' : StopsLike rest rest') : R (used ++ rest') rest' := by
  obtain ⟨used', heq, hused'⟩ := h.exists_used hR
  obtain rfl := List.append_cancel_right heq
  exact hused' rest' hrest'

theorem Startable.andThen (hR : R.Startable) (hpredictive : R.Predictive) (hS : S.Startable) :
    (R.andThen S).Startable := by
  obtain ⟨ts, hts, hread⟩ := hR
  obtain ⟨ts', hts', hread'⟩ := hS
  rw [← List.append_nil ts] at hread
  refine ⟨ts ++ ts', ?_, ts', hpredictive.exchange hread (stopsLike_of_none hts'), hread'⟩
  cases ts with
  | nil => exact hts'
  | cons token ts => exact hts

/-! ## Parts and wholes -/

section Parts

variable {used ts rest : List Token}

/-- What is viable for the first reader is so for both, since the second one can follow. -/
theorem Viable.andThen_left (h : R.Viable ts) (hR : R.Predictive) (hS : S.Startable) :
    (R.andThen S).Viable ts := by
  obtain ⟨more, hread⟩ := h
  obtain ⟨ts', hts', hread'⟩ := hS
  refine ⟨more ++ ts', ts', ?_, hread'⟩
  rw [← List.append_nil (ts ++ more)] at hread
  have hexchange := hR.exchange hread (stopsLike_of_none hts')
  rwa [List.append_assoc] at hexchange

/-- Behind what the first reader has used up, both go on like the second one. -/
theorem Viable.andThen_right (h : S.Viable ts) (hR : R.Predictive) (hS : S.Startable)
    (hread : R (used ++ (ts ++ rest)) (ts ++ rest)) : (R.andThen S).Viable (used ++ ts) := by
  cases ts with
  | nil =>
    -- the second reader has not started, so it need not start with an operator
    obtain ⟨ts', hts', hread'⟩ := hS
    refine ⟨ts', ts', ?_, hread'⟩
    rw [List.append_nil]
    exact hR.exchange hread (stopsLike_of_none hts')
  | cons token ts =>
    obtain ⟨more, hread'⟩ := h
    refine ⟨more, token :: ts ++ more, ?_, hread'⟩
    rw [List.append_assoc]
    exact hR.exchange hread fun _ hop => hop

theorem Blocked.andThen_left (h : R.Blocked ts) : (R.andThen S).Blocked ts := by
  intro more rest hread
  obtain ⟨between, hread, -⟩ := hread
  exact h more between hread

theorem Blocked.andThen_right (h : S.Blocked ts) (hne : ts ≠ []) (hR : R.Predictive)
    (hread : R (used ++ (ts ++ rest)) (ts ++ rest)) : (R.andThen S).Blocked (used ++ ts) := by
  obtain ⟨token, ts, rfl⟩ := List.exists_cons_of_ne_nil hne
  intro more rest' hread'
  obtain ⟨between, hread', hS⟩ := hread'
  -- the first reader stops before the token in every text
  have hexchange : R (used ++ (token :: ts ++ more)) (token :: ts ++ more) :=
    hR.exchange hread fun _ hop => hop
  rw [← List.append_assoc] at hexchange
  obtain rfl := hR.unique hread' hexchange
  exact h more rest' hS

end Parts

/-! ## Failures -/

/-- The errors of a reader that has the given tokens ahead, where `failure?` is the error behind
    them, if it is an error that ends them:

    * an unexpected token is the first one that blocks the reader;
    * the source ends unexpectedly where more tokens are needed;
    * characters that are no token come up where the tokens before them could be continued;
    * nesting may get too deep anywhere. -/
inductive Fails (R : Reader) (lexemes : List Lexeme) : Option ParseError → ParseError → Prop
  | unexpected {failure? used lexeme rest} (heq : lexemes = used ++ lexeme :: rest)
      (hviable : R.Viable (used.map Lexeme.token))
      (hblocked : R.Blocked (used.map Lexeme.token ++ [lexeme.token])) :
      Fails R lexemes failure? (.unexpectedToken lexeme.token lexeme.start)
  | unfinished {expected} (hviable : R.Viable (lexemes.map Lexeme.token))
      (hnone : ∀ rest, ¬ R (lexemes.map Lexeme.token) rest) :
      Fails R lexemes none (.unexpectedEnd expected)
  | unreadable {e} (hviable : R.Viable (lexemes.map Lexeme.token)) : Fails R lexemes (some e) e
  | tooDeep {failure? limit position} : Fails R lexemes failure? (.nestingTooDeep limit position)

namespace Fails

variable {lexemes rest : List Lexeme} {lexeme : Lexeme} {failure? : Option ParseError}
  {e : ParseError}

/-- A failure at the very first token. -/
theorem first (hviable : R.Viable []) (hblocked : R.Blocked [lexeme.token]) :
    R.Fails (lexeme :: rest) failure? (.unexpectedToken lexeme.token lexeme.start) :=
  .unexpected (List.nil_append _).symm hviable hblocked

/-- A failure of the first reader is one of both. -/
theorem andThen_left (h : R.Fails lexemes failure? e) (hR : R.Predictive) (hS : S.Startable) :
    (R.andThen S).Fails lexemes failure? e := by
  cases h with
  | unexpected heq hviable hblocked =>
    exact .unexpected heq (hviable.andThen_left hR hS) hblocked.andThen_left
  | unfinished hviable hnone =>
    refine .unfinished (hviable.andThen_left hR hS) fun rest hread => ?_
    obtain ⟨between, hread, -⟩ := hread
    exact hnone between hread
  | unreadable hviable => exact .unreadable (hviable.andThen_left hR hS)
  | tooDeep => exact .tooDeep

/-- A failure of the second reader, behind what the first one has used up, is one of both. -/
theorem andThen_right (h : S.Fails rest failure? e) (hR : R.Predictive) (hS : S.Startable)
    (hsuffix : rest <:+ lexemes) (hread : R (lexemes.map Lexeme.token) (rest.map Lexeme.token)) :
    (R.andThen S).Fails lexemes failure? e := by
  obtain ⟨used, rfl⟩ := hsuffix
  rw [List.map_append] at hread
  -- the errors at the end of the tokens need nothing but that all of them are viable
  have hviable (h : S.Viable (rest.map Lexeme.token)) :
      (R.andThen S).Viable ((used ++ rest).map Lexeme.token) := by
    rw [← List.append_nil (rest.map Lexeme.token)] at hread
    rw [List.map_append]
    exact h.andThen_right hR hS hread
  cases h with
  | @unexpected _ used' lexeme rest' heq hviable' hblocked =>
    subst heq
    have heq : used ++ (used' ++ lexeme :: rest') = used ++ used' ++ lexeme :: rest' :=
      (List.append_assoc ..).symm
    -- a blocked token is blocked behind the read ones too, and so is what comes before it viable
    refine .unexpected heq ?_ ?_
    · rw [List.map_append] at hread ⊢
      exact hviable'.andThen_right hR hS hread
    · rw [List.map_append, List.append_assoc]
      have hread' : R (used.map Lexeme.token ++ (used'.map Lexeme.token ++ [lexeme.token] ++
          rest'.map Lexeme.token)) (used'.map Lexeme.token ++ [lexeme.token] ++
          rest'.map Lexeme.token) := by simpa using hread
      exact hblocked.andThen_right (by simp) hR hread'
  | unfinished h hnone =>
    refine .unfinished (hviable h) fun rest' hread' => ?_
    -- a whole would split where the first reader has stopped, since it predicts
    obtain ⟨between, hread', hS'⟩ := hread'
    rw [List.map_append] at hread'
    obtain rfl := hR.unique hread' hread
    exact hnone rest' hS'
  | unreadable h => exact .unreadable (hviable h)
  | tooDeep => exact .tooDeep

/-- A reader that goes on like another one behind its first token fails like it. -/
theorem cons (h : R.Fails rest failure? e)
    (hcons : ∀ ts after, S (lexeme.token :: ts) after ↔ R ts after) :
    S.Fails (lexeme :: rest) failure? e := by
  have hviable {ts : List Token} (h : R.Viable ts) : S.Viable (lexeme.token :: ts) := by
    obtain ⟨more, hread⟩ := h
    exact ⟨more, (hcons _ _).mpr hread⟩
  cases h with
  | @unexpected _ used token rest' heq h hblocked =>
    subst heq
    have heq : lexeme :: (used ++ token :: rest') = lexeme :: used ++ token :: rest' := rfl
    exact .unexpected heq (hviable h) fun more rest hread =>
      hblocked more rest ((hcons _ _).mp hread)
  | unfinished h hnone =>
    exact .unfinished (hviable h) fun rest hread => hnone rest ((hcons _ _).mp hread)
  | unreadable h => exact .unreadable (hviable h)
  | tooDeep => exact .tooDeep

theorem cons_unreadable (hR : R.Startable)
    (hcons : ∀ ts after, S (lexeme.token :: ts) after ↔ R ts after) :
    S.Fails [lexeme] (some e) e :=
  cons (.unreadable hR.viable_nil) hcons

end Fails

end Reader

/-! ## The readers of the parser -/

namespace Task

open Formula.Reader

/-- What a task uses up and leaves, whatever it nests and builds. -/
def reader (task : Task) : Reader := fun ts rest =>
  ∃ need tree, Reads task need ts tree rest

theorem predictive_reader (task : Task) : task.reader.Predictive where
  unique h h' := by
    obtain ⟨_, _, h⟩ := h
    obtain ⟨_, _, h'⟩ := h'
    exact (h.unique h').2.2
  exists_used h := by
    obtain ⟨need, tree, h⟩ := h
    obtain ⟨used, heq, hused⟩ := h.exists_used
    exact ⟨used, heq, fun rest' hrest' => ⟨need, tree, hused rest' hrest'⟩⟩

/-- A literal is an operand. -/
theorem startable_operand : Task.operand.reader.Startable :=
  ⟨[.keyword .trueWord], rfl, 0, _, .operand rfl⟩

theorem startable_climb (least : Level) (left : Expr) : (Task.climb least left).reader.Startable :=
  ⟨[], rfl, 0, left, .stop (stops_of_none rfl)⟩

/-- A loop uses up the same tokens whatever operand it starts with. -/
theorem reader_climb_eq (least : Level) (left left' : Expr) :
    (Task.climb least left).reader = (Task.climb least left').reader := by
  have himp (left left' : Expr) (ts rest : List Token)
      (h : (Task.climb least left).reader ts rest) : (Task.climb least left').reader ts rest := by
    obtain ⟨_, _, h⟩ := h
    exact ⟨_, h.exists_climb _ _ rfl left'⟩
  funext ts rest
  exact propext ⟨himp left left' ts rest, himp left' left ts rest⟩

/-- An expression is an operand and what the loop adds to it. -/
theorem reader_expression (least : Level) (left : Expr) :
    (Task.expression least).reader =
      Task.operand.reader.andThen (Task.climb least left).reader := by
  funext ts rest
  apply propext
  constructor
  · intro h
    obtain ⟨_, _, h⟩ := h
    cases h with
    | expression ho hc =>
      obtain ⟨tree, hc⟩ := hc.exists_climb _ _ rfl left
      exact ⟨_, ⟨_, _, ho⟩, _, tree, hc⟩
  · intro h
    obtain ⟨_, ⟨_, first, ho⟩, _, _, hc⟩ := h
    obtain ⟨tree, hc⟩ := hc.exists_climb _ _ rfl first
    exact ⟨_, tree, .expression ho hc⟩

theorem startable_expression (least : Level) : (Task.expression least).reader.Startable := by
  rw [reader_expression least (.ofValue (.boolean true))]
  exact startable_operand.andThen (predictive_reader _) (startable_climb _ _)

theorem reader_leftParen (ts rest : List Token) :
    Task.operand.reader (.mark .leftParen :: ts) rest ↔
      ((Task.expression .or).reader.andThen (only (.mark .rightParen))) ts rest := by
  constructor
  · intro h
    obtain ⟨_, _, h⟩ := h
    cases h with
    | operand h => exact nomatch h
    | parenthesized h => exact ⟨_, ⟨_, _, h⟩, rfl⟩
  · intro h
    obtain ⟨_, ⟨_, _, h⟩, rfl⟩ := h
    exact ⟨_, _, .parenthesized h⟩

theorem reader_minus (ts rest : List Token) :
    Task.operand.reader (.mark .minus :: ts) rest ↔ (Task.expression .unary).reader ts rest := by
  constructor
  · intro h
    obtain ⟨_, _, h⟩ := h
    cases h with
    | operand h => exact nomatch h
    | minus h => exact ⟨_, _, h⟩
  · intro h
    obtain ⟨_, _, h⟩ := h
    exact ⟨_, _, .minus h⟩

theorem reader_plus (ts rest : List Token) :
    Task.operand.reader (.mark .plus :: ts) rest ↔ (Task.expression .unary).reader ts rest := by
  constructor
  · intro h
    obtain ⟨_, _, h⟩ := h
    cases h with
    | operand h => exact nomatch h
    | plus h => exact ⟨_, _, h⟩
  · intro h
    obtain ⟨_, _, h⟩ := h
    exact ⟨_, _, .plus h⟩

theorem reader_ifWord (ts rest : List Token) :
    Task.operand.reader (.keyword .ifWord :: ts) rest ↔
      ((Task.expression .or).reader.andThen ((only (.keyword .thenWord)).andThen
        ((Task.expression .or).reader.andThen ((only (.keyword .elseWord)).andThen
          (Task.expression .or).reader)))) ts rest := by
  constructor
  · intro h
    obtain ⟨_, _, h⟩ := h
    cases h with
    | operand h => exact nomatch h
    | conditional hc ht hf => exact ⟨_, ⟨_, _, hc⟩, _, rfl, _, ⟨_, _, ht⟩, _, rfl, _, _, hf⟩
  · intro h
    obtain ⟨_, ⟨_, _, hc⟩, _, rfl, _, ⟨_, _, ht⟩, _, rfl, _, _, hf⟩ := h
    exact ⟨_, _, .conditional hc ht hf⟩

/-- Behind an operator that is strong enough, its right operand comes, and the loop goes on. -/
theorem reader_climb {token : Token} {op : Operator} {least : Level}
    (hop : token.operator? = some op) (hlevel : least.rank ≤ op.level.rank) (left : Expr)
    (ts rest : List Token) :
    (Task.climb least left).reader (token :: ts) rest ↔
      ((Task.expression op.level.ofRightOperand).reader.andThen
        (Task.climb least left).reader) ts rest := by
  constructor
  · intro h
    obtain ⟨_, _, h⟩ := h
    cases h with
    | stop h => exact (h.absurd_of_le hop hlevel).elim
    | join hop' _ hr hc =>
      obtain rfl := Option.some.inj (hop.symm.trans hop')
      obtain ⟨tree, hc⟩ := hc.exists_climb _ _ rfl left
      exact ⟨_, ⟨_, _, hr⟩, _, tree, hc⟩
  · intro h
    obtain ⟨_, ⟨_, right, hr⟩, _, _, hc⟩ := h
    obtain ⟨tree, hc⟩ := hc.exists_climb _ _ rfl (.binary false op left right)
    exact ⟨_, tree, .join hop hlevel hr hc⟩

/-- The tokens that an operand can start with. -/
theorem startsOperand_of_reader {token : Token} {ts rest : List Token}
    (h : Task.operand.reader (token :: ts) rest) : token.StartsOperand := by
  obtain ⟨_, _, h⟩ := h
  cases h with
  | operand h => exact .inl ⟨_, h⟩
  | parenthesized | minus | plus | conditional => simp [Token.StartsOperand]

end Task

/-! ## Whole sources -/

/-- The reader of whole sources: an expression with nothing behind it. -/
def Reader.whole : Reader :=
  (Task.expression .or).reader.andThen Reader.ended

/-- Whether tokens are the beginning of an expression. -/
def BeginsExpression (tokens : List Token) : Prop :=
  ∃ more tree, IsExpression (tokens ++ more) tree

namespace Reader

/-- Whole sources are the expressions of the grammar. -/
theorem whole_iff {ts rest : List Token} :
    whole ts rest ↔ rest = [] ∧ ∃ tree, IsExpression ts tree := by
  constructor
  · intro h
    obtain ⟨_, ⟨need, tree, h⟩, rfl, rfl⟩ := h
    exact ⟨rfl, tree, isExpression_iff.mpr ⟨need, h⟩⟩
  · intro h
    obtain ⟨rfl, tree, h⟩ := h
    obtain ⟨need, h⟩ := isExpression_iff.mp h
    exact ⟨[], ⟨need, tree, h⟩, rfl, rfl⟩

theorem viable_whole_iff {ts : List Token} : whole.Viable ts ↔ BeginsExpression ts := by
  constructor
  · intro h
    obtain ⟨more, h⟩ := h
    exact ⟨more, (whole_iff.mp h).2⟩
  · intro h
    obtain ⟨more, h⟩ := h
    exact ⟨more, whole_iff.mpr ⟨rfl, h⟩⟩

theorem blocked_whole_iff {ts : List Token} : whole.Blocked ts ↔ ¬ BeginsExpression ts := by
  constructor
  · intro h hbegins
    obtain ⟨more, hmore⟩ := viable_whole_iff.mpr hbegins
    exact h more [] hmore
  · intro h more rest hread
    exact h ⟨more, (whole_iff.mp hread).2⟩

end Reader

end Formula
