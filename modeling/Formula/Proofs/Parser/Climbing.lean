import Formula.Proofs.Parser.Grammar

/-!
# Precedence climbing

`Reads` is the work of the parser on a list of tokens, without limits and without positions: an
expression is an operand, and then a loop joins the operators that are strong enough.  It reads
exactly what the grammar derives.

Two facts carry the proof.  What follows an expression tells where the loop has to stop, so a
derivation can be read with any continuation of the loop behind it.  And what the loop has joined
so far is always an expression of the grammar that the next operator fits.
-/

namespace Formula

/-- The operator that a list of tokens starts with. -/
def operatorAhead? (tokens : List Token) : Option Operator :=
  tokens.head?.bind Token.operator?

@[simp] theorem operatorAhead?_nil : operatorAhead? [] = none := rfl

@[simp] theorem operatorAhead?_cons (token : Token) (rest : List Token) :
    operatorAhead? (token :: rest) = token.operator? := rfl

/-- Whether the tokens do not go on with an operator of level `least` or a stronger one. -/
def Stops (least : Level) (tokens : List Token) : Prop :=
  ∀ op, operatorAhead? tokens = some op → op.level.rank < least.rank

theorem stops_of_none {least : Level} {tokens : List Token} (h : operatorAhead? tokens = none) :
    Stops least tokens := by
  intro op hop
  rw [h] at hop
  exact nomatch hop

/-- The three parts of the parser. -/
inductive Task where
  | operand
  /-- The loop that joins operators from level `least` on to the operand `left`. -/
  | climb (least : Level) (left : Expr)
  | expression (least : Level)

/-- `Reads task need tokens tree rest` says that a task turns the start of `tokens` into `tree` and
    leaves `rest`, and that expressions nest up to `need` deep in it. -/
inductive Reads : Task → Nat → List Token → Expr → List Token → Prop
  | operand {token tree rest} (h : token.operand? = some tree) :
      Reads .operand 0 (token :: rest) tree rest
  | parenthesized {need ts tree rest}
      (h : Reads (.expression .or) need ts tree (.mark .rightParen :: rest)) :
      Reads .operand need (.mark .leftParen :: ts) tree rest
  | minus {need ts tree rest} (h : Reads (.expression .unary) need ts tree rest) :
      Reads .operand need (.mark .minus :: ts) tree.negated rest
  | plus {need ts tree rest} (h : Reads (.expression .unary) need ts tree rest) :
      Reads .operand need (.mark .plus :: ts) tree rest
  | conditional {n₁ n₂ n₃ cs ts fs condition whenTrue whenFalse rest}
      (hc : Reads (.expression .or) n₁ cs condition (.keyword .thenWord :: ts))
      (ht : Reads (.expression .or) n₂ ts whenTrue (.keyword .elseWord :: fs))
      (hf : Reads (.expression .or) n₃ fs whenFalse rest) :
      Reads .operand (max n₁ (max n₂ n₃)) (.keyword .ifWord :: cs)
        (.cond false condition whenTrue whenFalse) rest
  | stop {least left rest} (h : Stops least rest) : Reads (.climb least left) 0 rest left rest
  | join {least left token op n₁ n₂ ts right after whole rest} (hop : token.operator? = some op)
      (hlevel : least.rank ≤ op.level.rank)
      (hr : Reads (.expression op.level.ofRightOperand) n₁ ts right after)
      (hc : Reads (.climb least (.binary false op left right)) n₂ after whole rest) :
      Reads (.climb least left) (max n₁ n₂) (token :: ts) whole rest
  | expression {least n₁ n₂ ts first after whole rest} (ho : Reads .operand n₁ ts first after)
      (hc : Reads (.climb least first) n₂ after whole rest) :
      Reads (.expression least) (max n₁ n₂ + 1) ts whole rest

/-- Reading an expression takes room for itself. -/
theorem Reads.need_pos {least : Level} {need : Nat} {ts rest : List Token} {tree : Expr}
    (h : Reads (.expression least) need ts tree rest) : 0 < need := by
  cases h with
  | expression => exact Nat.succ_pos _

/-! ## Every task has one outcome -/

/-- No operator of a loop that goes on is one where the loop stops. -/
theorem Stops.absurd_of_le {least : Level} {token : Token} {op : Operator} {rest : List Token}
    (h : Stops least (token :: rest)) (hop : token.operator? = some op)
    (hle : least.rank ≤ op.level.rank) : False := by
  have := h op hop
  omega

/-- The tokens decide what a task reads, how deep it nests and what it leaves. -/
theorem Reads.unique {task : Task} {need need' : Nat} {ts rest rest' : List Token}
    {tree tree' : Expr} (h : Reads task need ts tree rest) (h' : Reads task need' ts tree' rest') :
    need = need' ∧ tree = tree' ∧ rest = rest' := by
  -- the first token decides which rule another reading can end with
  induction h generalizing need' tree' rest' with
  | operand h =>
    cases h' with
    | operand h' =>
      rw [h] at h'
      cases h'
      exact ⟨rfl, rfl, rfl⟩
    | parenthesized | minus | plus | conditional => exact nomatch h
  | parenthesized _ ih =>
    cases h' with
    | operand h' => exact nomatch h'
    | parenthesized h' =>
      obtain ⟨rfl, rfl, hrest⟩ := ih h'
      exact ⟨rfl, rfl, (List.cons.inj hrest).2⟩
  | minus _ ih =>
    -- a sign is no operand, so both readings strip it
    cases h' with
    | operand h' => exact nomatch h'
    | minus h' =>
      obtain ⟨rfl, rfl, rfl⟩ := ih h'
      exact ⟨rfl, rfl, rfl⟩
  | plus _ ih =>
    cases h' with
    | operand h' => exact nomatch h'
    | plus h' => exact ih h'
  | conditional _ _ _ ihc iht ihf =>
    cases h' with
    | operand h' => exact nomatch h'
    | conditional hc' ht' hf' =>
      -- each part leaves its reserved word and what follows, and so starts the next one
      obtain ⟨rfl, rfl, hts⟩ := ihc hc'
      obtain ⟨-, rfl⟩ := List.cons.inj hts
      obtain ⟨rfl, rfl, hfs⟩ := iht ht'
      obtain ⟨-, rfl⟩ := List.cons.inj hfs
      obtain ⟨rfl, rfl, rfl⟩ := ihf hf'
      exact ⟨rfl, rfl, rfl⟩
  -- the loop stops or goes on by the operator ahead, which both readings see
  | stop h =>
    cases h' with
    | stop => exact ⟨rfl, rfl, rfl⟩
    | join hop hlevel => exact (h.absurd_of_le hop hlevel).elim
  | join hop hlevel _ _ ihr ihc =>
    cases h' with
    | stop h' => exact (h'.absurd_of_le hop hlevel).elim
    | join hop' _ hr' hc' =>
      -- the same operator leaves the same right operand to read, and then the same loop
      obtain rfl := Option.some.inj (hop.symm.trans hop')
      obtain ⟨rfl, rfl, rfl⟩ := ihr hr'
      obtain ⟨rfl, rfl, rfl⟩ := ihc hc'
      exact ⟨rfl, rfl, rfl⟩
  | expression _ _ iho ihc =>
    cases h' with
    | expression ho' hc' =>
      obtain ⟨rfl, rfl, rfl⟩ := iho ho'
      obtain ⟨rfl, rfl, rfl⟩ := ihc hc'
      exact ⟨rfl, rfl, rfl⟩

/-! ## What may follow a phrase -/

/-- How strong an operator behind a phrase may be, for the phrase to be its left operand. -/
def Phrase.reach : Phrase → Nat
  | .primary => Level.power.rank
  | .level l => min l.rank Level.unary.rank

/-- The strongest level of the expressions that a phrase is one of. -/
def Phrase.strength : Phrase → Nat
  | .primary => Level.power.rank
  | .level l => l.rank

/-- Whether a loop from level `least` on joins the operators of a phrase itself.  A power is no
    matter of the loop that a signed operand belongs to, and a primary has no operators. -/
def Phrase.JoinedFrom (least : Level) : Phrase → Prop
  | .primary => True
  | .level l => l.groupsLeft → least.rank ≤ l.rank

theorem Phrase.joinedFrom_or (phrase : Phrase) : phrase.JoinedFrom .or := by
  cases phrase with
  | primary => trivial
  | level l => exact fun _ => by cases l <;> decide

/-- Whether the tokens behind a phrase leave it as it is: an operator there takes it as its left
    operand and does not belong to a conditional at its end. -/
def FollowedBy (phrase : Phrase) (ending : Ending) (rest : List Token) : Prop :=
  ∀ op, operatorAhead? rest = some op → ending = .closed ∧ op.level.rank ≤ phrase.reach

theorem followedBy_of_none {phrase : Phrase} {ending : Ending} {rest : List Token}
    (h : operatorAhead? rest = none) : FollowedBy phrase ending rest := by
  intro op hop
  rw [h] at hop
  exact nomatch hop

namespace FollowedBy

variable {phrase phrase' : Phrase} {ending : Ending} {rest : List Token}

theorem mono (h : FollowedBy phrase ending rest) (hle : phrase.reach ≤ phrase'.reach) :
    FollowedBy phrase' ending rest :=
  fun op hop => ⟨(h op hop).1, Nat.le_trans (h op hop).2 hle⟩

/-- A loop stops behind a phrase that reaches less far than its operators. -/
theorem stops {least : Level} (h : FollowedBy phrase ending rest)
    (hlt : phrase.reach < least.rank) : Stops least rest :=
  fun op hop => Nat.lt_of_le_of_lt (h op hop).2 hlt

/-- Behind an unparenthesized conditional no operator follows. -/
theorem operatorAhead?_eq_none (h : FollowedBy phrase .conditional rest) :
    operatorAhead? rest = none := by
  cases hop : operatorAhead? rest with
  | none => rfl
  | some op => exact nomatch (h op hop).1

/-- The loop for signed operands stops behind them: no operator is of the level of signs. -/
theorem stops_unary (h : FollowedBy (.level .unary) ending rest) : Stops .unary rest := by
  intro op hop
  have hle : op.level.rank ≤ Level.unary.rank := Nat.le_trans (h op hop).2 (Nat.min_le_left _ _)
  have hne : op.level.rank ≠ Level.unary.rank :=
    fun heq => op.level_ne_unary (Level.rank_injective heq)
  omega

end FollowedBy

/-! ## What is derived is read -/

/-- A derived phrase is read as the first operands and operators of an expression, if the loop goes
    on from there and joins all operators of the phrase itself. -/
theorem Derives.reads {phrase : Phrase} {ending : Ending} {ts : List Token} {tree : Expr}
    (h : Derives phrase ending ts tree) {least : Level} {need : Nat} {rest after : List Token}
    {whole : Expr} (hrest : FollowedBy phrase ending rest) (hleast : phrase.JoinedFrom least)
    (hclimb : Reads (.climb least tree) need rest whole after) :
    ∃ need', Reads (.expression least) need' (ts ++ rest) whole after := by
  -- the loop behind the phrase, `hclimb`, is arbitrary: for the left operand of an operator it is
  -- the loop that joins this operator first
  induction h generalizing least need rest after whole with
  | operand h => exact ⟨_, .expression (.operand h) hclimb⟩
  | parenthesized _ ih =>
    -- inside parentheses the loop runs up to the closing one
    have hparen : operatorAhead? (.mark .rightParen :: rest) = none := rfl
    obtain ⟨_, hinner⟩ := ih (followedBy_of_none hparen) (Phrase.joinedFrom_or _)
      (.stop (stops_of_none hparen))
    rw [List.cons_append, List.append_assoc]
    exact ⟨_, .expression (.parenthesized hinner) hclimb⟩
  | @conditional _ _ _ cs ts fs _ _ _ _ _ _ ihc iht ihf =>
    -- the last branch would take an operator behind it, so there is none
    have hrest := hrest.operatorAhead?_eq_none
    have helse : operatorAhead? (.keyword .elseWord :: (fs ++ rest)) = none := rfl
    have hthen : operatorAhead? (.keyword .thenWord ::
        (ts ++ .keyword .elseWord :: (fs ++ rest))) = none := rfl
    obtain ⟨_, hf⟩ := ihf (followedBy_of_none hrest) (Phrase.joinedFrom_or _)
      (.stop (stops_of_none hrest))
    obtain ⟨_, ht⟩ := iht (followedBy_of_none helse) (Phrase.joinedFrom_or _)
      (.stop (stops_of_none helse))
    obtain ⟨_, hc⟩ := ihc (followedBy_of_none hthen) (Phrase.joinedFrom_or _)
      (.stop (stops_of_none hthen))
    simp only [List.cons_append, List.append_assoc]
    exact ⟨_, .expression (.conditional hc ht hf) hclimb⟩
  | primary _ ih => exact ih (hrest.mono (by decide)) trivial hclimb
  | @power _ ls rs _ _ _ _ ihl ihr =>
    -- the loop for the right operand stops at once: what follows is weaker than a power
    have hstops : Stops .power rest := hrest.stops (by decide)
    obtain ⟨_, hright⟩ := ihr (hrest.mono (by decide)) (fun h => absurd h (by decide))
      (.stop hstops)
    have hcaret : FollowedBy .primary .closed (.mark .caret :: (rs ++ rest)) := by
      intro op hop
      cases hop
      exact ⟨rfl, by decide⟩
    rw [List.append_assoc]
    exact ihl hcaret trivial (.join rfl (Level.rank_le_power least) hright hclimb)
  | minus _ ih =>
    -- a sign takes what is at least unary, and the loop goes on behind it
    obtain ⟨_, hsigned⟩ := ih hrest (fun h => absurd h (by decide)) (.stop hrest.stops_unary)
    exact ⟨_, .expression (.minus hsigned) hclimb⟩
  | plus _ ih =>
    obtain ⟨_, hsigned⟩ := ih hrest (fun h => absurd h (by decide)) (.stop hrest.stops_unary)
    exact ⟨_, .expression (.plus hsigned) hclimb⟩
  | unsigned _ ih =>
    exact ih (hrest.mono (by decide)) (fun h => absurd h (by decide)) hclimb
  | @stronger level _ _ _ hlevel _ ih =>
    -- a phrase of a stronger level is joined from this one on too
    have hnext : level.next.rank = level.rank + 1 := Level.rank_next_of_groupsLeft hlevel
    have hleast : least.rank ≤ level.rank := hleast hlevel
    exact ih (hrest.mono (by simp only [Phrase.reach]; omega)) (fun _ => by omega) hclimb
  | @joined token op _ ls rs _ _ hop hlevel _ _ ihl ihr =>
    -- operators of the same level are left to the loop around, those of stronger ones are joined
    -- by the right operand
    have hnext : op.level.next.rank = op.level.rank + 1 := Level.rank_next_of_groupsLeft hlevel
    have hreach : (Phrase.level op.level).reach = op.level.rank :=
      Nat.min_eq_left (Nat.le_of_lt hlevel)
    have hstops : Stops op.level.next rest := hrest.stops (by omega)
    obtain ⟨_, hright⟩ := ihr (hrest.mono (by simp only [Phrase.reach]; omega))
      (fun _ => Nat.le_refl _) (.stop hstops)
    rw [← Level.ofRightOperand_eq_next] at hright
    have hop' : FollowedBy (.level op.level) .closed (token :: (rs ++ rest)) := by
      intro op' hop'
      obtain rfl := Option.some.inj (hop.symm.trans hop')
      exact ⟨rfl, Nat.le_of_eq hreach.symm⟩
    rw [List.append_assoc]
    exact ihl hop' hleast (.join hop (hleast hlevel) hright hclimb)

/-! ## What is read is derived -/

/-- The weakest level of the expressions that an expression read from level `level` on is one of:
    the right operand of a power may also have a sign. -/
def Level.ofWhole (level : Level) : Level :=
  if level = .power then .unary else level

/-- The right operand of an operator that groups to the left has no more signs than its level. -/
theorem Level.ofWhole_ofRightOperand {level : Level} (h : level.groupsLeft) :
    level.ofRightOperand.ofWhole = level.next := by
  cases level <;> first | rfl | exact absurd h (by decide)

theorem Level.ofWhole_rank_le (level : Level) : level.ofWhole.rank ≤ level.rank := by
  cases level <;> decide

theorem Level.ofWhole_rank_le_unary (level : Level) : level.ofWhole.rank ≤ Level.unary.rank := by
  cases level <;> decide

/-- A phrase is an expression of all levels up to its strength. -/
theorem Derives.toLevel {phrase : Phrase} {ending : Ending} {ts : List Token} {tree : Expr}
    {level : Level} (h : Derives phrase ending ts tree) (hle : level.rank ≤ phrase.strength) :
    Derives (.level level) ending ts tree := by
  cases phrase with
  | primary => exact (Derives.primary h).weaken hle
  | level l => exact h.weaken hle

theorem Phrase.reach_le_strength (phrase : Phrase) : phrase.reach ≤ phrase.strength := by
  cases phrase with
  | primary => exact Nat.le_refl _
  | level l => exact Nat.min_le_left _ _

/-- What follows a whole expression: no operator that its loop joins, and none at all behind an
    unparenthesized conditional. -/
def EndsBefore (least : Level) (ending : Ending) (rest : List Token) : Prop :=
  ∀ op, operatorAhead? rest = some op → ending = .closed ∧ op.level.rank < least.rank

namespace EndsBefore

variable {ending : Ending} {rest : List Token}

theorem followedBy (h : EndsBefore .unary ending rest) :
    FollowedBy (.level .unary) ending rest :=
  fun op hop => ⟨(h op hop).1, Nat.le_of_lt (h op hop).2⟩

/-- No operator is weaker than the weakest level. -/
theorem operatorAhead?_eq_none (h : EndsBefore .or ending rest) : operatorAhead? rest = none := by
  cases hop : operatorAhead? rest with
  | none => rfl
  | some op =>
    have hlt := (h op hop).2
    have hpos := op.level.rank_pos
    exact absurd hlt (Nat.not_lt.mpr hpos)

end EndsBefore

/-- What the grammar derives of that which a task reads.  The loop starts with any phrase whose tree
    is its left operand, and adds its own tokens behind those of the phrase. -/
def Task.Derived : Task → List Token → Expr → List Token → Prop
  | .operand, ts, tree, rest => ∃ phrase ending used, ts = used ++ rest ∧
      Derives phrase ending used tree ∧ Level.unary.rank ≤ phrase.strength ∧
      FollowedBy phrase ending rest
  | .climb least left, ts, tree, rest => ∀ phrase ending before,
      Derives phrase ending before left → least.ofWhole.rank ≤ phrase.strength →
      FollowedBy phrase ending ts →
      ∃ ending' used, ts = used ++ rest ∧
        Derives (.level least.ofWhole) ending' (before ++ used) tree ∧
        EndsBefore least ending' rest
  | .expression least, ts, tree, rest => ∃ ending used, ts = used ++ rest ∧
      Derives (.level least.ofWhole) ending used tree ∧ EndsBefore least ending rest

/-- An operator and its right operand turn the phrase before them into a longer one. -/
theorem Derives.exists_join {phrase : Phrase} {ending ending' : Ending} {before used : List Token}
    {left right : Expr} {least : Level} {token : Token} {op : Operator} {ts rest : List Token}
    (hleft : Derives phrase ending before left) (hop : token.operator? = some op)
    (hfollowed : FollowedBy phrase ending (token :: ts)) (hlevel : least.rank ≤ op.level.rank)
    (hright : Derives (.level op.level.ofRightOperand.ofWhole) ending' used right)
    (hends : EndsBefore op.level.ofRightOperand ending' rest) :
    ∃ phrase', Derives phrase' ending' (before ++ token :: used) (.binary false op left right) ∧
      least.ofWhole.rank ≤ phrase'.strength ∧ FollowedBy phrase' ending' rest := by
  obtain ⟨rfl, hreach⟩ := hfollowed op hop
  by_cases hpower : op.level = .power
  · obtain rfl := Operator.eq_power hpower
    obtain rfl := Token.eq_caret hop
    -- only a primary is followed by a power
    cases phrase with
    | level l => exact absurd (Nat.le_trans hreach (Nat.min_le_right _ _)) (by decide)
    | primary =>
      refine ⟨.level .power, .power hleft hright, ?_, fun op' hop' => ?_⟩
      · exact Nat.le_trans least.ofWhole_rank_le (Level.rank_le_power least)
      · obtain ⟨hclosed, hlt⟩ := hends op' hop'
        exact ⟨hclosed, Nat.le_of_lt_succ hlt⟩
  · -- the phrase is strong enough for the level of the operator, since it reaches as far
    have hgroups := Operator.groupsLeft_of_ne_power hpower
    have hnext := Level.rank_next_of_groupsLeft hgroups
    rw [Level.ofWhole_ofRightOperand hgroups] at hright
    rw [Level.ofRightOperand_eq_next] at hends
    have hleft' := hleft.toLevel (Nat.le_trans hreach phrase.reach_le_strength)
    refine ⟨.level op.level, .joined hop hgroups hleft' hright, ?_, fun op' hop' => ?_⟩
    · exact Nat.le_trans least.ofWhole_rank_le hlevel
    · -- an operator behind the right operand is weaker than it, and so than the whole
      obtain ⟨hclosed, hlt⟩ := hends op' hop'
      have hunary : op.level.rank < Level.unary.rank := hgroups
      exact ⟨hclosed, Nat.le_min.mpr ⟨by omega, by omega⟩⟩

/-- What a task reads is derived by the grammar. -/
theorem Reads.derived {task : Task} {need : Nat} {ts rest : List Token} {tree : Expr}
    (h : Reads task need ts tree rest) : task.Derived ts tree rest := by
  -- on the reading: the phrase it derives, with what may stand behind it
  induction h with
  | @operand token _ rest h =>
    exact ⟨.primary, .closed, [token], rfl, .operand h, by decide, fun op _ =>
      ⟨rfl, op.level.rank_le_power⟩⟩
  | parenthesized _ ih =>
    obtain ⟨_, used, rfl, hinner, _⟩ := ih
    refine ⟨.primary, .closed, _, ?_, .parenthesized hinner, by decide, fun op _ =>
      ⟨rfl, op.level.rank_le_power⟩⟩
    simp only [List.cons_append, List.append_assoc, List.nil_append]
  | minus _ ih =>
    obtain ⟨_, used, rfl, hsigned, hends⟩ := ih
    exact ⟨.level .unary, _, _, rfl, .minus hsigned, Nat.le_refl _, hends.followedBy⟩
  | plus _ ih =>
    obtain ⟨_, used, rfl, hsigned, hends⟩ := ih
    exact ⟨.level .unary, _, _, rfl, .plus hsigned, Nat.le_refl _, hends.followedBy⟩
  | conditional _ _ _ ihc iht ihf =>
    obtain ⟨_, cs, rfl, hc, _⟩ := ihc
    obtain ⟨_, ts, rfl, ht, _⟩ := iht
    obtain ⟨_, fs, rfl, hf, hends⟩ := ihf
    refine ⟨.primary, .conditional, _, ?_, .conditional hc ht hf, by decide, ?_⟩
    · simp only [List.cons_append, List.append_assoc]
    · exact followedBy_of_none hends.operatorAhead?_eq_none
  | stop h =>
    -- the loop adds nothing, and the phrase that it started with is the whole
    intro phrase ending before hleft hstrength hfollowed
    refine ⟨ending, [], rfl, ?_, fun op hop => ⟨(hfollowed op hop).1, h op hop⟩⟩
    rw [List.append_nil]
    exact hleft.toLevel hstrength
  | @join _ _ token _ _ _ _ _ _ _ _ hop hlevel _ _ ihr ihc =>
    -- the joined phrase takes the place of the one that the loop started with
    intro phrase ending before hleft _ hfollowed
    obtain ⟨_, used, rfl, hright, hends⟩ := ihr
    obtain ⟨phrase', hjoined, hstrength, hfollowed'⟩ :=
      hleft.exists_join hop hfollowed hlevel hright hends
    obtain ⟨ending', used', rfl, hwhole, hends'⟩ := ihc _ _ _ hjoined hstrength hfollowed'
    refine ⟨ending', token :: (used ++ used'), ?_, ?_, hends'⟩
    · rw [List.cons_append, List.append_assoc]
    · rwa [List.append_assoc, List.cons_append] at hwhole
  | @expression least _ _ _ _ _ _ _ _ _ iho ihc =>
    -- the first operand is the phrase that the loop starts with
    obtain ⟨phrase, ending, used, rfl, hfirst, hstrength, hfollowed⟩ := iho
    obtain ⟨ending', used', rfl, hwhole, hends⟩ :=
      ihc _ _ _ hfirst (Nat.le_trans least.ofWhole_rank_le_unary hstrength) hfollowed
    exact ⟨ending', used ++ used', (List.append_assoc ..).symm, hwhole, hends⟩

/-! ## Whole sources -/

/-- The expressions of the grammar are what is read up to the end. -/
theorem isExpression_iff {tokens : List Token} {tree : Expr} :
    IsExpression tokens tree ↔ ∃ need, Reads (.expression .or) need tokens tree [] := by
  constructor
  · intro h
    obtain ⟨ending, h⟩ := h
    have hreads := h.reads (followedBy_of_none operatorAhead?_nil) (Phrase.joinedFrom_or _)
      (.stop (stops_of_none operatorAhead?_nil))
    rwa [List.append_nil] at hreads
  · intro h
    obtain ⟨need, h⟩ := h
    obtain ⟨ending, used, rfl, hderives, _⟩ := h.derived
    rw [List.append_nil]
    exact ⟨ending, hderives⟩

/-- The grammar is unambiguous. -/
theorem IsExpression.unique {tokens : List Token} {tree tree' : Expr}
    (h : IsExpression tokens tree) (h' : IsExpression tokens tree') : tree = tree' := by
  obtain ⟨_, hreads⟩ := isExpression_iff.mp h
  obtain ⟨_, hreads'⟩ := isExpression_iff.mp h'
  exact (hreads.unique hreads').2.1

end Formula
