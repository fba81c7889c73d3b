import Formula.Proofs.Number.Negation
import Formula.Proofs.Printing.RoundTrip

/-!
# How signs of values are read back

The text of a negative number starts with a minus sign, but literals have none.  So a literal of a
negative value is read back as a sign flag and the magnitude of the value, and where nothing ties
the sign to the literal, as in the base of a power, the sign reaches over the whole power.
`Expr.reread` is the tree that the canonical source of a tree is read back as.

The least integer is written with digits that are no literal, for its magnitude does not have 64
bits.  The canonical source of a tree with such a literal is not even a sequence of tokens.

## Key results

* `exists_rereads`: the tokens of a canonical source, and how they are read
* `breaks_print`: where there is a literal of the least integer, there are no tokens
* `exists_parseWithin_print_eq_ok_iff`: which trees are read back, and as what
-/

namespace Formula

namespace Value

/-- Whether the text of a value starts with a minus sign. -/
def isNegative : Value → Bool
  | .integer i => decide (i < 0)
  | .real x => Binary64.isNegative x
  | .boolean _ => false

/-- The value without its sign. -/
def magnitude : Value → Value
  | .integer i => .integer (if i < 0 then -i else i)
  | .real x => .real (if Binary64.isNegative x then -x else x)
  | .boolean b => .boolean b

/-- Whether a value is not an infinity and not NaN. -/
def isFinite : Value → Bool
  | .real x => x.isFinite
  | .integer _ | .boolean _ => true

/-- Whether the digits of a value are a literal.  Those of the least integer are not. -/
def isReadable : Value → Bool
  | .integer i => i != Int64.minValue
  | .real _ | .boolean _ => true

/-- The tokens of the text of a value. -/
def tokens (value : Value) : List Token :=
  if value.isNegative then [.mark .minus, value.magnitude.token] else [value.magnitude.token]

end Value

namespace Expr

/-- Whether all literals and variables of a tree have a text: reals are finite and variables have
    names. -/
def isPrintable : Expr → Bool
  | .lit _ value => value.isFinite
  | .var _ name => isVariableName name
  | .binary _ _ left right => left.isPrintable && right.isPrintable
  | .cond _ condition whenTrue whenFalse =>
    condition.isPrintable && whenTrue.isPrintable && whenFalse.isPrintable

/-- Whether no literal of a tree is the least integer. -/
def isReadable : Expr → Bool
  | .lit _ value => value.isReadable
  | .var .. => true
  | .binary _ _ left right => left.isReadable && right.isReadable
  | .cond _ condition whenTrue whenFalse =>
    condition.isReadable && whenTrue.isReadable && whenFalse.isReadable

/-- Whether a tree is written with a sign that no parenthesis ties to what follows it. -/
def hasBareSign : Expr → Bool
  | .lit false value => value.isNegative
  | _ => false

/-- The tree that the canonical source of a tree is read back as. -/
def reread : Expr → Expr
  | .lit negative value => .lit (negative != value.isNegative) value.magnitude
  | .var negative name => .var negative name
  | .binary negative op left right =>
    -- a bare sign before the base of a power belongs to the power
    if op = .arithmetic .power ∧ left.hasBareSign then
      .binary (!negative) op left.reread.negated right.reread
    else .binary negative op left.reread right.reread
  | .cond negative condition whenTrue whenFalse =>
    .cond negative condition.reread whenTrue.reread whenFalse.reread

end Expr

/-! ## Values -/

/-- Only the least integer has no opposite. -/
theorem toInt_neg_of_ne {i : Int64} (h : i ≠ Int64.minValue) : (-i).toInt = -i.toInt := by
  have hlo := i.le_toInt
  have hhi := i.toInt_lt
  have hne : i.toInt ≠ -2 ^ 63 := fun heq =>
    h (Int64.toInt_inj.mp (heq.trans Int64.toInt_minValue.symm))
  rw [Int64.toInt_neg]
  exact Int.bmod_eq_of_le (by omega) (by omega)

namespace Value

/-- The text of a value is its sign and its digits. -/
theorem toList_text {value : Value} (hfinite : value.isFinite = true)
    (hreadable : value.isReadable = true) :
    value.text.toList = (if value.isNegative then ['-'] else []) ++ value.magnitude.text.toList := by
  cases value with
  | boolean b => rfl
  | integer i =>
    -- only a negative number has a sign in its text
    by_cases hsign : i < 0
    · have hneg := toInt_neg_of_ne (bne_iff_ne.mp hreadable)
      have hlt : i.toInt < 0 := Int64.lt_iff_toInt_lt.mp hsign
      simp only [isNegative, magnitude, hsign, decide_true, if_true, text]
      rw [Numeral.toList_toString_neg hlt, hneg]
      rfl
    · simp only [isNegative, magnitude, hsign, decide_false]
      rfl
  | real x =>
    by_cases hsign : Binary64.isNegative x = true
    · simp only [isNegative, magnitude, hsign, if_true, text]
      exact Layout.toList_pointed_of_isNegative hfinite hsign
    · simp only [isNegative, magnitude, hsign]
      rfl

/-- The magnitude of a value can be written. -/
theorem isCanonical_magnitude {value : Value} (hfinite : value.isFinite = true)
    (hreadable : value.isReadable = true) : value.magnitude.isCanonical = true := by
  cases value with
  | boolean b => rfl
  | integer i =>
    apply decide_eq_true
    rw [Int64.le_iff_toInt_le]
    -- a readable integer is not the least one, so its negation is not negative
    by_cases hsign : i < 0
    · have hlt : i.toInt < 0 := Int64.lt_iff_toInt_lt.mp hsign
      rw [if_pos hsign, toInt_neg_of_ne (bne_iff_ne.mp hreadable), Int64.toInt_zero]
      omega
    · rw [if_neg hsign]
      exact Int.not_lt.mp fun hlt => hsign (Int64.lt_iff_toInt_lt.mpr hlt)
  | real x =>
    have hx : x.isFinite = true := hfinite
    -- a real loses its sign, and stays finite
    by_cases hsign : Binary64.isNegative x = true
    · simp [magnitude, isCanonical, hsign, Binary64.isFinite_neg hx, Binary64.isNegative_neg hx]
    · simp [magnitude, isCanonical, hsign, hx]

/-- The text of a value has its sign and its literal as tokens. -/
theorem writes_tokens {value : Value} (hfinite : value.isFinite = true)
    (hreadable : value.isReadable = true) : Writes value.text value.tokens := by
  intro rest hrest
  have hmagnitude := writes_text (isCanonical_magnitude hfinite hreadable) hrest
  rw [toList_text hfinite hreadable, tokens]
  by_cases hsign : value.isNegative = true
  · rw [if_pos hsign, if_pos hsign]
    exact hmagnitude.minus
  · rw [if_neg hsign, if_neg hsign]
    exact hmagnitude

end Value

/-! ## Sign flags -/

namespace Expr

variable {tree : Expr}

theorem print_withSign (h : tree.isNegative = false) :
    (tree.withSign true).print = signedSource true tree.print := by
  cases tree <;> cases h <;> rfl

theorem reread_withSign (h : tree.isNegative = false) :
    (tree.withSign true).reread = tree.reread.negated := by
  cases tree with
  | lit negative value =>
    cases h
    cases hsign : value.isNegative <;> simp only [withSign, reread, hsign] <;> rfl
  | binary negative op left right =>
    cases h
    simp only [withSign, reread]
    split <;> rfl
  | var | cond =>
    cases h
    rfl

/-- Reading back keeps the shape of a tree. -/
theorem depth_reread (tree : Expr) : tree.reread.depth = tree.depth := by
  induction tree with
  | lit | var => rfl
  | binary negative op left right ihl ihr =>
    simp only [reread]
    split
    · simp only [depth, negated, depth_withSign, ihl, ihr]
    · simp only [depth, ihl, ihr]
  | cond negative condition whenTrue whenFalse ihc iht ihf =>
    simp only [reread, depth, ihc, iht, ihf]

end Expr

/-! ## Reading back -/

/-- The tokens of the canonical source of a tree, and how they are read back.  A bare sign has to
    stand before something that is no power.  A set sign flag takes two levels of nesting, for which
    a tree with a clear one has room. -/
structure Rereads (tree : Expr) (ts : List Token) : Prop where
  writes : Writes tree.print ts
  reads : ∀ rest, (tree.hasBareSign = true → Stops .unary rest) →
    ∃ need, need + (if tree.isNegative then 0 else 2) < 5 * tree.depth ∧
      Reads .operand need (ts ++ rest) tree.reread rest

namespace Rereads

variable {tree left right condition whenTrue whenFalse : Expr} {cs ts fs ls rs : List Token}

/-- Where no operator follows, it does not matter whether a sign is bare. -/
theorem exists_reads (h : Rereads tree ts) (rest : List Token)
    (hrest : operatorAhead? rest = none) :
    ∃ need, need < 5 * tree.depth ∧ Reads .operand need (ts ++ rest) tree.reread rest := by
  obtain ⟨need, hneed, hreads⟩ := h.reads rest fun _ => stops_of_none hrest
  exact ⟨need, Nat.lt_of_le_of_lt (Nat.le_add_right _ _) hneed, hreads⟩

/-- A sign flag is read back like any sign in parentheses. -/
theorem signed (h : Rereads tree ts) (hsign : tree.isNegative = false) (negative : Bool) :
    Rereads (tree.withSign negative) (Expr.signedTokens negative ts) := by
  cases negative with
  | false =>
    rw [← hsign, Expr.withSign_isNegative, hsign]
    exact h
  | true =>
    refine ⟨?_, fun rest _ => ?_⟩
    · rw [Expr.print_withSign hsign]
      exact h.writes.signed true
    · -- the printed sign has parentheses of its own, which take one level more
      obtain ⟨need, hneed, hreads⟩ := h.reads (.mark .rightParen :: rest) fun _ =>
        stops_of_none rfl
      rw [hsign, if_neg Bool.false_ne_true] at hneed
      rw [Expr.reread_withSign hsign]
      exact ⟨need + 2, by simpa using hneed, hreads.negated⟩

/-- A literal is read back as the magnitude of its value, behind its sign. -/
theorem lit {value : Value} (hfinite : value.isFinite = true)
    (hreadable : value.isReadable = true) : Rereads (.lit false value) value.tokens := by
  refine ⟨Value.writes_tokens hfinite hreadable, fun rest hrest => ?_⟩
  have hmagnitude : Reads .operand 0 (value.magnitude.token :: rest)
      (.lit false value.magnitude) rest := .operand value.magnitude.operand?_token
  simp only [Expr.hasBareSign] at hrest
  simp only [Value.tokens, Expr.reread]
  cases hsign : value.isNegative with
  | false => exact ⟨0, by simp [Expr.isNegative, Expr.depth], hmagnitude⟩
  | true =>
    exact ⟨1, by simp [Expr.isNegative, Expr.depth],
      .minus (hmagnitude.toExpression (hrest hsign))⟩

theorem var {name : String} (hname : isVariableName name = true) :
    Rereads (.var false name) [.identifier name] :=
  ⟨fun _ hrest => Leads.stay.identifier hname hrest,
    fun _ _ => ⟨0, by simp [Expr.isNegative, Expr.depth], .operand rfl⟩⟩

/-- An operator whose left operand keeps its sign. -/
theorem binary {op : Operator} (hl : Rereads left ls) (hr : Rereads right rs)
    (hbase : ¬ (op = .arithmetic .power ∧ left.hasBareSign = true)) :
    Rereads (.binary false op left right)
      (.mark .leftParen :: (ls ++ op.token :: (rs ++ [.mark .rightParen]))) := by
  refine ⟨hl.writes.binary op hr.writes, fun rest _ => ?_⟩
  -- only a power is strong enough to take the operand away from its sign
  have hstops : left.hasBareSign = true →
      Stops .unary (op.token :: (rs ++ .mark .rightParen :: rest)) := by
    intro hbare op' hop'
    obtain rfl := Option.some.inj (op.operator?_token.symm.trans hop')
    exact op.groupsLeft_of_ne_power fun hpower => hbase ⟨Operator.eq_power hpower, hbare⟩
  obtain ⟨n₁, hn₁, hleft⟩ := hl.reads _ hstops
  obtain ⟨n₂, hn₂, hright⟩ := hr.exists_reads (.mark .rightParen :: rest) rfl
  rw [Expr.reread, if_neg hbase]
  refine ⟨_, ?_, Reads.binary op hleft hright⟩
  simp only [Expr.isNegative, Expr.depth]
  simp
  omega

/-- A power whose base has a bare sign: the sign is read back as the one of the power. -/
theorem power {value : Value} (hfinite : value.isFinite = true)
    (hreadable : value.isReadable = true) (hsign : value.isNegative = true)
    (hr : Rereads right rs) :
    Rereads (.binary false (.arithmetic .power) (.lit false value) right)
      (.mark .leftParen :: (value.tokens ++ .mark .caret :: (rs ++ [.mark .rightParen]))) := by
  refine ⟨(Value.writes_tokens hfinite hreadable).binary (.arithmetic .power) hr.writes,
    fun rest _ => ?_⟩
  obtain ⟨n₂, hn₂, hright⟩ := hr.exists_reads (.mark .rightParen :: rest) rfl
  have hbase : Reads .operand 0
      ([value.magnitude.token] ++ .mark .caret :: (rs ++ .mark .rightParen :: rest))
      (.lit false value.magnitude) (.mark .caret :: (rs ++ .mark .rightParen :: rest)) :=
    .operand value.magnitude.operand?_token
  -- behind the sign the whole power is read
  have hpower : Reads (.expression .unary) (max 0 (n₂ + 1) + 1)
      ([value.magnitude.token] ++ .mark .caret :: (rs ++ .mark .rightParen :: rest))
      (.binary false (.arithmetic .power) (.lit false value.magnitude) right.reread)
      (.mark .rightParen :: rest) :=
    Reads.joined (.arithmetic .power) (by decide) hbase hright
  -- so it is the power that is negated, not its base
  have htokens : value.tokens = [.mark .minus, value.magnitude.token] := if_pos hsign
  have hreread : (Expr.binary false (.arithmetic .power) (.lit false value) right).reread =
      .binary true (.arithmetic .power) (.lit false value.magnitude) right.reread := by
    simp only [Expr.reread, Expr.hasBareSign, hsign]
    rfl
  rw [hreread, htokens]
  refine ⟨max 0 (n₂ + 1) + 1 + 1, ?_, ?_⟩
  · simp only [Expr.isNegative, Expr.depth]
    simp
    omega
  · simp only [List.cons_append, List.append_assoc, List.nil_append] at hpower ⊢
    exact hpower.minus.inParens

theorem cond (hc : Rereads condition cs) (ht : Rereads whenTrue ts) (hf : Rereads whenFalse fs) :
    Rereads (.cond false condition whenTrue whenFalse)
      (.mark .leftParen :: .keyword .ifWord :: (cs ++ .keyword .thenWord ::
        (ts ++ .keyword .elseWord :: (fs ++ [.mark .rightParen])))) := by
  refine ⟨hc.writes.cond ht.writes hf.writes, fun rest _ => ?_⟩
  obtain ⟨n₃, hn₃, hfalse⟩ := hf.exists_reads (.mark .rightParen :: rest) rfl
  obtain ⟨n₂, hn₂, htrue⟩ := ht.exists_reads
    (.keyword .elseWord :: (fs ++ .mark .rightParen :: rest)) rfl
  obtain ⟨n₁, hn₁, hcondition⟩ := hc.exists_reads
    (.keyword .thenWord :: (ts ++ .keyword .elseWord :: (fs ++ .mark .rightParen :: rest))) rfl
  refine ⟨_, ?_, Reads.cond hcondition htrue hfalse⟩
  simp only [Expr.isNegative, Expr.depth]
  simp
  omega

end Rereads

/-- The canonical source of every tree whose literals can be read has tokens that are read back. -/
theorem exists_rereads {tree : Expr} (hprintable : tree.isPrintable = true)
    (hreadable : tree.isReadable = true) : ∃ ts, Rereads tree ts := by
  -- on the tree; a node with a sign is the node without it, and then `signed`
  induction tree with
  | lit negative value => exact ⟨_, (Rereads.lit hprintable hreadable).signed rfl negative⟩
  | var negative name => exact ⟨_, (Rereads.var hprintable).signed rfl negative⟩
  | binary negative op left right ihl ihr =>
    simp only [Expr.isPrintable, Bool.and_eq_true] at hprintable
    simp only [Expr.isReadable, Bool.and_eq_true] at hreadable
    obtain ⟨rs, hr⟩ := ihr hprintable.2 hreadable.2
    by_cases hbase : op = .arithmetic .power ∧ left.hasBareSign = true
    · obtain ⟨rfl, hbare⟩ := hbase
      -- the base is a literal with a clear flag
      cases left with
      | lit flag value =>
        cases flag with
        | true => exact nomatch hbare
        | false =>
          have hpower := Rereads.power hprintable.1 hreadable.1 hbare hr
          exact ⟨_, hpower.signed rfl negative⟩
      | var | binary | cond => exact nomatch hbare
    · obtain ⟨ls, hl⟩ := ihl hprintable.1 hreadable.1
      exact ⟨_, (hl.binary hr hbase).signed rfl negative⟩
  | cond negative condition whenTrue whenFalse ihc iht ihf =>
    simp only [Expr.isPrintable, Bool.and_eq_true] at hprintable
    simp only [Expr.isReadable, Bool.and_eq_true] at hreadable
    obtain ⟨cs, hc⟩ := ihc hprintable.1.1 hreadable.1.1
    obtain ⟨ts, ht⟩ := iht hprintable.1.2 hreadable.1.2
    obtain ⟨fs, hf⟩ := ihf hprintable.2 hreadable.2
    exact ⟨_, (hc.cond ht hf).signed rfl negative⟩

/-! ## Literals of the least integer -/

/-- Whether a source text stops being tokens wherever no word and no number goes on behind it. -/
def Breaks (source : String) : Prop :=
  ∀ ⦃rest⦄, Delimited rest → Unreadable (source.toList ++ rest)

/-- The digits of the least integer are too large for a literal. -/
theorem breaks_least : Breaks (Value.integer Int64.minValue).text := by
  intro rest hrest
  have hlist : (Value.integer Int64.minValue).text.toList ++ rest =
      '-' :: ("9223372036854775808".toList ++ rest) := rfl
  rw [hlist]
  apply Leads.stay.minus.unreadable
  have hdigits : ∀ c ∈ "9223372036854775808".toList, c.isDigit = true := List.all_eq_true.mp rfl
  have hvalue : Numeral.signedInteger? false "9223372036854775808".toList = none := by
    decide +kernel
  exact unreadable_digits (List.cons_ne_nil _ _) hdigits hvalue hrest

namespace Breaks

variable {left right condition whenTrue whenFalse : String} {cs ts ls : List Token}

theorem signed {source : String} (h : Breaks source) (negative : Bool) :
    Breaks (Expr.signedSource negative source) := by
  cases negative with
  | false => exact h
  | true =>
    intro rest _
    rw [toList_signedSource_append]
    exact Leads.stay.minus.leftParen.unreadable (h (delimited_rightParen rest))

theorem binary_left (op : Operator) (hl : Breaks left) :
    Breaks ("(" ++ left ++ " " ++ op.symbol ++ " " ++ right ++ ")") := by
  intro rest _
  rw [toList_binary_append]
  exact Leads.stay.leftParen.unreadable (hl (delimited_blank _))

theorem binary_right (op : Operator) (hl : Writes left ls) (hr : Breaks right) :
    Breaks ("(" ++ left ++ " " ++ op.symbol ++ " " ++ right ++ ")") := by
  intro rest _
  rw [toList_binary_append]
  apply Leads.stay.leftParen.unreadable
  apply (hl (delimited_blank _)).unreadable
  apply (Leads.stay.operator op).blank.unreadable
  exact hr (delimited_rightParen rest)

theorem cond_condition (hc : Breaks condition) :
    Breaks ("(if " ++ condition ++ " then " ++ whenTrue ++ " else " ++ whenFalse ++ ")") := by
  intro rest _
  rw [toList_cond_append]
  apply Leads.stay.leftParen.unreadable
  apply (Leads.stay.blank.keyword .ifWord (delimited_blank _)).unreadable
  exact hc (delimited_blank _)

theorem cond_whenTrue (hc : Writes condition cs) (ht : Breaks whenTrue) :
    Breaks ("(if " ++ condition ++ " then " ++ whenTrue ++ " else " ++ whenFalse ++ ")") := by
  intro rest _
  rw [toList_cond_append]
  apply Leads.stay.leftParen.unreadable
  apply (Leads.stay.blank.keyword .ifWord (delimited_blank _)).unreadable
  apply (hc (delimited_blank _)).unreadable
  apply (Leads.stay.blank.keyword .thenWord (delimited_blank _)).blank.unreadable
  exact ht (delimited_blank _)

theorem cond_whenFalse (hc : Writes condition cs) (ht : Writes whenTrue ts) (hf : Breaks whenFalse) :
    Breaks ("(if " ++ condition ++ " then " ++ whenTrue ++ " else " ++ whenFalse ++ ")") := by
  intro rest _
  rw [toList_cond_append]
  apply Leads.stay.leftParen.unreadable
  apply (Leads.stay.blank.keyword .ifWord (delimited_blank _)).unreadable
  apply (hc (delimited_blank _)).unreadable
  apply (Leads.stay.blank.keyword .thenWord (delimited_blank _)).blank.unreadable
  apply (ht (delimited_blank _)).unreadable
  apply (Leads.stay.blank.keyword .elseWord (delimited_blank _)).blank.unreadable
  exact hf (delimited_rightParen rest)

end Breaks

/-- The canonical source of a tree with a literal of the least integer is not all tokens. -/
theorem breaks_print {tree : Expr} (hprintable : tree.isPrintable = true)
    (hreadable : tree.isReadable = false) : Breaks tree.print := by
  -- on the tree: an unreadable literal breaks every text that it stands in
  induction tree with
  | lit negative value =>
    -- the one literal that is not readable is the least integer
    cases value with
    | real | boolean => exact nomatch hreadable
    | integer i =>
      obtain rfl : i = Int64.minValue := by
        simpa [Expr.isReadable, Value.isReadable] using hreadable
      exact breaks_least.signed negative
  | var => exact nomatch hreadable
  | binary negative op left right ihl ihr =>
    simp only [Expr.isPrintable, Bool.and_eq_true] at hprintable
    apply Breaks.signed
    -- up to the first operand that breaks everything is read
    cases hleft : left.isReadable with
    | false => exact (ihl hprintable.1 hleft).binary_left op
    | true =>
      simp only [Expr.isReadable, hleft, Bool.true_and] at hreadable
      obtain ⟨ls, hl⟩ := exists_rereads hprintable.1 hleft
      exact (ihr hprintable.2 hreadable).binary_right op hl.writes
  | cond negative condition whenTrue whenFalse ihc iht ihf =>
    simp only [Expr.isPrintable, Bool.and_eq_true] at hprintable
    apply Breaks.signed
    -- the condition, then the branches, in the order they are read
    cases hcondition : condition.isReadable with
    | false => exact (ihc hprintable.1.1 hcondition).cond_condition
    | true =>
      obtain ⟨cs, hc⟩ := exists_rereads hprintable.1.1 hcondition
      cases htrue : whenTrue.isReadable with
      | false => exact Breaks.cond_whenTrue hc.writes (iht hprintable.1.2 htrue)
      | true =>
        simp only [Expr.isReadable, hcondition, htrue, Bool.true_and] at hreadable
        obtain ⟨ts, ht⟩ := exists_rereads hprintable.1.2 htrue
        exact Breaks.cond_whenFalse hc.writes ht.writes (ihf hprintable.2 hreadable)

/-! ## Parsing -/

namespace Expr

/-- Whatever the limits are, a source text parses to one tree at most. -/
theorem eq_of_parseWithin {source : String} {limit limit' : Nat} {tree tree' : Expr}
    (h : parseWithin limit source = .ok tree) (h' : parseWithin limit' source = .ok tree') :
    tree = tree' := by
  obtain ⟨lexemes, failure?, hyields⟩ := Cursor.exists_yieldsUpTo (Cursor.ofSource source)
  rcases parseWithin_cases limit hyields with ⟨t, ht, rfl, -⟩ | ⟨e, he, -⟩
  · have hall := Cursor.yieldsUpTo_none_iff.mp hyields
    obtain ⟨_, _, hreads, _⟩ := (parseWithin_eq_ok_iff hall).mp h
    obtain ⟨_, _, hreads', _⟩ := (parseWithin_eq_ok_iff hall).mp h'
    exact (hreads.unique hreads').2.1
  · exact nomatch h.symm.trans he

variable {tree : Expr}

/-- With enough room for its nesting the canonical source of a tree is read back. -/
theorem parseWithin_print_of_isReadable (hprintable : tree.isPrintable = true)
    (hreadable : tree.isReadable = true) {limit : Nat} (hlimit : 5 * tree.depth ≤ limit) :
    parseWithin limit tree.print = .ok tree.reread := by
  obtain ⟨ts, hts⟩ := exists_rereads hprintable hreadable
  obtain ⟨lexemes, hyields, htokens⟩ := (hts.writes delimited_nil).scans .nil 0
  rw [List.append_nil] at hyields
  obtain ⟨need, hneed, hreads⟩ := hts.exists_reads [] rfl
  have hwhole : Reads (.expression .or) (need + 1) (ts ++ []) tree.reread [] :=
    hreads.toExpression (stops_of_none rfl)
  rw [← htokens] at hwhole
  have hdepth : tree.reread.depth ≤ limit := by
    rw [depth_reread]
    omega
  exact (parseWithin_eq_ok_iff hyields).mpr ⟨need + 1, by omega, hwhole, hdepth⟩

/-- The canonical source of a tree with a literal of the least integer parses under no limit. -/
theorem parseWithin_print_ne_ok (hprintable : tree.isPrintable = true)
    (hreadable : tree.isReadable = false) (limit : Nat) (tree' : Expr) :
    parseWithin limit tree.print ≠ .ok tree' := by
  intro hparse
  obtain ⟨lexemes, e, hyields⟩ := breaks_print hprintable hreadable delimited_nil 0
  rw [List.append_nil] at hyields
  rcases parseWithin_cases limit hyields with ⟨_, _, hnone, _⟩ | ⟨e', herror, -⟩
  · exact nomatch hnone
  · exact nomatch hparse.symm.trans herror

/-- The canonical source of a tree parses exactly if no literal is the least integer, and then to
    the tree with the signs of its values read back. -/
theorem exists_parseWithin_print_eq_ok_iff (hprintable : tree.isPrintable = true) (tree' : Expr) :
    (∃ limit, parseWithin limit tree.print = .ok tree') ↔
      tree.isReadable = true ∧ tree' = tree.reread := by
  constructor
  · intro h
    obtain ⟨limit, hparse⟩ := h
    cases hreadable : tree.isReadable with
    | false => exact absurd hparse (parseWithin_print_ne_ok hprintable hreadable limit tree')
    | true =>
      have hback := parseWithin_print_of_isReadable hprintable hreadable (Nat.le_refl _)
      exact ⟨rfl, eq_of_parseWithin hparse hback⟩
  · intro h
    obtain ⟨hreadable, rfl⟩ := h
    exact ⟨_, parseWithin_print_of_isReadable hprintable hreadable (Nat.le_refl _)⟩

end Expr

end Formula
