import Formula.Expr.Text
import Formula.Proofs.Token.Scanning

/-!
# The tokens of canonical trees

A tree is *canonical* if it could have been written: its numbers are not negative, its reals are
finite, and its variables have names.  The canonical source of such a tree has the tokens
`Expr.tokens` (`writes_print`).
-/

namespace Formula

/-- Whether a word names a variable: a letter or an underscore, then letters, digits and
    underscores, and not a reserved word. -/
def isVariableName (name : String) : Bool :=
  match name.toList with
  | [] => false
  | first :: more =>
    Cursor.isWordStart first && more.all Cursor.isWordPart && !Keyword.isReserved name

/-- Whether a value can be written as a literal.  Signs are no part of literals. -/
def Value.isCanonical : Value → Bool
  | .integer i => decide (0 ≤ i)
  | .real x => x.isFinite && !Binary64.isNegative x
  | .boolean _ => true

/-- Whether all literals and variables of a tree can be written; sign flags always can. -/
def Expr.isCanonical : Expr → Bool
  | .lit _ value => value.isCanonical
  | .var _ name => isVariableName name
  | .binary _ _ left right => left.isCanonical && right.isCanonical
  | .cond _ condition whenTrue whenFalse =>
    condition.isCanonical && whenTrue.isCanonical && whenFalse.isCanonical

/-- The token of a literal. -/
def Value.token : Value → Token
  | .integer i => .integer i
  | .real x => .real x
  | .boolean true => .keyword .trueWord
  | .boolean false => .keyword .falseWord

/-- The token of an operator. -/
def Operator.token : Operator → Token
  | .arithmetic .add => .mark .plus
  | .arithmetic .subtract => .mark .minus
  | .arithmetic .multiply => .mark .star
  | .arithmetic .divide => .mark .slash
  | .arithmetic .modulo => .mark .percent
  | .arithmetic .power => .mark .caret
  | .and => .keyword .andWord
  | .or => .keyword .orWord
  | .distinct => .keyword .notWord
  | .compare .equal => .mark .equal
  | .compare .notEqual => .mark .notEqual
  | .compare .lessThan => .mark .less
  | .compare .lessThanOrEqual => .mark .lessOrEqual
  | .compare .greaterThan => .mark .greater
  | .compare .greaterThanOrEqual => .mark .greaterOrEqual

@[simp] theorem Operator.operator?_token (op : Operator) : op.token.operator? = some op := by
  cases op with
  | arithmetic op => cases op <;> rfl
  | compare comparator => cases comparator <;> rfl
  | and | or | distinct => rfl

namespace Expr

/-- The tokens of a node with its sign flag, given its tokens without. -/
def signedTokens (negative : Bool) (tokens : List Token) : List Token :=
  if negative then .mark .leftParen :: .mark .minus :: (tokens ++ [.mark .rightParen]) else tokens

/-- The tokens of the canonical source of a tree. -/
def tokens : Expr → List Token
  | .lit negative value => signedTokens negative [value.token]
  | .var negative name => signedTokens negative [.identifier name]
  | .binary negative op left right =>
    signedTokens negative
      (.mark .leftParen :: (left.tokens ++ op.token :: (right.tokens ++ [.mark .rightParen])))
  | .cond negative condition whenTrue whenFalse =>
    signedTokens negative
      (.mark .leftParen :: .keyword .ifWord :: (condition.tokens ++ .keyword .thenWord ::
        (whenTrue.tokens ++ .keyword .elseWord :: (whenFalse.tokens ++ [.mark .rightParen]))))

end Expr

/-! ## Words -/

namespace Leads

variable {behind rest : List Char} {tokens : List Token}

theorem identifier {name : String} (hname : isVariableName name = true)
    (hbehind : Delimited behind) (h : Leads behind tokens rest) :
    Leads (name.toList ++ behind) (.identifier name :: tokens) rest := by
  unfold isVariableName at hname
  split at hname
  · exact nomatch hname
  · next first more hlist =>
    simp only [Bool.and_eq_true, Bool.not_eq_true', List.all_eq_true, Keyword.isReserved,
      Option.isSome_eq_false_iff, Option.isNone_iff_eq_none] at hname
    obtain ⟨⟨hfirst, hmore⟩, hreserved⟩ := hname
    have hword := word hfirst hmore hbehind h
    rwa [← hlist, String.ofList_toList, Cursor.wordToken, hreserved] at hword

theorem keyword (keyword : Keyword) (hbehind : Delimited behind) (h : Leads behind tokens rest) :
    Leads (keyword.spelling.toList ++ behind) (.keyword keyword :: tokens) rest := by
  have hword : ∃ first more, keyword.spelling.toList = first :: more ∧
      Cursor.isWordStart first = true ∧ ∀ c ∈ more, Cursor.isWordPart c = true := by
    cases keyword <;> exact ⟨_, _, rfl, rfl, List.all_eq_true.mp rfl⟩
  have htoken : Cursor.wordToken keyword.spelling = .keyword keyword := by
    cases keyword <;> decide
  obtain ⟨first, more, hlist, hfirst, hmore⟩ := hword
  have hleads := word hfirst hmore hbehind h
  rwa [← hlist, String.ofList_toList, htoken] at hleads

/-- An operator with the blank behind it. -/
theorem operator (op : Operator) (h : Leads behind tokens rest) :
    Leads (op.symbol.toList ++ ' ' :: behind) (op.token :: tokens) rest := by
  cases op with
  | and => exact keyword .andWord (delimited_blank behind) h.blank
  | or => exact keyword .orWord (delimited_blank behind) h.blank
  | distinct => exact keyword .notWord (delimited_blank behind) h.blank
  | arithmetic op => cases op <;> exact h.blank.cons fun _ => ⟨_, _, rfl, rfl⟩
  | compare comparator => cases comparator <;> exact h.blank.cons fun _ => ⟨_, _, rfl, rfl⟩

end Leads

/-! ## Canonical sources -/

/-- Whether a source text has the given tokens wherever no word and no number goes on behind it. -/
def Writes (source : String) (tokens : List Token) : Prop :=
  ∀ ⦃rest⦄, Delimited rest → Leads (source.toList ++ rest) tokens rest

/-- The text of a value that can be written is its literal. -/
theorem writes_text {value : Value} (h : value.isCanonical = true) :
    Writes value.text [value.token] := by
  intro rest hrest
  -- a literal has no sign, and its text is the only lexeme
  cases value with
  | integer i =>
    have hclear : decide (i < 0) = false := decide_eq_false (Int64.not_lt.mpr (of_decide_eq_true h))
    obtain ⟨digits, hlist, hne, hdigits, hvalue⟩ := Numeral.exists_digits_integer i
    rw [hclear] at hlist hvalue
    rw [Value.text, hlist, if_neg Bool.false_ne_true, List.nil_append]
    exact Leads.stay.integer hne hdigits hvalue hrest
  | real x =>
    obtain ⟨hfinite, hsign⟩ := Bool.and_eq_true_iff.mp h
    obtain ⟨whole, fraction, hlist, hwhole, hfraction, hwholeDigits, hfractionDigits, hvalue⟩ :=
      Layout.exists_digits_pointed hfinite
    -- canonical reals are finite and have no sign, so their text starts with a digit
    have hclear : Binary64.isNegative x = false := by simpa using hsign
    rw [hclear] at hlist hvalue
    rw [Value.text, hlist, if_neg Bool.false_ne_true, List.nil_append, List.append_assoc]
    exact Leads.stay.real hwhole hfraction hwholeDigits hfractionDigits hvalue hfinite hrest
  | boolean b =>
    cases b with
    | true => exact Leads.stay.keyword .trueWord hrest
    | false => exact Leads.stay.keyword .falseWord hrest

/-- The text of a sign flag, character by character. -/
theorem toList_signedSource_append (source : String) (rest : List Char) :
    (Expr.signedSource true source).toList ++ rest =
      '(' :: '-' :: (source.toList ++ ')' :: rest) := by
  simp [Expr.signedSource]

/-- The text of an operator between its operands, with each of the three apart. -/
theorem toList_binary_append (left right : String) (op : Operator) (rest : List Char) :
    ("(" ++ left ++ " " ++ op.symbol ++ " " ++ right ++ ")").toList ++ rest =
      '(' :: (left.toList ++ ' ' :: (op.symbol.toList ++ ' ' ::
        (right.toList ++ ')' :: rest))) := by
  simp

/-- The text of a conditional, with each reserved word and its blank apart. -/
theorem toList_cond_append (condition whenTrue whenFalse : String) (rest : List Char) :
    ("(if " ++ condition ++ " then " ++ whenTrue ++ " else " ++ whenFalse ++ ")").toList ++ rest =
      '(' :: (Keyword.ifWord.spelling.toList ++ ' ' :: (condition.toList ++ ' ' ::
        (Keyword.thenWord.spelling.toList ++ ' ' :: (whenTrue.toList ++ ' ' ::
          (Keyword.elseWord.spelling.toList ++ ' ' ::
            (whenFalse.toList ++ ')' :: rest)))))) := by
  simp [Keyword.spelling]

namespace Writes

/-- A sign flag is written by parentheses and a minus sign. -/
theorem signed {source : String} {tokens : List Token} (h : Writes source tokens)
    (negative : Bool) :
    Writes (Expr.signedSource negative source) (Expr.signedTokens negative tokens) := by
  cases negative with
  | false => exact h
  | true =>
    intro rest _
    have hinner := (h (delimited_rightParen rest)).trans Leads.stay.rightParen
    rw [toList_signedSource_append]
    exact hinner.minus.leftParen

/-- An operator is written between its operands, in parentheses. -/
theorem binary {left right : String} {ls rs : List Token} (op : Operator) (hl : Writes left ls)
    (hr : Writes right rs) :
    Writes ("(" ++ left ++ " " ++ op.symbol ++ " " ++ right ++ ")")
      (.mark .leftParen :: (ls ++ op.token :: (rs ++ [.mark .rightParen]))) := by
  intro rest _
  -- from the last piece of the text to the first
  have hright := (hr (delimited_rightParen rest)).trans Leads.stay.rightParen
  have hleft := (hl (delimited_blank _)).trans (hright.operator op).blank
  rw [toList_binary_append]
  exact hleft.leftParen

/-- A conditional is written in parentheses. -/
theorem cond {condition whenTrue whenFalse : String} {cs ts fs : List Token}
    (hc : Writes condition cs) (ht : Writes whenTrue ts) (hf : Writes whenFalse fs) :
    Writes ("(if " ++ condition ++ " then " ++ whenTrue ++ " else " ++ whenFalse ++ ")")
      (.mark .leftParen :: .keyword .ifWord :: (cs ++ .keyword .thenWord ::
        (ts ++ .keyword .elseWord :: (fs ++ [.mark .rightParen])))) := by
  intro rest _
  have hfalse := (hf (delimited_rightParen rest)).trans Leads.stay.rightParen
  have helse := hfalse.blank.keyword .elseWord (delimited_blank _)
  have htrue := (ht (delimited_blank _)).trans helse.blank
  have hthen := htrue.blank.keyword .thenWord (delimited_blank _)
  have hcondition := (hc (delimited_blank _)).trans hthen.blank
  have hif := hcondition.blank.keyword .ifWord (delimited_blank _)
  rw [toList_cond_append]
  exact hif.leftParen

end Writes

/-- The canonical source of a canonical tree leads over the tokens of the tree. -/
theorem leads_print {tree : Expr} (h : tree.isCanonical = true) :
    Writes tree.print tree.tokens := by
  induction tree with
  | lit negative value => exact (writes_text h).signed negative
  | var negative name =>
    have hname : Writes name [.identifier name] := fun _ hrest => Leads.stay.identifier h hrest
    exact hname.signed negative
  | binary negative op left right ihl ihr =>
    obtain ⟨hl, hr⟩ := Bool.and_eq_true_iff.mp h
    exact ((ihl hl).binary op (ihr hr)).signed negative
  | cond negative condition whenTrue whenFalse ihc iht ihf =>
    obtain ⟨hct, hf⟩ := Bool.and_eq_true_iff.mp h
    obtain ⟨hc, ht⟩ := Bool.and_eq_true_iff.mp hct
    exact ((ihc hc).cond (iht ht) (ihf hf)).signed negative

/-- The canonical source of a canonical tree has the tokens of the tree. -/
theorem writes_print {tree : Expr} (h : tree.isCanonical = true) {rest : List Char}
    {following : List Token} (hrest : Delimited rest) (hfollowing : Scans rest following) :
    Scans (tree.print.toList ++ rest) (tree.tokens ++ following) :=
  (leads_print h hrest).scans hfollowing

end Formula
