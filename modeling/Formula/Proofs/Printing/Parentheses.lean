import Formula.Proofs.Printing.Canonical

/-!
# What parentheses add

A tree is written in two ways: by people without parentheses (`Expr.text`), and as canonical source
with one around every operator, conditional and sign (`Expr.print`).  For a canonical tree both
texts are tokens, and without the parentheses the tokens are the same, one for one.

Spaces keep the other tokens apart in both texts.  A sign stands right before what it negates, so
that two of them may stand together, but no two marks that do could be read as one.
-/

namespace Formula

/-- Whether a token is a parenthesis. -/
def Token.isParen : Token → Bool
  | .mark .leftParen | .mark .rightParen => true
  | _ => false

@[simp] theorem Token.isParen_leftParen : (Token.mark .leftParen).isParen = true := rfl

@[simp] theorem Token.isParen_rightParen : (Token.mark .rightParen).isParen = true := rfl

@[simp] theorem Token.isParen_minus : (Token.mark .minus).isParen = false := rfl

@[simp] theorem Token.isParen_keyword (keyword : Keyword) :
    (Token.keyword keyword).isParen = false := rfl

@[simp] theorem Token.isParen_identifier (name : String) :
    (Token.identifier name).isParen = false := rfl

@[simp] theorem Operator.isParen_token (op : Operator) : op.token.isParen = false := by
  cases op with
  | arithmetic op => cases op <;> rfl
  | compare comparator => cases comparator <;> rfl
  | and | or | distinct => rfl

@[simp] theorem Value.isParen_token (value : Value) : value.token.isParen = false := by
  cases value with
  | integer | real => rfl
  | boolean b => cases b <;> rfl

/-- The tokens that are left without parentheses. -/
def dropParens (tokens : List Token) : List Token :=
  tokens.filter fun token => !token.isParen

@[simp] theorem dropParens_nil : dropParens [] = [] := rfl

@[simp] theorem dropParens_cons (token : Token) (tokens : List Token) :
    dropParens (token :: tokens) =
      if token.isParen then dropParens tokens else token :: dropParens tokens := by
  cases h : token.isParen <;> simp [dropParens, h]

@[simp] theorem dropParens_append (tokens following : List Token) :
    dropParens (tokens ++ following) = dropParens tokens ++ dropParens following :=
  List.filter_append ..

namespace Expr

/-- The tokens of a node with its sign flag where the sign has no parentheses. -/
def bareSigned (negative : Bool) (tokens : List Token) : List Token :=
  if negative then .mark .minus :: tokens else tokens

@[simp] theorem dropParens_signedTokens (negative : Bool) (tokens : List Token) :
    dropParens (signedTokens negative tokens) = bareSigned negative (dropParens tokens) := by
  cases negative <;> simp [signedTokens, bareSigned]

end Expr

/-! ## Texts without parentheses -/

namespace Writes

/-- A source text that leads over tokens to its end tokenizes to them. -/
theorem exists_tokenize {source : String} {tokens : List Token} (h : Writes source tokens) :
    ∃ lexemes, tokenize source = .ok lexemes ∧ lexemes.map Lexeme.token = tokens := by
  obtain ⟨lexemes, hyields, htokens⟩ := (h delimited_nil).scans .nil 0
  simp only [List.append_nil] at hyields htokens
  exact ⟨lexemes, tokenize_of_yields hyields, htokens⟩

/-- A sign flag without parentheses is a minus sign right before the node. -/
theorem bareSigned {source : String} {tokens : List Token} (h : Writes source tokens)
    (negative : Bool) :
    Writes (Expr.signMark negative ++ source) (Expr.bareSigned negative tokens) := by
  intro rest hrest
  cases negative with
  | false => simpa [Expr.signMark, Expr.bareSigned] using h hrest
  | true => simpa [Expr.signMark, Expr.bareSigned] using (h hrest).minus

/-- An operator without parentheses stands between its operands, apart from both. -/
theorem bareBinary {left right : String} {ls rs : List Token} (op : Operator)
    (hl : Writes left ls) (hr : Writes right rs) :
    Writes (left ++ " " ++ op.symbol ++ " " ++ right) (ls ++ op.token :: rs) := by
  intro rest hrest
  have hoperator := (hr hrest).operator op
  have hleft := (hl (delimited_blank _)).trans hoperator.blank
  simpa using hleft

/-- The words of a conditional without parentheses stand apart from its branches. -/
theorem bareCond {condition whenTrue whenFalse : String} {cs ts fs : List Token}
    (hc : Writes condition cs) (ht : Writes whenTrue ts) (hf : Writes whenFalse fs) :
    Writes ("if " ++ condition ++ " then " ++ whenTrue ++ " else " ++ whenFalse)
      (.keyword .ifWord :: (cs ++ .keyword .thenWord :: (ts ++ .keyword .elseWord :: fs))) := by
  intro rest hrest
  -- from the last piece of the text to the first
  have helse := (hf hrest).blank.keyword .elseWord (delimited_blank _)
  have htrue := (ht (delimited_blank _)).trans helse.blank
  have hthen := htrue.blank.keyword .thenWord (delimited_blank _)
  have hcondition := (hc (delimited_blank _)).trans hthen.blank
  have hif := hcondition.blank.keyword .ifWord (delimited_blank _)
  simpa [Keyword.spelling] using hif

end Writes

namespace Expr

variable {tree : Expr}

/-- The text of a canonical tree has the tokens of its canonical source, the parentheses apart. -/
theorem writes_bareText (h : tree.isCanonical = true) :
    Writes tree.text (dropParens tree.tokens) := by
  -- on the tree: both texts are put together from their parts in the same way
  induction tree with
  | lit negative value =>
    simpa [text, tokens] using (writes_text h).bareSigned negative
  | var negative name =>
    have hname : Writes name [.identifier name] := fun _ hrest => Leads.stay.identifier h hrest
    simpa [text, tokens] using hname.bareSigned negative
  | binary negative op left right ihl ihr =>
    obtain ⟨hl, hr⟩ := Bool.and_eq_true_iff.mp h
    simpa [text, tokens] using ((ihl hl).bareBinary op (ihr hr)).bareSigned negative
  | cond negative condition whenTrue whenFalse ihc iht ihf =>
    obtain ⟨hct, hf⟩ := Bool.and_eq_true_iff.mp h
    obtain ⟨hc, ht⟩ := Bool.and_eq_true_iff.mp hct
    simpa [text, tokens] using ((ihc hc).bareCond (iht ht) (ihf hf)).bareSigned negative

/-- Both texts of a canonical tree are tokens, and they differ in parentheses only: without them the
    tokens of the canonical source are those of the text for people. -/
theorem print_parenthesizes_text (h : tree.isCanonical = true) :
    ∃ printed shown, tokenize tree.print = .ok printed ∧ tokenize tree.text = .ok shown ∧
      dropParens (printed.map Lexeme.token) = shown.map Lexeme.token := by
  obtain ⟨printed, hprinted, hprintedTokens⟩ := (leads_print h).exists_tokenize
  obtain ⟨shown, hshown, hshownTokens⟩ := (writes_bareText h).exists_tokenize
  refine ⟨printed, shown, hprinted, hshown, ?_⟩
  rw [hprintedTokens, hshownTokens]

/-- A negated conditional around a power whose signs stack up. -/
theorem print_parenthesizes_text_signs :
    let tree : Expr := .cond true
      (.binary false (.compare .lessThanOrEqual) (.var true "ifs") (.lit false (.real 0.5)))
      (.binary true (.arithmetic .power) (.lit true (.integer 2)) (.lit true (.integer 2)))
      (.binary false .distinct (.lit true (.boolean true)) (.var false "x_1"))
    tree.isCanonical = true ∧
      tree.print =
        "(-(if ((-ifs) <= 0.5) then (-((-2) ^ (-2))) else ((-true) not x_1)))" ∧
      tree.text = "-if -ifs <= 0.5 then --2 ^ -2 else -true not x_1" ∧
      ∃ printed shown, tokenize tree.print = .ok printed ∧ tokenize tree.text = .ok shown ∧
        dropParens (printed.map Lexeme.token) = shown.map Lexeme.token := by
  intro tree
  have hcanonical : tree.isCanonical = true := by decide +kernel
  exact ⟨hcanonical, by decide +kernel, by decide +kernel, print_parenthesizes_text hcanonical⟩

end Expr

end Formula
