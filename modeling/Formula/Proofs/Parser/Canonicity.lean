import Formula.Proofs.Parser.Correctness
import Formula.Proofs.Printing.Canonical
import Formula.Proofs.Token.Places

/-!
# Everything parsed is canonical

What the parser builds can be written again: literals have no sign, reals are finite, and variables
have names.  The tokens are canonical already, and a tree has no literals and no names but those of
its tokens.  The heights that the parser keeps beside its trees are their depths.
-/

namespace Formula

/-- Whether a token could stand in the source of a canonical tree. -/
def Token.isCanonical : Token → Bool
  | .integer i => (Value.integer i).isCanonical
  | .real x => (Value.real x).isCanonical
  | .identifier name => isVariableName name
  | .keyword _ | .mark _ => true

/-! ## Tokens -/

/-- A decimal without a sign is rounded to a double without one. -/
theorem Decimal.isNegative_toFloat (d : Decimal) :
    Binary64.isNegative (d.toFloat false) = false :=
  Binary64.isNegative_ofWord false (Nat.min_le_right _ _)

/-- A word that is not reserved names a variable. -/
theorem IsWord.isVariableName {text : List Char} (h : IsWord text)
    (hfree : ∀ keyword : Keyword, text ≠ keyword.spelling.toList) :
    isVariableName (String.ofList text) = true := by
  obtain ⟨first, more, rfl, -, -⟩ := id h
  obtain ⟨hfirst, hmore⟩ := isWord_iff.mp h
  have hreserved : Keyword.isReserved (String.ofList (first :: more)) = false := by
    rw [Keyword.isReserved, Keyword.ofWord?_eq_none hfree]
    rfl
  simp only [Formula.isVariableName, String.toList_ofList, hfirst, hreserved,
    List.all_eq_true.mpr hmore]
  rfl

/-- Only canonical tokens have a text. -/
theorem Spells.isCanonical {text : List Char} {token : Token} (h : Spells text token) :
    token.isCanonical = true := by
  cases h with
  | @integer _ i _ hvalue =>
    refine decide_eq_true (?_ : 0 ≤ i)
    rw [Int64.le_iff_toInt_le, hvalue]
    exact Int.natCast_nonneg _
  | real _ _ hvalue hfinite =>
    subst hvalue
    simp only [Token.isCanonical, Value.isCanonical, hfinite, Decimal.isNegative_toFloat]
    rfl
  | keyword | mark => rfl
  | identifier hword hfree => exact hword.isVariableName hfree

/-- All tokens of a source are canonical. -/
theorem Cursor.YieldsUpTo.isCanonical {c : Cursor} {lexemes : List Lexeme}
    {failure? : Option ParseError} (h : c.YieldsUpTo lexemes failure?) :
    ∀ token ∈ lexemes.map Lexeme.token, token.isCanonical = true := by
  induction h with
  | done | failed => exact nofun
  | more hnext _ ih =>
    obtain ⟨_, _, -, -, hmatches⟩ := exists_matches_of_next hnext
    rw [List.map_cons, List.forall_mem_cons]
    exact ⟨hmatches.spells.isCanonical, ih⟩

/-! ## Trees -/

@[simp] theorem Expr.isCanonical_withSign (negative : Bool) (tree : Expr) :
    (tree.withSign negative).isCanonical = tree.isCanonical := by
  cases tree <;> rfl

theorem Token.isCanonical_of_operand? {token : Token} {tree : Expr}
    (h : token.operand? = some tree) (htoken : token.isCanonical = true) :
    tree.isCanonical = true := by
  cases token with
  | integer i | real x | identifier name =>
    cases h
    exact htoken
  | keyword keyword =>
    cases keyword with
    | trueWord | falseWord =>
      cases h
      rfl
    | _ => exact nomatch h
  | mark mark => exact nomatch h

/-- Canonical tokens stand for a canonical tree. -/
theorem Derives.isCanonical {phrase : Phrase} {ending : Ending} {ts : List Token} {tree : Expr}
    (h : Derives phrase ending ts tree) (hts : ∀ token ∈ ts, token.isCanonical = true) :
    tree.isCanonical = true := by
  -- the tokens of a part are among those of the whole
  induction h with
  | operand h => exact Token.isCanonical_of_operand? h (hts _ List.mem_cons_self)
  | parenthesized _ ih =>
    simp only [List.forall_mem_cons, List.forall_mem_append] at hts
    exact ih hts.2.1
  | conditional _ _ _ ihc iht ihf =>
    simp only [List.forall_mem_cons, List.forall_mem_append] at hts
    obtain ⟨-, hc, -, ht, -, hf⟩ := hts
    simp only [Expr.isCanonical, ihc hc, iht ht, ihf hf]
    rfl
  | primary _ ih | unsigned _ ih | stronger _ _ ih => exact ih hts
  | power _ _ ihl ihr | joined _ _ _ _ ihl ihr =>
    simp only [List.forall_mem_cons, List.forall_mem_append] at hts
    obtain ⟨hl, -, hr⟩ := hts
    simp only [Expr.isCanonical, ihl hl, ihr hr]
    rfl
  | minus _ ih =>
    rw [Expr.negated, Expr.isCanonical_withSign]
    exact ih (List.forall_mem_cons.mp hts).2
  | plus _ ih => exact ih (List.forall_mem_cons.mp hts).2

namespace Expr

theorem isCanonical_of_parseWithin {limit : Nat} {source : String} {tree : Expr}
    (h : parseWithin limit source = .ok tree) : tree.isCanonical = true ∧ tree.depth ≤ limit := by
  obtain ⟨lexemes, failure?, hyields⟩ := (Cursor.ofSource source).exists_yieldsUpTo
  rcases parseWithin_cases limit hyields with ⟨tree', hparse, -, hdepth, need, -, hreads⟩ |
    ⟨e, hparse, -⟩
  · obtain rfl := Except.ok.inj (h.symm.trans hparse)
    obtain ⟨ending, hderives⟩ := isExpression_iff.mpr ⟨need, hreads⟩
    exact ⟨hderives.isCanonical hyields.isCanonical, hdepth⟩
  · exact nomatch h.symm.trans hparse

end Expr

/-! ## Heights -/

namespace Parser

variable {p p' : Parser} {parsed : Parsed}

/-- Whatever does its task keeps the height of its tree. -/
theorem height_of_outcome {task : Task} {room : Nat} {lexemes : List Lexeme}
    {failure? : Option ParseError}
    (h : task.Outcome room p lexemes failure? (.ok parsed p')) :
    parsed.height = parsed.tree.depth := by
  obtain ⟨_, _, _, _, _, hkeeps⟩ := h
  exact hkeeps.1

theorem height_of_expression {room : Nat} {least : Level}
    (h : expression room least p = .ok parsed p') : parsed.height = parsed.tree.depth := by
  obtain ⟨lexemes, failure?, hp⟩ := p.exists_faces
  exact height_of_outcome (h ▸ follows_expression room least hp)

theorem height_of_operand {room : Nat} (h : operand (expression room) p = .ok parsed p') :
    parsed.height = parsed.tree.depth := by
  obtain ⟨lexemes, failure?, hp⟩ := p.exists_faces
  exact height_of_outcome (h ▸ (follows_expression room).outcome_operand hp)

/-- Whatever the parser builds is canonical and within the limit, and the heights that it keeps on
    the way are the depths of the trees. -/
theorem builds_canonical_within_limit :
    (∀ limit source tree, Expr.parseWithin limit source = .ok tree →
      tree.isCanonical = true ∧ tree.depth ≤ limit) ∧
    ∀ room p p' parsed,
      (∀ least, expression room least p = .ok parsed p' → parsed.height = parsed.tree.depth) ∧
      (operand (expression room) p = .ok parsed p' → parsed.height = parsed.tree.depth) :=
  ⟨fun _ _ _ h => Expr.isCanonical_of_parseWithin h, fun _ _ _ _ =>
    ⟨fun _ h => height_of_expression h, fun h => height_of_operand h⟩⟩

/-- The sum `-(a) + 1.5` within the limit three, and a parser whose rest is one literal. -/
theorem builds_canonical_within_limit_sum :
    let tree : Expr := .binary false (.arithmetic .add) (.var true "a") (.lit false (.real 1.5))
    let seven : Expr := .lit false (.integer 7)
    let p : Parser := ⟨1, 0, some ⟨.integer 7, 0, 1⟩, ⟨1, []⟩⟩
    let p' : Parser := ⟨1, 0, none, ⟨1, []⟩⟩
    (Expr.parseWithin 3 "-(a) + 1.5" = .ok tree ∧ tree.isCanonical = true ∧ tree.depth ≤ 3) ∧
    (operand (expression 1) p = .ok ⟨seven, 1⟩ p' ∧ 1 = seven.depth) ∧
    (expression 1 .or p = .ok ⟨seven, 1⟩ p' ∧ 1 = seven.depth) := by
  intro tree seven p p'
  have hparse : Expr.parseWithin 3 "-(a) + 1.5" = .ok tree := by decide +kernel
  have hoperand (room depth : Nat) : operand (expression room) (p.withDepth depth) =
      .ok ⟨seven, 1⟩ (p'.withDepth depth) := rfl
  have hexpression : expression 1 .or p = .ok ⟨seven, 1⟩ p' := by
    rw [expression_succ, EStateM.bind_of_ok (hoperand 0 _), EStateM.get_bind, climb]
    rfl
  have hbuilds := builds_canonical_within_limit
  exact ⟨⟨hparse, hbuilds.1 _ _ _ hparse⟩, ⟨hoperand 1 0, (hbuilds.2 _ _ _ _).2 (hoperand 1 0)⟩,
    hexpression, (hbuilds.2 _ _ _ _).1 _ hexpression⟩

end Parser

end Formula
