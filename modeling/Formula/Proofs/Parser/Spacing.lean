import Formula.Proofs.Parser.Lockstep
import Formula.Proofs.Token.Spacing

/-!
# Layout does not matter

A parser sees tokens and their places, and no gaps.  Sources with the same tokens are therefore
parsed alike (`Expr.mapError_parseWithin_eq`), and laying out the texts of a source anew changes
nothing but positions (`Expr.parseWithin_layOut`).
-/

namespace Formula

/-- Whether two cursors yield the same tokens, wherever these are. -/
def Cursor.YieldsAlike (c c' : Cursor) : Prop :=
  ∃ lexemes lexemes', c.Yields lexemes ∧ c'.Yields lexemes' ∧
    lexemes.map Lexeme.token = lexemes'.map Lexeme.token

/-- Behind the last token there is none. -/
theorem Cursor.yields_nil_of_next {c after : Cursor} (h : next c = .ok none after) :
    after.Yields [] := by
  obtain ⟨-, hrest⟩ := skipGap_of_next_none h
  obtain ⟨position, rest⟩ := after
  subst hrest
  exact .done rfl

/-- The same tokens keep two parsers in step, at whatever positions they are. -/
theorem simulates_yieldsAlike : Simulates (fun _ _ => True) Cursor.YieldsAlike where
  position _ := trivial
  next := by
    rintro c c' ⟨lexemes, lexemes', hyields, hyields', htokens⟩
    -- both cursors yield as many tokens, so they end together
    cases hyields with
    | done hnext =>
      cases hyields' with
      | done hnext' =>
        rw [hnext, hnext']
        exact .nothing
          ⟨[], [], Cursor.yields_nil_of_next hnext, Cursor.yields_nil_of_next hnext', rfl⟩
      | more _ _ => cases htokens
    | more hnext hrest =>
      cases hyields' with
      | done _ => cases htokens
      | more hnext' hrest' =>
        obtain ⟨htoken, htokens⟩ := List.cons.inj htokens
        rw [hnext, hnext']
        exact .token ⟨htoken, trivial⟩ ⟨_, _, hrest, hrest', htokens⟩

namespace Expr

/-- Sources with the same tokens have the same tree, or errors that differ in their positions only,
    under every limit. -/
theorem mapError_parseWithin_eq {source source' : String} {lexemes lexemes' : List Lexeme}
    (h : tokenize source = .ok lexemes) (h' : tokenize source' = .ok lexemes')
    (htokens : lexemes.map Lexeme.token = lexemes'.map Lexeme.token) (limit : Nat) :
    (parseWithin limit source).mapError (ParseError.withPosition 0) =
      (parseWithin limit source').mapError (ParseError.withPosition 0) := by
  have halike : (Cursor.ofSource source).YieldsAlike (Cursor.ofSource source') :=
    ⟨lexemes, lexemes', yields_of_tokenize h, yields_of_tokenize h', htokens⟩
  rcases corresponds_parseWithin simulates_yieldsAlike limit halike with
    ⟨tree, hparse, hparse'⟩ | ⟨e, e', hparse, hparse', he⟩
  · rw [hparse, hparse']
  · rw [hparse, hparse']
    exact congrArg Except.error he.1

/-- The texts of the tokens of a source, laid out with other gaps that keep them apart, are the same
    tokens at the places that the layout gives them.  Under every limit they have the same tree, or
    the same error but for its position. -/
theorem parseWithin_layOut {source : String} {lexemes : List Lexeme} {gap : List Char}
    {pieces : List Piece} (htokens : tokenize source = .ok lexemes)
    (htexts : HasTexts source lexemes pieces) (hspacing : IsSpacing gap pieces) :
    let source' := String.ofList (layOut gap pieces)
    let lexemes' := relocate 0 gap lexemes pieces
    tokenize source' = .ok lexemes' ∧
    lexemes'.map Lexeme.token = lexemes.map Lexeme.token ∧
    ∀ limit, (parseWithin limit source').mapError (ParseError.withPosition 0) =
      (parseWithin limit source).mapError (ParseError.withPosition 0) := by
  intro source' lexemes'
  -- the laid out text has the tokens at their new places, and a parse sees the tokens only
  have hyields := Cursor.yields_layOut 0 (htexts.spells htokens) hspacing
  have htokens' : tokenize source' = .ok lexemes' := by
    apply tokenize_of_yields
    rw [Cursor.ofSource, String.toList_ofList]
    exact hyields
  have hsame := token_relocate 0 gap htexts.length_eq
  exact ⟨htokens', hsame, mapError_parseWithin_eq htokens' htokens hsame⟩

/-- Two marks that would be one without the blank between them stay apart on two lines, with a
    comment that spells the longer one. -/
theorem parseWithin_layOut_comment :
    let source := "1< =2"
    let lexemes : List Lexeme := [⟨.integer 1, 0, 1⟩, ⟨.mark .less, 1, 2⟩, ⟨.mark .equal, 3, 4⟩,
      ⟨.integer 2, 4, 5⟩]
    let gap := "// é\n".toList
    let pieces : List Piece :=
      [⟨['1'], ['\t']⟩, ⟨['<'], "\n// <=\n".toList⟩, ⟨['='], [' ']⟩, ⟨['2'], []⟩]
    tokenize source = .ok lexemes ∧ HasTexts source lexemes pieces ∧ IsSpacing gap pieces ∧
    tokenize (String.ofList (layOut gap pieces)) = .ok [⟨.integer 1, 6, 7⟩, ⟨.mark .less, 8, 9⟩,
      ⟨.mark .equal, 16, 17⟩, ⟨.integer 2, 18, 19⟩] ∧
    (parseWithin 9 (String.ofList (layOut gap pieces))).mapError (ParseError.withPosition 0) =
      .error (.unexpectedToken (.mark .equal) 0) := by
  intro source lexemes gap pieces
  have htokens : tokenize source = .ok lexemes := by decide +kernel
  have htexts : HasTexts source lexemes pieces := by
    have hsource : source.toList = ['1', '<', ' ', '=', '2'] := by decide
    unfold HasTexts
    rw [hsource]
    refine .cons ⟨[], ['<', ' ', '=', '2'], rfl, rfl, rfl⟩ (.cons ⟨['1'], [' ', '=', '2'], rfl, rfl,
      rfl⟩ (.cons ⟨['1', '<', ' '], ['2'], rfl, rfl, rfl⟩ (.cons ?_ .nil)))
    exact ⟨['1', '<', ' ', '='], [], rfl, rfl, rfl⟩
  -- a comment in front, and one that keeps `<` and `=` apart
  have hspacing : IsSpacing gap pieces := by
    have hcomment : IsGap false gap :=
      .comment (show '\n' ∉ [' ', 'é'] by decide) .nil
    have hline : IsGap false "\n// <=\n".toList :=
      .blank (by decide) (.comment (show '\n' ∉ [' ', '<', '='] by decide) .nil)
    refine ⟨hcomment, ?_, ?_, ?_⟩
    · simp only [pieces, List.forall_mem_cons]
      exact ⟨.blank (by decide) .nil, hline, .blank (by decide) .nil, .nil, by simp⟩
    · simp [pieces]
    · simp [pieces]
  have hparse : parseWithin 9 source = .error (.unexpectedToken (.mark .equal) 3) := by
    decide +kernel
  obtain ⟨htokens', -, hsame⟩ := parseWithin_layOut htokens htexts hspacing
  refine ⟨htokens, htexts, hspacing, htokens', ?_⟩
  rw [hsame, hparse]
  rfl

end Expr

end Formula
