import Formula.Proofs.Parser.Lockstep
import Formula.Proofs.Parser.Outcome
import Formula.Proofs.Token.Calls
import Formula.Proofs.Token.Truncation

/-!
# The positions of parse errors

A parse error points into its source.  Its position is never inside a character, and the source says
there what the error says: a token that does not fit starts there, a character that starts no token
stands there, or a number that is too large.  Up to there the source is all tokens.

## Key results

* `Expr.isBoundary_of_parseWithin`: every position of an error is a character boundary
* `Cursor.unexpectedToken_at`, `Cursor.unexpectedCharacter_at`, `Cursor.invalidNumber_at`: what
  stands at the position
* `Expr.parseWithin_position`: both for all errors of a source
-/

namespace Formula

/-! ## Boundaries -/

/-- Whether two cursors are one and the same, on its way through a source. -/
def Cursor.IsOnWay (source : String) (c c' : Cursor) : Prop :=
  c = c' ∧ ∃ passed, (ofSource source).Passes passed c

/-- Reading goes from boundary to boundary, so that a parser only gets to know such positions. -/
theorem simulates_isOnWay (source : String) :
    Simulates (fun position _ => IsBoundary source position) (Cursor.IsOnWay source) where
  position := by
    rintro c _ ⟨rfl, passed, hpassed⟩
    exact hpassed.isBoundary
  next := by
    rintro c _ ⟨rfl, passed, hpassed⟩
    -- a token, the end or an error: each is found behind the gap, which is on the way too
    obtain ⟨gap, hgap, -⟩ := c.exists_gap_skipGap
    have hplace := hpassed.trans hgap
    have hfinds := c.finds_next
    generalize Cursor.next c = result at hfinds
    cases hfinds with
    | token hmatches =>
      refine .token ⟨rfl, ?_⟩ ⟨rfl, _, hplace.trans hmatches.passes⟩
      rw [hmatches.start]
      exact hplace.isBoundary
    | nothing => exact .nothing ⟨rfl, _, hplace⟩
    | character | number => exact .failure ⟨rfl, .some hplace.isBoundary⟩

/-- Every position that a parse error carries is between two characters, or at an end. -/
theorem Expr.isBoundary_of_parseWithin {source : String} {limit position : Nat} {e : ParseError}
    (h : parseWithin limit source = .error e) (hposition : e.position? = some position) :
    IsBoundary source position := by
  rcases corresponds_parseWithin (simulates_isOnWay source) limit ⟨rfl, [], .refl _⟩ with
    ⟨tree, hparse, -⟩ | ⟨e₁, e₂, hparse, -, he⟩
  · rw [hparse] at h
    cases h
  · obtain rfl : e₁ = e := Except.error.inj (hparse.symm.trans h)
    have hrel := he.2
    rw [hposition] at hrel
    generalize e₂.position? = position₂ at hrel
    cases hrel with
    | some hboundary => exact hboundary

/-! ## What stands at a position -/

namespace Cursor

variable {source : String} {lexemes : List Lexeme}

/-- A token of a source starts where it says, and the source before it has the tokens before it. -/
theorem unexpectedToken_at {before behind : List Lexeme} {lexeme : Lexeme}
    {failure? : Option ParseError}
    (h : (ofSource source).YieldsUpTo (before ++ lexeme :: behind) failure?) :
    (∃ text, IsCut source lexeme.start lexeme.stop text ∧ Spells text.toList lexeme.token) ∧
      ∃ initial, IsCut source 0 lexeme.start initial ∧ tokenize initial = .ok before := by
  -- the cursor as it stands in front of the token
  obtain ⟨passed, last, hcomes, hyields⟩ := h.exists_comesTo
  cases hyields with
  | more hnext _ =>
    have hfinds := last.finds_next
    rw [hnext] at hfinds
    cases hfinds with
    | @token text _ _ hmatches =>
      rw [hmatches.start, hmatches.stop]
      refine ⟨⟨String.ofList text, hcomes.passes.isCut hmatches.passes, ?_⟩,
        hcomes.exists_initial hmatches.rest_ne_nil⟩
      rw [String.toList_ofList]
      exact hmatches.spells

/-- A character that starts no token stands where the error says, behind all the tokens. -/
theorem unexpectedCharacter_at {character : Char} {position : Nat}
    (h : (ofSource source).YieldsUpTo lexemes (some (.unexpectedCharacter character position))) :
    IsCut source position (position + character.utf8Size) (String.singleton character) ∧
      ∃ initial, IsCut source 0 position initial ∧ tokenize initial = .ok lexemes := by
  rw [← List.append_nil lexemes] at h
  obtain ⟨passed, last, hcomes, hyields⟩ := h.exists_comesTo
  cases hyields with
  | failed hnext =>
    obtain ⟨-, rfl, rest, hrest⟩ := character_of_next hnext
    have hne : last.skipGap.rest ≠ [] := by
      rw [hrest]
      exact List.cons_ne_nil _ _
    exact ⟨hcomes.passes.isCut_head hrest, hcomes.exists_initial hne⟩

/-- A number that is refused stands where the error says.  It is too large for a token, and no
    longer number of the source has it as a part. -/
theorem invalidNumber_at {literal : String} {position : Nat}
    (h : (ofSource source).YieldsUpTo lexemes (some (.invalidNumber literal position))) :
    ∃ stop, IsCut source position stop literal ∧ IsTooLarge literal.toList ∧
      ∀ start' stop' other, IsSlice source.toList start' stop' other → IsNumber other →
        start' ≤ position → stop ≤ stop' → start' = position ∧ stop' = stop := by
  rw [← List.append_nil lexemes] at h
  obtain ⟨passed, last, hcomes, hyields⟩ := h.exists_comesTo
  cases hyields with
  | @failed _ after _ hnext =>
    obtain ⟨rfl, hpasses, hlarge, hlongest⟩ := number_of_next hnext
    have hcut := hcomes.passes.isCut hpasses
    rw [String.ofList_toList] at hcut
    exact ⟨after.position, hcut, hlarge, fun _ _ _ hslice hother hstart hstop =>
      hcomes.isMaximal hlarge.isNumber hpasses hlongest hslice hother hstart hstop⟩

end Cursor

/-! ## All errors -/

namespace Expr

/-- The position of a parse error is inside its source, between two characters, and the source bears
    the error out.  A token that does not fit starts there; it is what the message quotes, and the
    source before it tokenizes.  A character that starts no token stands there, and the source
    before it tokenizes.  A refused number is the longest run of digits, with or without a point,
    around that place, and its value is beyond 64 bits or beyond the finite doubles. -/
theorem parseWithin_position {source : String} {limit position : Nat} {e : ParseError}
    (h : parseWithin limit source = .error e) (hposition : e.position? = some position) :
    position ≤ source.utf8ByteSize ∧ IsBoundary source position ∧
    (∀ token, e = .unexpectedToken token position →
      ∃ before lexeme behind failure?,
        (Cursor.ofSource source).YieldsUpTo (before ++ lexeme :: behind) failure? ∧
        lexeme.start = position ∧ lexeme.token = token ∧
        e.message = "Unexpected token " ++ lexeme.token.text ++ " at position " ++
          toString position ∧
        (∃ text, IsCut source position lexeme.stop text ∧ Spells text.toList token) ∧
        ∃ initial, IsCut source 0 position initial ∧ tokenize initial = .ok before) ∧
    (∀ character, e = .unexpectedCharacter character position →
      IsCut source position (position + character.utf8Size) (String.singleton character) ∧
      ∃ initial lexemes, IsCut source 0 position initial ∧ tokenize initial = .ok lexemes) ∧
    ∀ literal, e = .invalidNumber literal position →
      ∃ stop, IsCut source position stop literal ∧ IsTooLarge literal.toList ∧
        ∀ start' stop' other, IsSlice source.toList start' stop' other → IsNumber other →
          start' ≤ position → stop ≤ stop' → start' = position ∧ stop' = stop := by
  have hboundary := isBoundary_of_parseWithin h hposition
  -- what the error says is read off the tokens of the source and where they end
  obtain ⟨lexemes, failure?, hyields⟩ := (Cursor.ofSource source).exists_yieldsUpTo
  have hfails : Reader.whole.Fails lexemes failure? e := by
    rcases parseWithin_cases limit hyields with ⟨tree, hparse, -⟩ | ⟨e', hparse, hfails⟩
    · rw [hparse] at h
      cases h
    · obtain rfl : e' = e := Except.error.inj (hparse.symm.trans h)
      exact hfails
  refine ⟨hboundary.le_utf8ByteSize, hboundary, ?_, ?_, ?_⟩
  · -- a token: it is one of the source, and the text before it has the tokens before it
    rintro token rfl
    cases hfails with
    | @unexpected _ before lexeme behind heq _ _ =>
      subst heq
      obtain ⟨htext, hinitial⟩ := Cursor.unexpectedToken_at hyields
      exact ⟨before, lexeme, behind, failure?, hyields, rfl, rfl, rfl, htext, hinitial⟩
    -- a token is no error of the tokenizer
    | unreadable _ => exact absurd hyields.isLexical id
  · -- a character: it is the one that ends the tokens
    rintro character rfl
    cases hfails with
    | unreadable _ =>
      obtain ⟨hcut, initial, hinitial⟩ := Cursor.unexpectedCharacter_at hyields
      exact ⟨hcut, initial, lexemes, hinitial⟩
  · -- a number: its text reaches as far as a number can there
    rintro literal rfl
    cases hfails with
    | unreadable _ => exact Cursor.invalidNumber_at hyields

/-- A number that is too large stands behind a comment with a character of two bytes. -/
theorem parseWithin_position_invalidNumber :
    let source := "2 * // é\n99999999999999999999)"
    let e : ParseError := .invalidNumber "99999999999999999999" 10
    parseWithin 9 source = .error e ∧ e.position? = some 10 ∧ IsBoundary source 10 ∧
      ∃ stop, IsCut source 10 stop "99999999999999999999" ∧
        IsTooLarge "99999999999999999999".toList := by
  intro source e
  have hparse : parseWithin 9 source = .error e := by decide +kernel
  have hposition : e.position? = some 10 := rfl
  obtain ⟨-, hboundary, -, -, hnumber⟩ := parseWithin_position hparse hposition
  obtain ⟨stop, hcut, hlarge, -⟩ := hnumber _ rfl
  exact ⟨hparse, hposition, hboundary, stop, hcut, hlarge⟩

end Expr

end Formula
