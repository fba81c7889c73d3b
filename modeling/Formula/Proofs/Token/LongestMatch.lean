import Formula.Proofs.Token.Places

/-!
# Longest match

A source text that tokenizes is made of gaps and of the texts of its tokens, and each of these is
the longest that the lexical grammar allows where it starts.

Key results:
* `Cursor.Yields.exists_matches`, `Cursor.Yields.exists_gap` — every token, and every gap before,
  between and behind tokens, has its place on the way of the cursor
* `tokenize_longestMatch` — the same in terms of the source and its bytes
-/

namespace Formula

/-- Whether a text is what a source has from the byte `start` up to but not including the byte
    `stop`.  Both are then inside the source and between two characters. -/
def IsSlice (source : List Char) (start stop : Nat) (text : List Char) : Prop :=
  ∃ before after, source = before ++ (text ++ after) ∧ start = Cursor.byteLength before ∧
    stop = start + Cursor.byteLength text

namespace Cursor

/-! ## Slices of a source -/

/-- Texts before a place in a source are equal if they take equally many bytes. -/
theorem append_inj_of_byteLength {a b rest rest' : List Char} (h : a ++ rest = b ++ rest')
    (hlength : byteLength a = byteLength b) : a = b ∧ rest = rest' := by
  -- on the texts together; a character left over would have bytes
  induction a generalizing b with
  | nil =>
    cases b with
    | nil => exact ⟨rfl, h⟩
    | cons c b =>
      have hpos := c.utf8Size_pos
      simp only [byteLength] at hlength
      omega
  | cons c a ih =>
    cases b with
    | nil =>
      have hpos := c.utf8Size_pos
      simp only [byteLength] at hlength
      omega
    | cons c' b =>
      rw [List.cons_append, List.cons_append, List.cons.injEq] at h
      obtain ⟨rfl, h⟩ := h
      obtain ⟨rfl, hrest⟩ := ih h (Nat.add_left_cancel hlength)
      exact ⟨rfl, hrest⟩

variable {source : String} {c after : Cursor} {passed text : List Char}

/-- What a cursor passes over is a slice of the source that it started with. -/
theorem Passes.isSlice (hc : (ofSource source).Passes passed c) (h : c.Passes text after) :
    IsSlice source.toList c.position after.position text := by
  refine ⟨passed, after.rest, ?_, ?_, h.position⟩
  · rw [← h.rest]
    exact hc.rest
  · rw [hc.position, ofSource, Nat.zero_add]

/-- A slice that starts at a cursor is the start of what it has not read. -/
theorem Passes.prefix_of_isSlice (hc : (ofSource source).Passes passed c) {stop : Nat}
    (h : IsSlice source.toList c.position stop text) :
    text <+: c.rest ∧ stop = c.position + byteLength text := by
  obtain ⟨before, behind, hsource, hstart, hstop⟩ := h
  have hlength : byteLength before = byteLength passed := by
    rw [← hstart, hc.position, ofSource, Nat.zero_add]
  have hrest := append_inj_of_byteLength (hsource.symm.trans hc.rest) hlength
  exact ⟨⟨behind, hrest.2⟩, hstop⟩

/-- A longer start of a source takes more bytes. -/
theorem byteLength_le_of_initial {a b : List Char} (h : a <+: b) : byteLength a ≤ byteLength b := by
  obtain ⟨rest, rfl⟩ := h
  rw [byteLength_append]
  exact Nat.le_add_right _ _

/-! ## The way of the cursor -/

/-- Every token is matched somewhere on the way. -/
theorem Yields.exists_matches {lexemes : List Lexeme} (h : c.Yields lexemes) {lexeme : Lexeme}
    (hmem : lexeme ∈ lexemes) :
    ∃ passed before text after, c.Passes passed before ∧ before.Matches text lexeme after := by
  induction h with
  | done => exact nomatch hmem
  | more hnext _ ih =>
    obtain ⟨gap, text, hgap, -, hmatches⟩ := exists_matches_of_next hnext
    rcases List.mem_cons.mp hmem with rfl | hmem
    · exact ⟨gap, _, text, _, hgap, hmatches⟩
    · -- the way to a later token leads over this one
      obtain ⟨passed, before, text', after', hpassed, hmatches'⟩ := ih hmem
      exact ⟨_, before, text', after', (hgap.trans hmatches.passes).trans hpassed, hmatches'⟩

/-- Where tokens are split in two, there is only a gap between the last one before and the first
    one behind, or the start or the end of the source where there is no such token. -/
theorem Yields.exists_gap {before behind : List Lexeme} (h : c.Yields (before ++ behind)) :
    ∃ passed first gap last, c.Passes passed first ∧ first.Passes gap last ∧
      IsGap behind.isEmpty gap ∧
      first.position = (before.map Lexeme.stop).getLastD c.position ∧
      last.position = (behind.map Lexeme.start).headD (c.position + byteLength c.rest) := by
  -- on the tokens before the gap; without any, it is the gap at the cursor
  induction before generalizing c with
  | nil =>
    cases behind with
    | nil =>
      cases h with
      | done hnext =>
        -- at the end, all that is left is a gap
        have hend : c.Passes c.rest ⟨c.position + byteLength c.rest, []⟩ :=
          ⟨(List.append_nil _).symm, rfl⟩
        exact ⟨[], c, c.rest, _, .refl c, hend, isGap_of_next hnext, rfl, rfl⟩
    | cons lexeme behind =>
      cases h with
      | more hnext _ =>
        obtain ⟨gap, _, hgap, hisGap, hmatches⟩ := exists_matches_of_next hnext
        exact ⟨[], c, gap, _, .refl c, hgap, hisGap, rfl, hmatches.start.symm⟩
  | cons lexeme before ih =>
    cases h with
    | more hnext hrest =>
      obtain ⟨gap, text, hgap, -, hmatches⟩ := exists_matches_of_next hnext
      obtain ⟨passed, first, gap', last, hpassed, hgap', hisGap, hfirst, hlast⟩ := ih hrest
      have hway := hgap.trans hmatches.passes
      refine ⟨_, first, gap', last, hway.trans hpassed, hgap', hisGap, ?_, ?_⟩
      · rw [List.map_cons, List.getLastD_cons, hmatches.stop]
        exact hfirst
      · rw [hlast, hway.rest, byteLength_append, ← Nat.add_assoc, ← hway.position]

end Cursor

/-! ## Tokens as slices of the source -/

/-- The tokens of a source are not empty and stand one behind the other.  Each takes a slice of the
    source that is a text of it, that no other lexeme at its start reaches beyond, and that alone
    has that one token.  Before, between and behind them there are only gaps. -/
theorem tokenize_longestMatch {source : String} {lexemes : List Lexeme}
    (h : tokenize source = .ok lexemes) :
    (lexemes.Pairwise fun a b => a.stop ≤ b.start) ∧
    (∀ lexeme ∈ lexemes, lexeme.start < lexeme.stop ∧
      ∃ text, IsSlice source.toList lexeme.start lexeme.stop text ∧
        Spells text lexeme.token ∧
        (∀ keyword, lexeme.token = .keyword keyword ↔ text = keyword.spelling.toList) ∧
        (∀ stop other, IsSlice source.toList lexeme.start stop other → IsLexeme other →
          stop ≤ lexeme.stop) ∧
        tokenize (String.ofList text) = .ok [⟨lexeme.token, 0, lexeme.stop - lexeme.start⟩]) ∧
    (∀ before behind, lexemes = before ++ behind →
      ∃ gap, IsGap behind.isEmpty gap ∧
        IsSlice source.toList ((before.map Lexeme.stop).getLastD 0)
          ((behind.map Lexeme.start).headD (Cursor.byteLength source.toList)) gap) := by
  have hyields := yields_of_tokenize h
  refine ⟨?_, fun lexeme hmem => ?_, ?_⟩
  · exact (Cursor.yieldsUpTo_none_iff.mpr hyields).pairwise.imp And.right
  · -- the cursor passes the token where it stands in the source
    obtain ⟨passed, before, text, after, hpassed, hmatches⟩ := hyields.exists_matches hmem
    have hslice := hpassed.isSlice hmatches.passes
    have hposition := hmatches.passes.position
    rw [hmatches.start, hmatches.stop]
    refine ⟨hmatches.passes.position_lt hmatches.spells.isLexeme.ne_nil, text, hslice,
      hmatches.spells, hmatches.spells.eq_keyword_iff, fun stop other hother hlexeme => ?_, ?_⟩
    · -- the other one is part of the token's own text
      obtain ⟨hinitial, rfl⟩ := hpassed.prefix_of_isSlice hother
      have hle := Cursor.byteLength_le_of_initial (hmatches.longest other hinitial hlexeme)
      omega
    · -- its text alone has it as the only token
      rw [hposition, Nat.add_sub_cancel_left]
      exact tokenize_of_spells hmatches.spells
  · -- between two tokens
    rintro before behind rfl
    obtain ⟨passed, first, gap, last, hpassed, hgap, hisGap, hfirst, hlast⟩ := hyields.exists_gap
    have hslice := hpassed.isSlice hgap
    rw [hfirst, hlast, Cursor.ofSource, Nat.zero_add] at hslice
    exact ⟨gap, hisGap, hslice⟩

/-- Here `if1`, `<=` and `1.5` start with shorter lexemes, and the comment starts with one. -/
theorem tokenize_longestMatch_comment :
    let source := "if1<=1.5/ // é\n2"
    tokenize source = .ok [⟨.identifier "if1", 0, 3⟩, ⟨.mark .lessOrEqual, 3, 5⟩,
      ⟨.real (Float.ofBits 0x3FF8000000000000), 5, 8⟩, ⟨.mark .slash, 8, 9⟩, ⟨.integer 2, 16, 17⟩] ∧
    (∀ stop other, IsSlice source.toList 5 stop other → IsLexeme other → stop ≤ 8) ∧
    ∃ gap, IsGap false gap ∧ IsSlice source.toList 9 16 gap := by
  have htokens : tokenize "if1<=1.5/ // é\n2" = .ok [⟨.identifier "if1", 0, 3⟩,
      ⟨.mark .lessOrEqual, 3, 5⟩, ⟨.real (Float.ofBits 0x3FF8000000000000), 5, 8⟩,
      ⟨.mark .slash, 8, 9⟩, ⟨.integer 2, 16, 17⟩] := by
    decide +kernel
  obtain ⟨-, hlexemes, hgaps⟩ := tokenize_longestMatch htokens
  obtain ⟨-, _, -, -, -, hlongest, -⟩ := hlexemes _ (.tail _ (.tail _ (.head _)))
  exact ⟨htokens, hlongest, hgaps [_, _, _, _] [_] rfl⟩

end Formula
