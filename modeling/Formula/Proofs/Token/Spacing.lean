import Formula.Proofs.Token.Follow
import Formula.Proofs.Token.LongestMatch

/-!
# The same tokens in another layout

A source text is a gap, and then the texts of its tokens with a gap behind each.  If every gap
between two texts starts with a blank, the texts are read as they were, whatever else the gaps are
(`Cursor.yields_layOut`).  `relocate` says where the tokens then are.
-/

namespace Formula

open Cursor

/-- The text of a token and the gap behind it. -/
structure Piece where
  text : List Char
  gap : List Char

/-- A gap and the pieces behind it as one text. -/
def layOut (gap : List Char) : List Piece → List Char
  | [] => gap
  | piece :: pieces => gap ++ (piece.text ++ layOut piece.gap pieces)

/-- Where tokens are if their texts are laid out from a position on. -/
def relocate (position : Nat) (gap : List Char) : List Lexeme → List Piece → List Lexeme
  | lexeme :: lexemes, piece :: pieces =>
    let start := position + byteLength gap
    let stop := start + byteLength piece.text
    ⟨lexeme.token, start, stop⟩ :: relocate stop piece.gap lexemes pieces
  | _, _ => []

/-- Whether pieces are kept apart by their gaps.  A gap is made of blanks and of comments that end
    with their line.  Behind a text it starts with a blank, and it may be empty only behind the last
    one. -/
structure IsSpacing (gap : List Char) (pieces : List Piece) : Prop where
  isGap_first : IsGap false gap
  isGap : ∀ piece ∈ pieces, IsGap false piece.gap
  isBlank : ∀ piece ∈ pieces, ∀ c, piece.gap.head? = some c → c ∈ [' ', '\t', '\r', '\n']
  ne_nil : ∀ piece ∈ pieces.dropLast, piece.gap ≠ []

/-- Whether pieces have the texts that the tokens have in a source. -/
def HasTexts (source : String) (lexemes : List Lexeme) (pieces : List Piece) : Prop :=
  List.Forall₂ (fun lexeme piece => IsSlice source.toList lexeme.start lexeme.stop piece.text)
    lexemes pieces

namespace IsSpacing

variable {gap : List Char} {piece : Piece} {pieces : List Piece}

/-- Behind the first text there is a spacing again. -/
theorem tail (h : IsSpacing gap (piece :: pieces)) : IsSpacing piece.gap pieces where
  isGap_first := h.isGap piece List.mem_cons_self
  isGap other hmem := h.isGap other (List.mem_cons_of_mem _ hmem)
  isBlank other hmem := h.isBlank other (List.mem_cons_of_mem _ hmem)
  ne_nil := by
    cases pieces with
    | nil => exact fun _ hmem => absurd hmem List.not_mem_nil
    | cons second pieces => exact fun other hmem => h.ne_nil other (List.mem_cons_of_mem _ hmem)

/-- What follows a text is a blank, or it is the end. -/
theorem isBlank_head (h : IsSpacing gap (piece :: pieces)) {c : Char}
    (hc : (layOut piece.gap pieces).head? = some c) : Cursor.isBlank c = true := by
  have hblank : piece.gap.head? = some c := by
    cases pieces with
    | nil => exact hc
    | cons second pieces =>
      have hne := h.ne_nil piece List.mem_cons_self
      rwa [layOut, List.head?_append_of_ne_nil _ hne] at hc
  have hmem := h.isBlank piece List.mem_cons_self c hblank
  simpa [Cursor.isBlank, or_assoc] using hmem

end IsSpacing

/-- A slice of a source is determined by its bounds. -/
theorem IsSlice.unique {source text text' : List Char} {start stop : Nat}
    (h : IsSlice source start stop text) (h' : IsSlice source start stop text') : text = text' := by
  obtain ⟨before, after, hsource, hstart, hstop⟩ := h
  obtain ⟨before', after', hsource', hstart', hstop'⟩ := h'
  obtain ⟨rfl, hrest⟩ := append_inj_of_byteLength (hsource.symm.trans hsource')
    (hstart.symm.trans hstart')
  exact (append_inj_of_byteLength hrest (Nat.add_left_cancel (hstop.symm.trans hstop'))).1

/-- The pieces of a source have the texts of its tokens. -/
theorem HasTexts.spells {source : String} {lexemes : List Lexeme} {pieces : List Piece}
    (h : HasTexts source lexemes pieces) (htokens : tokenize source = .ok lexemes) :
    List.Forall₂ (fun lexeme piece => Spells piece.text lexeme.token) lexemes pieces := by
  have hyields := yields_of_tokenize htokens
  have hspells : ∀ lexeme ∈ lexemes, ∀ text,
      IsSlice source.toList lexeme.start lexeme.stop text → Spells text lexeme.token := by
    intro lexeme hmem text hslice
    obtain ⟨passed, before, text', after, hpassed, hmatches⟩ := hyields.exists_matches hmem
    have hslice' := hpassed.isSlice hmatches.passes
    rw [← hmatches.start, ← hmatches.stop] at hslice'
    rw [hslice.unique hslice']
    exact hmatches.spells
  clear htokens hyields
  -- piece by piece, each with its own lexeme
  induction h with
  | nil => exact .nil
  | cons hslice _ ih =>
    rw [List.forall_mem_cons] at hspells
    exact .cons (hspells.1 _ hslice) (ih hspells.2)

theorem token_relocate (position : Nat) (gap : List Char) {lexemes : List Lexeme}
    {pieces : List Piece} (hlength : lexemes.length = pieces.length) :
    (relocate position gap lexemes pieces).map Lexeme.token = lexemes.map Lexeme.token := by
  induction lexemes generalizing position gap pieces with
  | nil => rfl
  | cons lexeme lexemes ih =>
    cases pieces with
    | nil => cases hlength
    | cons piece pieces =>
      rw [relocate, List.map_cons, List.map_cons, ih _ _ (Nat.succ.inj hlength)]

/-- Every text is read as its token, in its new place. -/
theorem Cursor.yields_layOut {lexemes : List Lexeme} {pieces : List Piece} {gap : List Char}
    (position : Nat)
    (hspells : List.Forall₂ (fun lexeme piece => Spells piece.text lexeme.token) lexemes pieces)
    (hspacing : IsSpacing gap pieces) :
    Yields ⟨position, layOut gap pieces⟩ (relocate position gap lexemes pieces) := by
  -- on the pieces; behind each of them its own gap is the first one
  induction hspells generalizing position gap with
  | nil =>
    have hnext := next_gap_append hspacing.isGap_first position []
    rw [List.append_nil] at hnext
    exact .done hnext
  | @cons lexeme piece lexemes pieces htext _ ih =>
    -- first the gap, then the text, and then what is laid out behind it
    have hstops : StopsBefore piece.text (layOut piece.gap pieces) :=
      .of_blank htext.isLexeme fun _ hc => hspacing.isBlank_head hc
    have hnext := next_gap_append hspacing.isGap_first position
      (piece.text ++ layOut piece.gap pieces)
    rw [next_of_stopsBefore _ htext hstops] at hnext
    exact .more hnext (ih _ hspacing.tail)

end Formula
