import Formula.Proofs.Token.Follow

/-!
# The first token of a text

`Lexes text tokens` says that a text has the given tokens at some place of a source.  What it starts
with tells its first token:

* `Lexes.exists_first` — the longest lexeme there is the text of the first token
* `Lexes.of_lexeme` — a lexeme that stops before the rest of the text is that one
* `Lexes.of_blanks` — blanks are left out; of the blanks of Unicode only those of a source can stand
  there, the others would have to start a token
-/

namespace Formula

open Cursor

/-! ## Where lexemes end -/

theorem StopsBefore.of_invisible {text rest : List Char} (h : IsLexeme text)
    (hrest : ∀ c, rest.head? = some c → ¬ IsVisible c) : StopsBefore text rest :=
  .of_not_mem h fun c hc _ hother _ hmem => hrest c hc (hother.isVisible_of_mem hmem)

/-- A number stops before a letter. -/
theorem IsNumber.stopsBefore_letter {text rest : List Char} (h : IsNumber text) {letter : Char}
    (hletter : isWordStart letter = true) : StopsBefore text (letter :: rest) := by
  refine .of_not_mem (.number h) fun c hc other hother hhead hmem => ?_
  obtain rfl : letter = c := by simpa using hc
  obtain ⟨first, hfirst, hdigit⟩ := h.exists_isDigit_head
  have hnumber := hother.isNumber (hhead.trans hfirst) hdigit
  rcases hnumber.isNumberPart hmem with hpart | rfl
  · rw [(isDigit_of_isWordStart hletter).1] at hpart
    cases hpart
  · cases hletter

/-- Digits stop before a point without a digit behind it. -/
theorem IsDigits.stopsBefore_point {digits rest : List Char} (h : IsDigits digits)
    (hrest : ∀ c, rest.head? = some c → c.isDigit = false) : StopsBefore digits ('.' :: rest) := by
  obtain ⟨first, hfirst, hdigit⟩ := (IsNumber.integer h).exists_isDigit_head
  obtain ⟨more, hmore⟩ := List.head?_eq_some_iff.mp hfirst
  have htext : digits ++ '.' :: rest = first :: (more ++ '.' :: rest) := by
    rw [hmore, List.cons_append]
  constructor
  · rw [htext]
    intro hcomment
    obtain rfl : '/' = first := (List.cons_prefix_cons.mp hcomment).1
    cases hdigit
  · -- another lexeme that starts with these digits is a number, and so the digits or a real
    intro other hinitial hother
    have hnumber := hother.isNumber (hother.head?_eq (htext ▸ hinitial)) hdigit
    have hpoint : ∀ c, ('.' :: rest).head? = some c → c.isDigit = false := by
      intro c hc
      cases hc
      rfl
    have hspan := span_append_eq 0 h.2 hpoint
    have hcases := prefix_number (c := ⟨0, digits ++ '.' :: rest⟩) hinitial hnumber
    rw [hspan] at hcases
    rcases hcases with hle | ⟨fraction, behind, hfraction, -⟩
    · exact hle
    · -- the point would have digits behind it
      obtain ⟨hpasses, hne, hdigits⟩ := passes_fraction? hfraction
      obtain ⟨digit, digits', rfl⟩ := List.exists_cons_of_ne_nil hne
      have hhead : rest.head? = some digit := by
        rw [List.tail_eq_of_cons_eq hpasses.rest]
        rfl
      have hother := hrest digit hhead
      rw [hdigits digit List.mem_cons_self] at hother
      cases hother

/-! ## Tokens of a text -/

/-- Whether a text has the given tokens somewhere in a source. -/
def Lexes (text : List Char) (tokens : List Token) : Prop :=
  ∃ position lexemes, Yields ⟨position, text⟩ lexemes ∧ lexemes.map Lexeme.token = tokens

/-- A cursor that yields tokens and stands before one yields that one first. -/
theorem Cursor.Yields.exists_first {c : Cursor} {lexemes : List Lexeme} (h : c.Yields lexemes)
    (hskip : c.skipGap = c) (hne : c.rest ≠ []) :
    ∃ text lexeme after following, lexemes = lexeme :: following ∧
      c.Matches text lexeme after ∧ after.Yields following := by
  cases h with
  | done hnext =>
    obtain ⟨rfl, hrest⟩ := skipGap_of_next_none hnext
    rw [hskip] at hrest
    exact absurd hrest hne
  | more hnext hrest =>
    obtain ⟨_, text, -, -, hmatches⟩ := exists_matches_of_next hnext
    rw [hskip] at hmatches
    exact ⟨text, _, _, _, rfl, hmatches, hrest⟩

namespace Lexes

variable {text rest : List Char} {tokens : List Token}

theorem eq_nil (h : Lexes [] tokens) : tokens = [] := by
  obtain ⟨position, lexemes, hyields, rfl⟩ := h
  cases hyields with
  | done => rfl
  | more hnext _ => exact absurd (length_next_lt hnext) (Nat.not_lt_zero _)

/-- Where a text starts with neither a blank nor a comment, it starts with its first token. -/
theorem exists_first {first : Char} (h : Lexes (first :: rest) tokens)
    (hblank : isBlank first = false) (hcomment : ¬ ['/', '/'] <+: first :: rest) :
    ∃ text behind token following, first :: rest = text ++ behind ∧ tokens = token :: following ∧
      Spells text token ∧ (∀ other, other <+: first :: rest → IsLexeme other → other <+: text) ∧
      Lexes behind following := by
  obtain ⟨position, lexemes, hyields, rfl⟩ := h
  have hskip : skipGap ⟨position, first :: rest⟩ = ⟨position, first :: rest⟩ := by
    refine skipGap_eq_self (fun c hc => ?_) hcomment
    cases hc
    exact hblank
  obtain ⟨text, lexeme, after, following, rfl, hmatches, hafter⟩ :=
    hyields.exists_first hskip (List.cons_ne_nil _ _)
  exact ⟨text, after.rest, lexeme.token, following.map Lexeme.token, hmatches.passes.rest, rfl,
    hmatches.spells, hmatches.longest, after.position, following, hafter, rfl⟩

/-- A lexeme that stops before the rest of a text is the text of the first token. -/
theorem of_lexeme (h : Lexes (text ++ rest) tokens) (hlexeme : IsLexeme text)
    (hstops : StopsBefore text rest) :
    ∃ token following, tokens = token :: following ∧ Spells text token ∧ Lexes rest following := by
  obtain ⟨first, more, hfirst⟩ := List.exists_cons_of_ne_nil hlexeme.ne_nil
  have hblank : isBlank first = false := hlexeme.isBlank_of_mem (hfirst ▸ List.mem_cons_self)
  have htext : text ++ rest = first :: (more ++ rest) := by rw [hfirst, List.cons_append]
  have hcomment := hstops.not_comment
  rw [htext] at h hcomment
  obtain ⟨text', behind, token, following, hsource, rfl, hspells, hlongest, hbehind⟩ :=
    h.exists_first hblank hcomment
  -- each of the two texts includes the other one
  rw [← htext] at hsource hlongest
  have hle := hlongest text (List.prefix_append _ _) hlexeme
  have hge := hstops.longest text' ⟨behind, hsource.symm⟩ hspells.isLexeme
  obtain rfl : text = text' := hle.eq_of_length_le hge.length_le
  obtain rfl : rest = behind := List.append_cancel_left hsource
  exact ⟨token, following, rfl, hspells, hbehind⟩

/-- Blanks before a text are left out, for only those of a source can stand there. -/
theorem of_blanks {blanks : List Char} (h : Lexes (blanks ++ rest) tokens)
    (hblanks : ∀ c ∈ blanks, ¬ IsVisible c) : Lexes rest tokens := by
  -- on the characters: each of them is a blank, since nothing else would be left out
  induction blanks with
  | nil => exact h
  | cons c blanks ih =>
    rw [List.forall_mem_cons] at hblanks
    refine ih ?_ hblanks.2
    cases hblank : isBlank c with
    | true =>
      -- a blank is a gap, behind which the same tokens are found
      obtain ⟨position, lexemes, hyields, htokens⟩ := h
      refine ⟨position + byteLength [c], lexemes, ?_, htokens⟩
      have hgap : IsGap false [c] := .blank (by simpa [isBlank, or_assoc] using hblank) .nil
      have hnext := next_gap_append hgap position (blanks ++ rest)
      cases hyields with
      | done hdone => exact .done (hnext.symm.trans hdone)
      | more hmore hrest => exact .more (hnext.symm.trans hmore) hrest
    | false =>
      -- a token would start with the character, but has only visible ones
      have hcomment : ¬ ['/', '/'] <+: c :: (blanks ++ rest) := by
        intro hcomment
        obtain rfl : '/' = c := (List.cons_prefix_cons.mp hcomment).1
        exact hblanks.1 (by decide)
      obtain ⟨text, behind, _, _, hsource, -, hspells, -⟩ := h.exists_first hblank hcomment
      have hhead := hspells.isLexeme.head?_eq ⟨behind, hsource.symm⟩
      exact absurd (hspells.isLexeme.isVisible_of_mem (List.mem_of_mem_head? hhead)) hblanks.1

/-- Blanks alone have no tokens. -/
theorem eq_nil_of_blanks (h : Lexes text tokens) (hblanks : ∀ c ∈ text, ¬ IsVisible c) :
    tokens = [] := by
  rw [← List.append_nil text] at h
  exact (h.of_blanks hblanks).eq_nil

/-- No token starts with a point. -/
theorem not_point : ¬ Lexes ('.' :: rest) tokens := by
  intro h
  obtain ⟨text, behind, _, _, hsource, -, hspells, -⟩ := h.exists_first rfl (by simp)
  have hhead := hspells.isLexeme.head?_eq ⟨behind, hsource.symm⟩
  obtain ⟨mark, rfl⟩ := hspells.isLexeme.exists_mark hhead rfl rfl
  cases mark <;> cases hhead

end Lexes

end Formula
