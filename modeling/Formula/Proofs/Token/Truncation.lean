import Formula.Proofs.Token.Boundary
import Formula.Proofs.Token.Follow

/-!
# A source up to a place

`Cursor.ComesTo` is the way of a cursor over some tokens to the place of what comes next, gap by gap
and text by text.  A source that ends at such a place has these tokens and no others, because none
of them has been read with the help of what follows it (`Cursor.ComesTo.yields`).

A number that is met there starts there: nothing right before it could be a part of it
(`Cursor.ComesTo.isMaximal`).
-/

namespace Formula

open Cursor

namespace Cursor

/-- Whether a cursor comes over tokens to a place behind a gap, with the characters that it has
    passed over. -/
inductive ComesTo : Cursor → List Lexeme → List Char → Cursor → Prop
  | gap {c gap} (hgap : c.Passes gap c.skipGap) (hisGap : IsGap c.skipGap.rest.isEmpty gap) :
      ComesTo c [] gap c.skipGap
  | token {c after lexeme lexemes gap text passed place} (hgap : c.Passes gap c.skipGap)
      (hisGap : IsGap false gap) (hmatches : c.skipGap.Matches text lexeme after)
      (hrest : ComesTo after lexemes passed place) :
      ComesTo c (lexeme :: lexemes) (gap ++ (text ++ passed)) place

/-- Wherever the tokens that a cursor yields are split in two, it comes to that place. -/
theorem YieldsUpTo.exists_comesTo {c : Cursor} {before behind : List Lexeme}
    {failure? : Option ParseError} (h : c.YieldsUpTo (before ++ behind) failure?) :
    ∃ passed, ∃ last : Cursor, c.ComesTo before passed last.skipGap ∧
      last.YieldsUpTo behind failure? := by
  induction before generalizing c with
  | nil =>
    obtain ⟨gap, hgap, hisGap⟩ := c.exists_gap_skipGap
    exact ⟨gap, c, .gap hgap hisGap, h⟩
  | cons lexeme before ih =>
    cases h with
    | more hnext hrest =>
      obtain ⟨gap, text, hgap, hisGap, hmatches⟩ := exists_matches_of_next hnext
      obtain ⟨passed, last, hcomes, hbehind⟩ := ih hrest
      exact ⟨_, last, .token hgap hisGap hmatches hcomes, hbehind⟩

namespace ComesTo

variable {c place : Cursor} {lexemes : List Lexeme} {passed : List Char}

theorem passes (h : c.ComesTo lexemes passed place) : c.Passes passed place := by
  induction h with
  | gap hgap _ => exact hgap
  | token hgap _ hmatches _ ih => exact hgap.trans (hmatches.passes.trans ih)

/-- Without what comes behind the place, the same tokens are read up to the end. -/
theorem yields (h : c.ComesTo lexemes passed place) (hplace : place.rest ≠ []) :
    Yields ⟨c.position, passed⟩ lexemes := by
  -- on the way to the place: a gap at the end, and before it a token and its gap
  induction h with
  | @gap c gap _ hisGap =>
    rw [List.isEmpty_eq_false_iff.mpr hplace] at hisGap
    have hnext := next_gap_append hisGap c.position []
    rw [List.append_nil] at hnext
    exact .done hnext
  | @token c after lexeme lexemes gap text passed place hgap hisGap hmatches hrest ih =>
    -- the text stopped before all that followed it, so it stops before what is left of that
    have hstops : StopsBefore text (passed ++ place.rest) :=
      hrest.passes.rest ▸ hmatches.stopsBefore
    have hnext := next_of_stopsBefore (c.position + byteLength gap) hmatches.spells hstops.of_append
    rw [← next_gap_append hisGap, ← hgap.position, ← hmatches.passes.position, ← hmatches.start,
      ← hmatches.stop] at hnext
    exact .more hnext (hmatches.stop ▸ ih hplace)

/-- A source up to the place has these tokens. -/
theorem exists_initial {source : String} (h : (ofSource source).ComesTo lexemes passed place)
    (hplace : place.rest ≠ []) :
    ∃ initial : String, IsCut source 0 place.position initial ∧ tokenize initial = .ok lexemes := by
  refine ⟨String.ofList passed, (Passes.refl _).isCut h.passes, ?_⟩
  apply tokenize_of_yields
  rw [ofSource, String.toList_ofList]
  exact h.yields hplace

end ComesTo

end Cursor

/-! ## Where numbers start -/

/-- The last character of a closed gap is a blank. -/
theorem IsGap.isBlank_getLast {gap : List Char} (h : IsGap false gap) {last : Char}
    (hlast : gap.getLast? = some last) : isBlank last = true := by
  -- on the gap; a comment ends with its new line
  induction h with
  | nil => cases hlast
  | @blank c gap hc _ ih =>
    cases gap with
    | nil =>
      obtain rfl : c = last := by simpa using hlast
      simpa [isBlank, or_assoc] using hc
    | cons c' gap => exact ih (by simpa using hlast)
  | @comment body gap _ _ ih =>
    cases gap with
    | nil =>
      obtain rfl : '\n' = last := by simpa [List.getLast?_cons] using hlast
      rfl
    | cons c' gap => exact ih (by simpa [List.getLast?_cons] using hlast)
  | openComment hend => cases hend

theorem IsDigits.append_digit {digits : List Char} (h : IsDigits digits) {digit : Char}
    (hdigit : digit.isDigit = true) : IsDigits (digits ++ [digit]) := by
  refine ⟨List.append_ne_nil_of_right_ne_nil _ (List.cons_ne_nil _ _), fun c hc => ?_⟩
  rcases List.mem_append.mp hc with hc | hc
  · exact h.2 c hc
  · rw [List.mem_singleton.mp hc]
    exact hdigit

/-- A lexeme with an end that could be inside a number goes on with another digit. -/
theorem IsLexeme.append_digit {text : List Char} (h : IsLexeme text) {last digit : Char}
    (hlast : text.getLast? = some last) (hpart : IsNumberPart last)
    (hdigit : digit.isDigit = true) : IsLexeme (text ++ [digit]) := by
  -- numbers and words go on with a digit
  cases h with
  | number h =>
    cases h with
    | integer h => exact .number (.integer (h.append_digit hdigit))
    | real hwhole hfraction =>
      rw [List.append_assoc, List.cons_append]
      exact .number (.real hwhole (hfraction.append_digit hdigit))
  | word h =>
    obtain ⟨first, more, rfl, -, -⟩ := id h
    obtain ⟨hfirst, hmore⟩ := isWord_iff.mp h
    refine .word (isWord_iff.mpr ⟨hfirst, fun c hc => ?_⟩)
    rcases List.mem_append.mp hc with hc | hc
    · exact hmore c hc
    · rw [List.mem_singleton.mp hc]
      simp [isWordPart, Char.isAlphanum, hdigit]
  | mark mark =>
    -- marks have neither digits nor points
    have hmark : ∀ c ∈ mark.spelling.toList, ¬ IsNumberPart c := by
      cases mark <;> simp [Mark.spelling, IsNumberPart]
    exact absurd hpart (hmark last (List.mem_of_getLast? hlast))

/-- Of two ways into a source, the longer one goes on from the shorter one. -/
theorem Cursor.exists_between_of_byteLength_le {a b rest rest' : List Char}
    (h : a ++ rest = b ++ rest') (hlength : byteLength a ≤ byteLength b) :
    ∃ between, b = a ++ between ∧ rest = between ++ rest' := by
  rcases List.append_eq_append_iff.mp h with hbetween | ⟨between, rfl, hrest⟩
  · exact hbetween
  · cases between with
    | nil =>
      refine ⟨[], ?_, hrest.symm⟩
      rw [List.append_nil, List.append_nil]
    | cons c between =>
      have hpos := c.utf8Size_pos
      rw [byteLength_append, byteLength] at hlength
      omega

namespace Cursor.ComesTo

variable {c place : Cursor} {lexemes : List Lexeme} {passed : List Char}

/-- Right before a digit that does not go on with a lexeme there is nothing of a number. -/
theorem not_isNumberPart_getLast (h : c.ComesTo lexemes passed place) {digit : Char}
    (hhead : place.rest.head? = some digit) (hdigit : digit.isDigit = true) {last : Char}
    (hlast : passed.getLast? = some last) : ¬ IsNumberPart last := by
  have hplace : place.rest.isEmpty = false := by
    rw [List.isEmpty_eq_false_iff]
    rintro hnil
    rw [hnil] at hhead
    cases hhead
  induction h with
  | gap _ hisGap =>
    rw [hplace] at hisGap
    -- the last character is a blank of the gap
    have hblank := hisGap.isBlank_getLast hlast
    rintro (hpart | rfl)
    · exact absurd hblank (by simp [(isBlank_of_isDigit hpart).1])
    · exact absurd hblank (by decide)
  | @token c after lexeme lexemes gap text passed place hgap hisGap hmatches hrest ih =>
    by_cases hpassed : passed = []
    · -- the digit stands right behind the text, which would go on with it
      subst hpassed
      have hne := hmatches.spells.isLexeme.ne_nil
      rw [List.append_nil, List.getLast?_append_of_ne_nil _ hne] at hlast
      intro hpart
      have hlonger := hmatches.spells.isLexeme.append_digit hlast hpart hdigit
      obtain ⟨more, hmore⟩ := List.head?_eq_some_iff.mp hhead
      have hrest' : after.rest = digit :: more := by rw [hrest.passes.rest, hmore, List.nil_append]
      have hle := hmatches.stopsBefore.longest _ ⟨more, by rw [hrest']; simp⟩ hlonger
      have hlength := hle.length_le
      simp at hlength
    · rw [← List.append_assoc, List.getLast?_append_of_ne_nil _ hpassed] at hlast
      -- otherwise it is the last one of what comes behind the text
      exact ih hhead hlast hplace

/-- The longest number at a place is part of no other number of the source. -/
theorem isMaximal {source : String} (h : (ofSource source).ComesTo lexemes passed place)
    {literal : List Char} {after : Cursor} (hliteral : IsNumber literal)
    (hpasses : place.Passes literal after)
    (hlongest : ∀ other, other <+: place.rest → IsNumber other → other <+: literal)
    {start stop : Nat} {other : List Char} (hslice : IsSlice source.toList start stop other)
    (hother : IsNumber other) (hstart : start ≤ place.position) (hstop : after.position ≤ stop) :
    start = place.position ∧ stop = after.position := by
  have hway := h.passes
  have hposition : place.position = byteLength passed := by
    rw [hway.position, ofSource, Nat.zero_add]
  obtain ⟨before, behind, hsource, hbefore, hlength⟩ := hslice
  have hsame : before ++ (other ++ behind) = passed ++ place.rest := hsource.symm.trans hway.rest
  -- the other number starts no later, so it has all between there and the place in it
  obtain ⟨between, hpassed, hrest⟩ :=
    exists_between_of_byteLength_le hsame (by rw [← hbefore, ← hposition]; exact hstart)
  have hlt := hpasses.position_lt (IsLexeme.number hliteral).ne_nil
  have hafter := hpasses.position
  rw [hpassed, byteLength_append] at hposition
  by_cases hbetween : between = []
  · -- both start at the place
    subst hbetween
    rw [List.nil_append] at hrest
    have hle := byteLength_le_of_initial (hlongest other ⟨behind, hrest⟩ hother)
    rw [byteLength, Nat.add_zero] at hposition
    omega
  · -- otherwise the character before the place is a part of the other number
    exfalso
    have hinitial : between <+: other := by
      rcases List.prefix_or_prefix_of_prefix (List.prefix_append between place.rest)
          ⟨behind, hrest⟩ with hle | hle
      · exact hle
      · have hshort := byteLength_le_of_initial hle
        omega
    obtain ⟨first, hfirst, hdigit⟩ := hliteral.exists_isDigit_head
    have hhead : place.rest.head? = some first := by
      rw [hpasses.rest, List.head?_append_of_ne_nil _ (IsLexeme.number hliteral).ne_nil]
      exact hfirst
    have hlast := List.getLast?_eq_some_getLast hbetween
    have hlast' : passed.getLast? = some (between.getLast hbetween) := by
      rw [hpassed, List.getLast?_append_of_ne_nil _ hbetween]
      exact hlast
    apply h.not_isNumberPart_getLast hhead hdigit hlast'
    exact hother.isNumberPart (hinitial.subset (List.getLast_mem hbetween))

end Cursor.ComesTo

end Formula
