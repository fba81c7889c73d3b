import Formula.Proofs.Token.Lexical

/-!
# The places of tokens

A cursor only moves forward: `Cursor.Passes` says which characters lie between two cursors, and that
the position counts their bytes.  One call of `next` passes over a gap, and `Cursor.Finds` lists
what can stand behind it: the longest lexeme there, nothing, a character that starts no token, or a
number that is too large for one.  The result of the call is determined by that in each case
(`Cursor.finds_next`), the error and the cursor behind it included.

So tokens that are read one after the other stand one behind the other, and no two of them start at
the same place (`YieldsUpTo.eq_of_start_eq`).
-/

namespace Formula

/-- Digits, or digits on both sides of a point, whose value is too large for a token: an integer
    beyond 64 bits, or a real beyond the finite doubles. -/
inductive IsTooLarge : List Char → Prop
  | integer {digits} (hdigits : IsDigits digits)
      (hvalue : maxInteger < Nat.ofDigitChars 10 digits 0) : IsTooLarge digits
  | real {whole fraction} (hwhole : IsDigits whole) (hfraction : IsDigits fraction)
      (hvalue : ((Decimal.ofDigits whole fraction).toFloat false).isFinite = false) :
      IsTooLarge (whole ++ '.' :: fraction)

theorem IsTooLarge.ne_nil {text : List Char} (h : IsTooLarge text) : text ≠ [] := by
  cases h with
  | integer hdigits _ => exact hdigits.1
  | real _ _ _ => exact List.append_ne_nil_of_right_ne_nil _ (List.cons_ne_nil _ _)

open Cursor in
theorem isTooLarge_of_numberToken?_integer {digits : List Char} (hdigits : IsDigits digits)
    (h : numberToken? digits none = none) : IsTooLarge digits := by
  refine .integer hdigits ?_
  simp only [numberToken?, Option.map_eq_none_iff, Numeral.signedInteger?, Bool.false_eq_true,
    if_false, Numeral.ofDigits_eq, int64?] at h
  have hpos : minInteger ≤ Nat.ofDigitChars 10 digits 0 := by
    simp only [minInteger]
    omega
  by_cases hle : (Nat.ofDigitChars 10 digits 0 : Int) ≤ maxInteger
  · rw [if_pos ⟨hpos, hle⟩] at h
    cases h
  · exact Int.not_le.mp hle

open Cursor in
theorem isTooLarge_of_numberToken?_real {whole fraction : List Char} (hwhole : IsDigits whole)
    (hfraction : IsDigits fraction) (h : numberToken? whole (some fraction) = none) :
    IsTooLarge (whole ++ '.' :: fraction) := by
  refine .real hwhole hfraction ?_
  simp only [numberToken?] at h
  split at h
  · cases h
  · next hfinite => exact Bool.eq_false_iff.mpr hfinite

namespace Cursor

/-- Whether a cursor comes to another one by passing over the characters `passed`. -/
structure Passes (c : Cursor) (passed : List Char) (after : Cursor) : Prop where
  rest : c.rest = passed ++ after.rest
  position : after.position = c.position + byteLength passed

namespace Passes

variable {c between after : Cursor} {passed more : List Char}

theorem refl (c : Cursor) : c.Passes [] c :=
  ⟨rfl, rfl⟩

theorem trans (h : c.Passes passed between) (h' : between.Passes more after) :
    c.Passes (passed ++ more) after := by
  refine ⟨?_, ?_⟩
  · rw [h.rest, h'.rest, List.append_assoc]
  · rw [h'.position, h.position, byteLength_append, Nat.add_assoc]

theorem position_le (h : c.Passes passed after) : c.position ≤ after.position := by
  rw [h.position]
  exact Nat.le_add_right _ _

/-- Every character takes at least one byte. -/
theorem position_lt (h : c.Passes passed after) (hne : passed ≠ []) :
    c.position < after.position := by
  cases passed with
  | nil => exact absurd rfl hne
  | cons first more =>
    have hpos := first.utf8Size_pos
    rw [h.position, byteLength]
    omega

end Passes

theorem passes_span (p : Char → Bool) (c : Cursor) : c.Passes (c.span p).1 (c.span p).2 :=
  ⟨(span_append p c).symm, rfl⟩

theorem passes_skip (count : Nat) (c : Cursor) : c.Passes (c.rest.take count) (c.skip count) :=
  ⟨(List.take_append_drop count c.rest).symm, rfl⟩

/-! ## Gaps -/

/-- What a gap is from the middle of a comment on. -/
def IsGapInComment (atEnd : Bool) (text : List Char) : Prop :=
  (∃ body rest, text = body ++ '\n' :: rest ∧ '\n' ∉ body ∧ IsGap atEnd rest) ∨
    (atEnd = true ∧ '\n' ∉ text)

theorem IsGapInComment.cons {atEnd : Bool} {text : List Char} {c : Char} (hc : c ≠ '\n')
    (h : IsGapInComment atEnd text) : IsGapInComment atEnd (c :: text) := by
  rcases h with ⟨body, rest, rfl, hbody, hrest⟩ | ⟨hend, hbody⟩
  · exact .inl ⟨c :: body, rest, rfl, by simp [hc.symm, hbody], hrest⟩
  · exact .inr ⟨hend, by simp [hc.symm, hbody]⟩

/-- A slash in front of another one starts a comment. -/
theorem IsGapInComment.isGap {gap rest : List Char} (h : IsGapInComment rest.isEmpty gap)
    (hhead : (gap ++ rest).head? = some '/') : IsGap rest.isEmpty ('/' :: gap) := by
  rcases h with ⟨body, behind, rfl, hbody, hbehind⟩ | ⟨hend, hbody⟩
  · cases body with
    | nil => exact absurd hhead (by simp)
    | cons first body =>
      obtain rfl : first = '/' := by simpa using hhead
      exact .comment (fun hmem => hbody (List.mem_cons_of_mem _ hmem)) hbehind
  · obtain rfl := List.isEmpty_iff.mp hend
    cases gap with
    | nil => cases hhead
    | cons first gap =>
      obtain rfl : first = '/' := by simpa using hhead
      exact .openComment hend fun hmem => hbody (List.mem_cons_of_mem _ hmem)

/-- What is skipped is a gap, or the rest of one where the cursor is inside a comment. -/
theorem exists_gap_skipGapFrom (inComment : Bool) (position : Nat) (rest : List Char) :
    let behind := skipGapFrom inComment position rest
    ∃ gap, (⟨position, rest⟩ : Cursor).Passes gap behind ∧
      if inComment then IsGapInComment behind.rest.isEmpty gap
      else IsGap behind.rest.isEmpty gap := by
  induction rest generalizing inComment position with
  | nil =>
    refine ⟨[], .refl _, ?_⟩
    cases inComment with
    | true => exact .inr ⟨rfl, List.not_mem_nil⟩
    | false => exact .nil
  | cons c rest ih =>
    -- where the gap goes on, it goes on behind `c`
    have hone : (⟨position, c :: rest⟩ : Cursor).Passes [c] ⟨position + c.utf8Size, rest⟩ :=
      ⟨rfl, rfl⟩
    simp only [skipGapFrom]
    cases inComment with
    | true =>
      -- inside a comment the end of the line ends it
      obtain ⟨gap, hpasses, hgap⟩ := ih (c != '\n') (position + c.utf8Size)
      refine ⟨c :: gap, hone.trans hpasses, ?_⟩
      by_cases hc : c = '\n'
      · subst hc
        exact .inl ⟨[], gap, rfl, List.not_mem_nil, hgap⟩
      · rw [if_pos (by simpa using hc)] at hgap
        exact hgap.cons hc
    | false =>
      simp only [Bool.false_eq_true, if_false]
      split
      · next hblank =>
        obtain ⟨gap, hpasses, hgap⟩ := ih false (position + c.utf8Size)
        have hmem : c ∈ [' ', '\t', '\r', '\n'] := by simpa [isBlank, or_assoc] using hblank
        exact ⟨c :: gap, hone.trans hpasses, .blank hmem hgap⟩
      · split
        · next hslash =>
          obtain ⟨hc, hhead⟩ := Bool.and_eq_true_iff.mp hslash
          -- two slashes: the second one is inside the comment already
          obtain ⟨gap, hpasses, hgap⟩ := ih true (position + c.utf8Size)
          obtain rfl := eq_of_beq hc
          have hsecond : (gap ++ (skipGapFrom true (position + '/'.utf8Size) rest).rest).head? =
              some '/' := by
            rw [← hpasses.rest]
            exact eq_of_beq hhead
          exact ⟨'/' :: gap, hone.trans hpasses, hgap.isGap hsecond⟩
        · exact ⟨[], .refl _, .nil⟩

theorem exists_gap_skipGap (c : Cursor) :
    ∃ gap, c.Passes gap c.skipGap ∧ IsGap c.skipGap.rest.isEmpty gap :=
  exists_gap_skipGapFrom false c.position c.rest

/-! ## Longest lexemes -/

/-- Whether a lexeme stands right at a cursor and reaches up to another one.  The text between the
    two is one of its token, and it includes every other lexeme that stands there. -/
structure Matches (c : Cursor) (text : List Char) (lexeme : Lexeme) (after : Cursor) : Prop where
  passes : c.Passes text after
  start : lexeme.start = c.position
  stop : lexeme.stop = after.position
  spells : Spells text lexeme.token
  longest : ∀ other, other <+: c.rest → IsLexeme other → other <+: text

namespace Matches

variable {c after : Cursor} {text : List Char} {lexeme : Lexeme}

theorem position_lt (h : c.Matches text lexeme after) : c.position < after.position :=
  h.passes.position_lt h.spells.isLexeme.ne_nil

theorem rest_ne_nil (h : c.Matches text lexeme after) : c.rest ≠ [] := by
  rw [h.passes.rest]
  exact List.append_ne_nil_of_left_ne_nil h.spells.isLexeme.ne_nil _

end Matches

/-- A stretch that starts with a digit. -/
theorem isDigits_span {c : Cursor} {first : Char} {rest : List Char} (hc : c.rest = first :: rest)
    (hfirst : first.isDigit = true) : IsDigits (c.span Char.isDigit).1 := by
  constructor
  · rw [span, hc, List.takeWhile_cons_of_pos hfirst]
    exact List.cons_ne_nil _ _
  · exact fun _ hmem => List.mem_takeWhile_imp hmem

/-- A stretch includes what has its property and stands where it starts. -/
theorem prefix_span {p : Char → Bool} {c : Cursor} {other : List Char} (h : other <+: c.rest)
    (hother : ∀ x ∈ other, p x = true) : other <+: (c.span p).1 := by
  obtain ⟨rest, hrest⟩ := h
  rw [span, ← hrest, List.takeWhile_append_of_pos hother]
  exact List.prefix_append _ _

/-- A fraction is a point and digits. -/
theorem passes_fraction? {c behind : Cursor} {digits : List Char}
    (h : c.fraction? = some (digits, behind)) :
    c.Passes ('.' :: digits) behind ∧ IsDigits digits := by
  unfold fraction? at h
  split at h
  · next digit rest hrest =>
    split at h
    · next hdigit =>
      obtain ⟨rfl, rfl⟩ := Prod.mk.inj (Option.some.inj h)
      have hskip : (c.skip 1).rest = digit :: rest := by rw [skip, hrest]; rfl
      constructor
      · have hpoint := passes_skip 1 c
        rw [hrest] at hpoint
        exact hpoint.trans (passes_span Char.isDigit _)
      · exact isDigits_span hskip hdigit
    · cases h
  · cases h

/-- A point with digits behind it is a fraction, which has all of these digits. -/
theorem exists_fraction? {c : Cursor} {digits rest : List Char}
    (hc : c.rest = '.' :: (digits ++ rest)) (hdigits : IsDigits digits) :
    ∃ fraction behind, c.fraction? = some (fraction, behind) ∧ digits <+: fraction := by
  cases digits with
  | nil => exact absurd rfl hdigits.1
  | cons digit more =>
    have hskip : (c.skip 1).rest = digit :: more ++ rest := by rw [skip, hc]; rfl
    have hfirst : digit.isDigit = true := hdigits.2 digit List.mem_cons_self
    have hfraction : c.fraction? = some ((c.skip 1).span Char.isDigit) := by
      rw [fraction?, hc]
      exact if_pos hfirst
    exact ⟨_, _, hfraction, prefix_span (hskip ▸ List.prefix_append _ _) hdigits.2⟩

/-- A number includes every other one that stands where it starts. -/
theorem prefix_number {c : Cursor} {other : List Char} (hinitial : other <+: c.rest)
    (h : IsNumber other) :
    other <+: (c.span Char.isDigit).1 ∨
      ∃ fraction behind, (c.span Char.isDigit).2.fraction? = some (fraction, behind) ∧
        other <+: (c.span Char.isDigit).1 ++ '.' :: fraction := by
  cases h with
  | integer h => exact .inl (prefix_span hinitial h.2)
  | @real whole digits hwhole hdigits =>
    right
    obtain ⟨position, text⟩ := c
    obtain ⟨rest, rfl⟩ := hinitial
    -- the digits before the point end at it
    have hpoint : ∀ c, ('.' :: (digits ++ rest)).head? = some c → c.isDigit = false := by
      intro c hc
      cases hc
      rfl
    rw [List.append_assoc, List.cons_append, span_append_eq position hwhole.2 hpoint]
    obtain ⟨fraction, behind, hfraction, hle⟩ :=
      exists_fraction? (c := ⟨position + byteLength whole, '.' :: (digits ++ rest)⟩) rfl hdigits
    exact ⟨fraction, behind, hfraction, by simpa using hle⟩

/-! ## What a call finds -/

/-- What a call finds at a place without a gap, with the cursor that it leaves behind. -/
inductive Finds (place : Cursor) : EStateM.Result ParseError Cursor (Option Lexeme) → Prop
  | token {text lexeme after} (h : place.Matches text lexeme after) :
      Finds place (.ok (some lexeme) after)
  | nothing (h : place.rest = []) : Finds place (.ok none place)
  | character {first rest} (h : place.rest = first :: rest)
      (hnone : ∀ other, other <+: place.rest → ¬ IsLexeme other) :
      Finds place (.error (.unexpectedCharacter first place.position) place)
  | number {text after} (hpasses : place.Passes text after) (hvalue : IsTooLarge text)
      (hlongest : ∀ other, other <+: place.rest → IsNumber other → other <+: text) :
      Finds place (.error (.invalidNumber (String.ofList text) place.position) after)

section

variable {c after : Cursor} {first : Char} {rest : List Char}

theorem finds_nextWord (hc : c.rest = first :: rest) (hfirst : isWordStart first = true) :
    c.Finds (nextWord c) := by
  have hword : IsWord (c.span isWordPart).1 := by
    rw [span, hc, List.takeWhile_cons_of_pos (isWordPart_of_isWordStart hfirst)]
    exact isWord_iff.mpr ⟨hfirst, fun _ hmem => List.mem_takeWhile_imp hmem⟩
  refine .token ⟨passes_span isWordPart c, rfl, rfl, spells_wordToken hword, ?_⟩
  intro other hinitial hother
  have hhead := hother.head?_eq (hc ▸ hinitial)
  exact prefix_span hinitial (hother.isWord hhead hfirst).isWordPart

theorem finds_nextMark (hc : c.rest = first :: rest) (hdigit : first.isDigit = false)
    (hword : isWordStart first = false) : c.Finds (nextMark first c) := by
  -- a lexeme that stands here is a mark, so the longest mark is no shorter
  have hfound (other : List Char) (hinitial : other <+: c.rest) (hother : IsLexeme other) :
      ∃ found, Mark.ofText? c.rest = some found ∧ other <+: found.spelling.toList := by
    obtain ⟨mark, rfl⟩ := hother.exists_mark (hother.head?_eq (hc ▸ hinitial)) hdigit hword
    obtain ⟨behind, hbehind⟩ := hinitial
    rw [← hbehind]
    exact mark.exists_ofText?_spelling_append behind
  unfold nextMark
  split
  · next mark hmark =>
    have hpasses : c.Passes mark.spelling.toList (c.skip mark.spelling.length) := by
      have htake := List.prefix_iff_eq_take.mp (Mark.prefix_of_ofText? hmark)
      rw [String.length_toList] at htake
      rw [htake]
      exact passes_skip mark.spelling.length c
    refine .token ⟨hpasses, rfl, rfl, .mark mark, ?_⟩
    intro other hinitial hother
    -- the mark that is found is that longest one
    obtain ⟨found, hlongest, hle⟩ := hfound other hinitial hother
    cases hmark.symm.trans hlongest
    exact hle
  · next hmark =>
    refine .character hc ?_
    intro other hinitial hother
    obtain ⟨found, hlongest, -⟩ := hfound other hinitial hother
    cases hmark.symm.trans hlongest

/-- The longest number at a cursor is its token, or an error that shows it where its value is too
    large. -/
theorem finds_number {text : List Char} {token? : Option Token} (hc : c.rest = first :: rest)
    (hfirst : first.isDigit = true) (hpasses : c.Passes text after)
    (hlongest : ∀ other, other <+: c.rest → IsNumber other → other <+: text) :
    (∀ token, token? = some token → Spells text token) → (token? = none → IsTooLarge text) →
      c.Finds (match token? with
        | some token => .ok (some ⟨token, c.position, after.position⟩) after
        | none => .error (.invalidNumber (String.ofList text) c.position) after) := by
  intro hspells hlarge
  cases token? with
  | none => exact .number hpasses (hlarge rfl) hlongest
  | some token =>
    refine .token ⟨hpasses, rfl, rfl, hspells token rfl, ?_⟩
    intro other hinitial hother
    exact hlongest other hinitial (hother.isNumber (hother.head?_eq (hc ▸ hinitial)) hfirst)

theorem finds_nextNumber (hc : c.rest = first :: rest) (hfirst : first.isDigit = true) :
    c.Finds (nextNumber c) := by
  have hwhole := isDigits_span hc hfirst
  have hpasses := passes_span Char.isDigit c
  -- a number is the digits, or a real if a point and more digits follow them
  cases hfraction : (c.span Char.isDigit).2.fraction? with
  | none =>
    have hlongest (other : List Char) (hinitial : other <+: c.rest) (hother : IsNumber other) :
        other <+: (c.span Char.isDigit).1 := by
      rcases prefix_number hinitial hother with hle | ⟨_, _, hreal, -⟩
      · exact hle
      · exact absurd hfraction (by simp [hreal])
    simp only [nextNumber, hfraction, Option.map_none, Option.getD_none, List.append_nil]
    exact finds_number hc hfirst hpasses hlongest
      (fun _ => spells_of_numberToken?_integer hwhole)
      (isTooLarge_of_numberToken?_integer hwhole)
  | some fraction =>
    obtain ⟨hpoint, hdigits⟩ := passes_fraction? hfraction
    have hlongest (other : List Char) (hinitial : other <+: c.rest) (hother : IsNumber other) :
        other <+: (c.span Char.isDigit).1 ++ '.' :: fraction.1 := by
      rcases prefix_number hinitial hother with hle | ⟨_, _, hreal, hle⟩
      · exact hle.trans (List.prefix_append _ _)
      · cases hfraction.symm.trans hreal
        exact hle
    simp only [nextNumber, hfraction, Option.map_some, Option.getD_some]
    exact finds_number hc hfirst (hpasses.trans hpoint) hlongest
      (fun _ => spells_of_numberToken?_real hwhole hdigits)
      (isTooLarge_of_numberToken?_real hwhole hdigits)

/-- A call passes over a gap and then finds something. -/
theorem finds_next (c : Cursor) : c.skipGap.Finds (next c) := by
  simp only [next]
  split
  · next hrest => exact .nothing hrest
  · next first rest hrest =>
    split
    · next hdigit => exact finds_nextNumber hrest hdigit
    · next hdigit =>
      split
      · next hword => exact finds_nextWord hrest hword
      · next hword =>
        exact finds_nextMark hrest (Bool.eq_false_iff.mpr hdigit) (Bool.eq_false_iff.mpr hword)

/-- The next token stands behind a gap, and it is the longest one there. -/
theorem exists_matches_of_next {lexeme : Lexeme} (h : next c = .ok (some lexeme) after) :
    ∃ gap text, c.Passes gap c.skipGap ∧ IsGap false gap ∧
      c.skipGap.Matches text lexeme after := by
  obtain ⟨gap, hpasses, hgap⟩ := c.exists_gap_skipGap
  have hfinds := c.finds_next
  rw [h] at hfinds
  cases hfinds with
  | @token text _ _ hmatches =>
    -- a comment that is still open would have no token behind it
    rw [List.isEmpty_eq_false_iff.mpr hmatches.rest_ne_nil] at hgap
    exact ⟨gap, text, hpasses, hgap, hmatches⟩

/-- Behind the last token there is only a gap. -/
theorem isGap_of_next (h : next c = .ok none after) : IsGap true c.rest := by
  obtain ⟨gap, hpasses, hgap⟩ := c.exists_gap_skipGap
  obtain ⟨rfl, hrest⟩ := skipGap_of_next_none h
  rw [hrest] at hgap
  rw [hpasses.rest, hrest, List.append_nil]
  exact hgap

/-- An error about a number stands for a number that is used up. -/
theorem number_of_next {literal : String} {position : Nat}
    (h : next c = .error (.invalidNumber literal position) after) :
    position = c.skipGap.position ∧ c.skipGap.Passes literal.toList after ∧
      IsTooLarge literal.toList ∧
      ∀ other, other <+: c.skipGap.rest → IsNumber other → other <+: literal.toList := by
  have hfinds := c.finds_next
  rw [h] at hfinds
  cases hfinds with
  | number hpasses hvalue hlongest =>
    rw [String.toList_ofList]
    exact ⟨rfl, hpasses, hvalue, hlongest⟩

/-- An error about a character leaves the cursor before it. -/
theorem character_of_next {character : Char} {position : Nat}
    (h : next c = .error (.unexpectedCharacter character position) after) :
    after = c.skipGap ∧ position = c.skipGap.position ∧
      ∃ rest, c.skipGap.rest = character :: rest := by
  have hfinds := c.finds_next
  rw [h] at hfinds
  cases hfinds with
  | character hrest _ => exact ⟨rfl, rfl, _, hrest⟩

end

/-! ## The order of tokens -/

/-- A token stands between the cursor before it and the one behind it. -/
theorem start_of_next {c after : Cursor} {lexeme : Lexeme}
    (h : next c = .ok (some lexeme) after) :
    c.position ≤ lexeme.start ∧ lexeme.start < lexeme.stop ∧ lexeme.stop = after.position := by
  obtain ⟨gap, text, hgap, -, hmatches⟩ := exists_matches_of_next h
  rw [hmatches.start, hmatches.stop]
  exact ⟨hgap.position_le, hmatches.position_lt, rfl⟩

theorem YieldsUpTo.position_le_start {c : Cursor} {lexemes : List Lexeme}
    {failure? : Option ParseError} (h : c.YieldsUpTo lexemes failure?) {lexeme : Lexeme}
    (hmem : lexeme ∈ lexemes) : c.position ≤ lexeme.start := by
  induction h with
  | done | failed => exact nomatch hmem
  | more hnext _ ih =>
    obtain ⟨hstart, hlt, hstop⟩ := start_of_next hnext
    rcases List.mem_cons.mp hmem with rfl | hmem
    · exact hstart
    · have := ih hmem
      omega

/-- Tokens are not empty and stand one behind the other. -/
theorem YieldsUpTo.pairwise {c : Cursor} {lexemes : List Lexeme} {failure? : Option ParseError}
    (h : c.YieldsUpTo lexemes failure?) :
    lexemes.Pairwise fun a b => a.start < a.stop ∧ a.stop ≤ b.start := by
  induction h with
  | done | failed => exact .nil
  | more hnext hrest ih =>
    obtain ⟨-, hlt, hstop⟩ := start_of_next hnext
    exact .cons (fun lexeme hmem => ⟨hlt, hstop ▸ hrest.position_le_start hmem⟩) ih

/-- The place of a token tells which one it is. -/
theorem YieldsUpTo.eq_of_start_eq {c : Cursor} {lexemes : List Lexeme}
    {failure? : Option ParseError} (h : c.YieldsUpTo lexemes failure?) {i j : Nat}
    {hi : i < lexemes.length} {hj : j < lexemes.length}
    (heq : lexemes[i].start = lexemes[j].start) : i = j := by
  have horder := List.pairwise_iff_getElem.mp h.pairwise
  rcases Nat.lt_trichotomy i j with hij | rfl | hij
  · have := horder i j hi hj hij
    omega
  · rfl
  · have := horder j i hj hi hij
    omega

end Cursor

end Formula
