import Formula.Proofs.Token.Places

/-!
# What may follow a token

A lexer looks one character beyond a token: a word goes on with letters, a number with a point, a
mark with an equals sign, and a second slash makes a comment of the first one.  `StopsBefore` says
that nothing of that kind follows, for every lexeme in the same words: no longer lexeme stands
there, and no comment.

Key results:
* `Cursor.next_of_stopsBefore` — where a text stops before its rest, it is read as its token
* `Cursor.Matches.stopsBefore` — a token that has been read stops before what follows it
* `StopsBefore.of_not_mem` — a lexeme stops before characters that are not in one; so every lexeme
  stops before a blank
* `Cursor.next_gap_append` — a gap changes nothing but the position
-/

namespace Formula

open Cursor

/-! ## Texts of tokens and of numbers that are too large -/

/-- There is one way to put digits on both sides of a point. -/
theorem real_inj {whole fraction whole' fraction' : List Char} (h : IsDigits whole)
    (h' : IsDigits whole') (heq : whole ++ '.' :: fraction = whole' ++ '.' :: fraction') :
    whole = whole' ∧ fraction = fraction' := by
  have hpoint (rest : List Char) : ∀ c, ('.' :: rest).head? = some c → c.isDigit = false := by
    intro c hc
    cases hc
    rfl
  -- both whole parts are the stretch of digits at the start
  have hspan := span_append_eq 0 h.2 (hpoint fraction)
  rw [heq, span_append_eq 0 h'.2 (hpoint fraction')] at hspan
  obtain rfl := (congrArg Prod.fst hspan).symm
  exact ⟨rfl, List.tail_eq_of_cons_eq (List.append_cancel_left heq)⟩

/-- Digits alone have no point. -/
theorem IsDigits.ne_real {digits whole fraction : List Char} (h : IsDigits digits) :
    digits ≠ whole ++ '.' :: fraction := by
  rintro rfl
  exact absurd (h.2 '.' (List.mem_append_right _ List.mem_cons_self)) (by decide)

/-- Whether a character can be inside a number. -/
def IsNumberPart (c : Char) : Prop :=
  c.isDigit = true ∨ c = '.'

theorem IsNumber.isNumberPart {text : List Char} (h : IsNumber text) {c : Char} (hc : c ∈ text) :
    IsNumberPart c := by
  cases h with
  | integer h => exact .inl (h.2 c hc)
  | real hwhole hfraction =>
    rcases List.mem_append.mp hc with hc | hc
    · exact .inl (hwhole.2 c hc)
    · rcases List.mem_cons.mp hc with rfl | hc
      · exact .inr rfl
      · exact .inl (hfraction.2 c hc)

theorem IsTooLarge.isNumber {text : List Char} (h : IsTooLarge text) : IsNumber text := by
  cases h with
  | integer hdigits _ => exact .integer hdigits
  | real hwhole hfraction _ => exact .real hwhole hfraction

theorem IsNumber.exists_isDigit_head {text : List Char} (h : IsNumber text) :
    ∃ first, text.head? = some first ∧ first.isDigit = true := by
  obtain ⟨first, more, rfl⟩ := List.exists_cons_of_ne_nil (IsLexeme.number h).ne_nil
  exact ⟨first, rfl, h.isDigit_head rfl⟩

/-- A token with the text of a number is an integer or a real. -/
theorem Spells.cases_of_isNumber {text : List Char} {token : Token} (h : Spells text token)
    (hnumber : IsNumber text) :
    (∃ i : Int64, token = .integer i ∧ IsDigits text ∧ i.toInt = Nat.ofDigitChars 10 text 0) ∨
    ∃ whole fraction x, token = .real x ∧ text = whole ++ '.' :: fraction ∧ IsDigits whole ∧
      IsDigits fraction ∧ (Decimal.ofDigits whole fraction).toFloat false = x ∧
      x.isFinite = true := by
  obtain ⟨first, hfirst, hdigit⟩ := hnumber.exists_isDigit_head
  -- a number starts with a digit, and words and marks do not
  cases h with
  | integer hdigits hvalue => exact .inl ⟨_, rfl, hdigits, hvalue⟩
  | real hwhole hfraction hvalue hfinite =>
    exact .inr ⟨_, _, _, rfl, rfl, hwhole, hfraction, hvalue, hfinite⟩
  | keyword keyword =>
    have hstart := isDigit_of_isWordStart (keyword.isWord_spelling.isWordStart_head hfirst)
    exact absurd hdigit (by simp [hstart.1])
  | identifier hword _ =>
    have hstart := isDigit_of_isWordStart (hword.isWordStart_head hfirst)
    exact absurd hdigit (by simp [hstart.1])
  | mark mark => exact absurd hdigit (by simp [Mark.head_spelling hfirst])

/-- No token has a text whose number is too large for one. -/
theorem Spells.not_isTooLarge {text : List Char} {token : Token} (h : Spells text token) :
    ¬ IsTooLarge text := by
  intro hlarge
  obtain ⟨i, -, hdigits, hvalue⟩ | ⟨whole, fraction, x, -, rfl, hwhole, -, hvalue, hfinite⟩ :=
    h.cases_of_isNumber hlarge.isNumber
  · -- the value of the token is in range, and that of the number is not
    cases hlarge with
    | integer _ hlt =>
      have hmax : i.toInt ≤ maxInteger := i.toInt_le
      rw [hvalue] at hmax
      exact absurd hlt (Int.not_lt.mpr hmax)
    | real _ _ _ => exact hdigits.ne_real rfl
  · generalize hreal : whole ++ '.' :: fraction = digits at hlarge
    cases hlarge with
    | integer hdigits _ => exact hdigits.ne_real hreal.symm
    | real hwhole' _ hinfinite =>
      obtain ⟨rfl, rfl⟩ := real_inj hwhole hwhole' hreal
      rw [hvalue, hfinite] at hinfinite
      cases hinfinite

/-! ## Stopping before a rest -/

/-- Whether neither a comment nor a lexeme that goes beyond `text` stands at the start of `text` and
    `rest` together. -/
structure StopsBefore (text rest : List Char) : Prop where
  not_comment : ¬ ['/', '/'] <+: text ++ rest
  longest : ∀ other, other <+: text ++ rest → IsLexeme other → other <+: text

/-- A text that stops before a rest stops before the start of that rest alone. -/
theorem StopsBefore.of_append {text rest more : List Char} (h : StopsBefore text (rest ++ more)) :
    StopsBefore text rest := by
  have hle : text ++ rest <+: text ++ (rest ++ more) := by
    rw [← List.append_assoc]
    exact List.prefix_append _ _
  exact ⟨fun hcomment => h.not_comment (hcomment.trans hle),
    fun other hinitial => h.longest other (hinitial.trans hle)⟩

/-- The characters of ASCII that leave a mark. -/
def IsVisible (c : Char) : Prop :=
  0x21 ≤ c.toNat ∧ c.toNat ≤ 0x7E

instance (c : Char) : Decidable (IsVisible c) :=
  inferInstanceAs (Decidable (_ ∧ _))

theorem IsVisible.of_isAlphanum {c : Char} (h : c.isAlphanum = true) : IsVisible c := by
  simp only [Char.isAlphanum, Char.isAlpha, Char.isUpper, Char.isLower, Char.isDigit,
    Bool.or_eq_true, Bool.and_eq_true, decide_eq_true_eq, ge_iff_le, UInt32.le_iff_toNat_le,
    Char.reduceVal, UInt32.reduceToNat] at h
  simp only [IsVisible, Char.toNat]
  omega

theorem IsVisible.of_isDigit {c : Char} (h : c.isDigit = true) : IsVisible c :=
  .of_isAlphanum (by rw [Char.isAlphanum, h, Bool.or_true])

namespace IsLexeme

variable {text : List Char}

/-- All characters of a lexeme are visible ones. -/
theorem isVisible_of_mem (h : IsLexeme text) {c : Char} (hc : c ∈ text) : IsVisible c := by
  -- digits and a point, parts of a word, or a mark
  cases h with
  | number h =>
    cases h with
    | integer h => exact .of_isDigit (h.2 c hc)
    | real hwhole hfraction =>
      rcases List.mem_append.mp hc with hc | hc
      · exact .of_isDigit (hwhole.2 c hc)
      · rcases List.mem_cons.mp hc with rfl | hc
        · decide
        · exact .of_isDigit (hfraction.2 c hc)
  | word h =>
    rcases Bool.or_eq_true_iff.mp (h.isWordPart c hc) with hpart | hunderscore
    · exact .of_isAlphanum hpart
    · rw [eq_of_beq hunderscore]
      decide
  | mark mark =>
    have hmark : ∀ c ∈ mark.spelling.toList, IsVisible c := by
      cases mark <;> simp [Mark.spelling] <;> decide
    exact hmark c hc

/-- There are no blanks in a lexeme. -/
theorem isBlank_of_mem (h : IsLexeme text) {c : Char} (hc : c ∈ text) : isBlank c = false := by
  have hvisible := h.isVisible_of_mem hc
  simp only [isBlank, Bool.or_eq_false_iff, beq_eq_false_iff_ne]
  refine ⟨⟨⟨?_, ?_⟩, ?_⟩, ?_⟩ <;> rintro rfl <;> exact absurd hvisible (by decide)

/-- A lexeme that starts with a slash is nothing else. -/
theorem eq_slash (h : IsLexeme text) (hfirst : text.head? = some '/') : text = ['/'] := by
  obtain ⟨mark, rfl⟩ := h.exists_mark hfirst rfl rfl
  cases mark <;> first | rfl | cases hfirst

end IsLexeme

/-- A lexeme stops before a character that no lexeme with the same start has in it, and at the end
    of a source. -/
theorem StopsBefore.of_not_mem {text rest : List Char} (h : IsLexeme text)
    (hrest : ∀ c, rest.head? = some c →
      ∀ other, IsLexeme other → other.head? = text.head? → c ∉ other) : StopsBefore text rest := by
  constructor
  · -- a comment would have to start inside the text
    intro hcomment
    obtain ⟨first, more, rfl⟩ := List.exists_cons_of_ne_nil h.ne_nil
    rw [List.cons_append, List.cons_prefix_cons] at hcomment
    obtain ⟨rfl, hsecond⟩ := hcomment
    obtain rfl : more = [] := List.tail_eq_of_cons_eq (h.eq_slash rfl)
    -- so the second slash would be what follows
    cases rest with
    | nil => simp at hsecond
    | cons c rest =>
      obtain rfl : '/' = c := (List.cons_prefix_cons.mp hsecond).1
      exact hrest '/' rfl _ h rfl List.mem_cons_self
  · intro other hinitial hother
    by_cases hle : other <+: text
    · exact hle
    · -- a longer one would have the character in it
      exfalso
      rcases List.prefix_or_prefix_of_prefix hinitial (List.prefix_append text rest) with
        hprefix | ⟨beyond, rfl⟩
      · exact hle hprefix
      · cases beyond with
        | nil => exact hle (by simp)
        | cons c beyond =>
          obtain ⟨more, hmore⟩ := hinitial
          rw [List.append_assoc] at hmore
          have hhead : rest.head? = some c := by
            rw [← List.append_cancel_left hmore]
            rfl
          exact hrest c hhead _ hother (List.head?_append_of_ne_nil _ h.ne_nil) (by simp)

/-- A lexeme stops before a blank. -/
theorem StopsBefore.of_blank {text rest : List Char} (h : IsLexeme text)
    (hrest : ∀ c, rest.head? = some c → isBlank c = true) : StopsBefore text rest := by
  refine .of_not_mem h fun c hc other hother _ hmem => ?_
  have hblank := hother.isBlank_of_mem hmem
  rw [hrest c hc] at hblank
  cases hblank

namespace Cursor

/-- There is no gap before what is neither a blank nor a comment. -/
theorem skipGap_eq_self {c : Cursor}
    (hblank : ∀ first, c.rest.head? = some first → isBlank first = false)
    (hcomment : ¬ ['/', '/'] <+: c.rest) : c.skipGap = c := by
  obtain ⟨position, rest⟩ := c
  cases rest with
  | nil => rfl
  | cons first rest =>
    have hslash : ¬ (first = '/' ∧ rest.head? = some '/') := by
      rintro ⟨rfl, hsecond⟩
      obtain ⟨_, rfl⟩ := List.head?_eq_some_iff.mp hsecond
      exact hcomment ⟨_, rfl⟩
    simp only [skipGap, skipGapFrom, hblank first rfl, Bool.false_eq_true, if_false]
    rw [if_neg (by simpa using hslash)]

/-- What stops before its rest is read as its token, and the cursor stops there too. -/
theorem next_of_stopsBefore {text rest : List Char} {token : Token} (position : Nat)
    (h : Spells text token) (hstops : StopsBefore text rest) :
    next ⟨position, text ++ rest⟩ =
      .ok (some ⟨token, position, position + byteLength text⟩)
        ⟨position + byteLength text, rest⟩ := by
  have hlexeme := h.isLexeme
  have hskip : skipGap ⟨position, text ++ rest⟩ = ⟨position, text ++ rest⟩ := by
    apply skipGap_eq_self _ hstops.not_comment
    intro first hfirst
    rw [List.head?_append_of_ne_nil _ hlexeme.ne_nil] at hfirst
    exact hlexeme.isBlank_of_mem (List.mem_of_mem_head? hfirst)
  have hfinds := finds_next ⟨position, text ++ rest⟩
  rw [hskip] at hfinds
  generalize next ⟨position, text ++ rest⟩ = result at hfinds
  -- whatever is found is at least as long as `text`, and no longer
  cases hfinds with
  | @token text' lexeme after hmatches =>
    have hle := hmatches.longest text (List.prefix_append _ _) hlexeme
    have hge := hstops.longest text' ⟨after.rest, hmatches.passes.rest.symm⟩
      hmatches.spells.isLexeme
    obtain rfl : text = text' := hle.eq_of_length_le hge.length_le
    obtain ⟨found, start, stop⟩ := lexeme
    obtain ⟨behind, rest'⟩ := after
    obtain rfl : found = token := hmatches.spells.unique h
    obtain rfl : start = position := hmatches.start
    obtain rfl : behind = start + byteLength text := hmatches.passes.position
    obtain rfl : stop = start + byteLength text := hmatches.stop
    obtain rfl : rest = rest' := List.append_cancel_left hmatches.passes.rest
    rfl
  | nothing hnil => exact absurd (List.append_eq_nil_iff.mp hnil).1 hlexeme.ne_nil
  | character _ hnone => exact absurd hlexeme (hnone text (List.prefix_append _ _))
  | @number text' after hpasses hlarge hlongest =>
    have hge := hstops.longest text' ⟨after.rest, hpasses.rest.symm⟩ (.number hlarge.isNumber)
    -- the text starts as the number does, with a digit, so it is one too
    have hnumber : IsNumber text := by
      obtain ⟨first, hfirst, hdigit⟩ := hlarge.isNumber.exists_isDigit_head
      obtain ⟨more, rfl⟩ := hge
      have hhead : (text' ++ more).head? = some first := by
        rw [List.head?_append_of_ne_nil _ hlarge.ne_nil]
        exact hfirst
      exact hlexeme.isNumber hhead hdigit
    have hle := hlongest text (List.prefix_append _ _) hnumber
    obtain rfl : text = text' := hle.eq_of_length_le hge.length_le
    -- the number would be the text, whose value is in range
    exact absurd hlarge h.not_isTooLarge

/-! ## Gaps -/

theorem skipGapFrom_comment {body : List Char} (hbody : '\n' ∉ body) (position : Nat)
    (rest : List Char) :
    skipGapFrom true position (body ++ '\n' :: rest) =
      skipGapFrom false (position + byteLength (body ++ ['\n'])) rest := by
  induction body generalizing position with
  | nil => rfl
  | cons c body ih =>
    rw [List.mem_cons, not_or] at hbody
    obtain ⟨hc, hbody⟩ := hbody
    have hgoes : (c != '\n') = true := by simpa using Ne.symm hc
    rw [List.cons_append, skipGapFrom, if_pos rfl, hgoes, ih hbody, List.cons_append, byteLength,
      Nat.add_assoc]

/-- A gap is passed over whatever follows it. -/
theorem skipGap_gap_append {gap : List Char} (h : IsGap false gap) (position : Nat)
    (rest : List Char) :
    skipGap ⟨position, gap ++ rest⟩ = skipGap ⟨position + byteLength gap, rest⟩ := by
  unfold skipGap
  dsimp only
  -- on the gap: a blank, or a comment up to the end of its line
  induction h generalizing position with
  | nil => rfl
  | @blank c gap hc _ ih =>
    have hblank : isBlank c = true := by simpa [isBlank, or_assoc] using hc
    rw [List.cons_append, skipGapFrom, if_neg Bool.false_ne_true, if_pos hblank, ih, byteLength,
      Nat.add_assoc]
  | @comment body gap hbody _ ih =>
    have hslashes : skipGapFrom false position ('/' :: '/' :: (body ++ '\n' :: gap) ++ rest) =
        skipGapFrom true (position + '/'.utf8Size) ('/' :: body ++ '\n' :: (gap ++ rest)) := by
      rw [List.cons_append, List.cons_append, List.append_assoc]
      rfl
    have hinside : '\n' ∉ '/' :: body := by simpa using hbody
    rw [hslashes, skipGapFrom_comment hinside, ih]
    congr 1
    simp only [byteLength, byteLength_append, List.cons_append]
    omega
  -- an open comment is a gap at the end of the source only
  | openComment hend => cases hend

theorem next_gap_append {gap : List Char} (h : IsGap false gap) (position : Nat)
    (rest : List Char) :
    next ⟨position, gap ++ rest⟩ = next ⟨position + byteLength gap, rest⟩ := by
  unfold next
  rw [skipGap_gap_append h]

/-- Behind a gap there is no comment. -/
theorem not_comment_skipGapFrom (inComment : Bool) (position : Nat) (rest : List Char) :
    ¬ ['/', '/'] <+: (skipGapFrom inComment position rest).rest := by
  -- on the text: the skipping stops at what is no blank and starts no comment
  induction rest generalizing inComment position with
  | nil => simp [skipGapFrom]
  | cons c rest ih =>
    unfold skipGapFrom
    split
    · exact ih _ _
    · split
      · exact ih _ _
      · split
        · exact ih _ _
        · next hslash =>
          intro hcomment
          obtain ⟨rfl, hsecond⟩ := List.cons_prefix_cons.mp hcomment
          obtain ⟨_, rfl⟩ := hsecond
          exact hslash rfl

/-- A token that stands behind a gap stops before what follows it. -/
theorem Matches.stopsBefore {c after : Cursor} {text : List Char} {lexeme : Lexeme}
    (h : c.skipGap.Matches text lexeme after) : StopsBefore text after.rest := by
  constructor
  · rw [← h.passes.rest]
    exact not_comment_skipGapFrom _ _ _
  · rw [← h.passes.rest]
    exact h.longest

end Cursor

end Formula
