import Formula.Proofs.Token.Refinement

/-!
# Call after call

A lexer can be called again whatever it has answered.  `Cursor.afterCalls` and `Scanner.afterCalls`
are where it stands behind any number of calls on a source, the ones behind an error included.

Key results:
* `Cursor.exists_passes_iterate` — the cursor stays on its way through the source
* `Cursor.answer_later` — the end of a source and a character that starts no token are final
* `Scanner.standsAt_afterCalls` — a scanner stands where the cursor does behind every call
* `Scanner.calls_progress` — what calls do in terms of the source and its bytes
-/

namespace Formula

namespace Cursor

/-- What a call answers. -/
def answer (c : Cursor) : Except ParseError (Option Lexeme) :=
  match next c with
  | .ok lexeme? _ => .ok lexeme?
  | .error e _ => .error e

/-- The cursor behind a call, which is there after an error too. -/
def behind (c : Cursor) : Cursor :=
  match next c with
  | .ok _ after => after
  | .error _ after => after

/-- The cursor of a source behind a number of calls. -/
def afterCalls (source : String) (calls : Nat) : Cursor :=
  behind^[calls] (ofSource source)

variable {source : String} {c : Cursor}

theorem next_of_answer {lexeme? : Option Lexeme} (h : c.answer = .ok lexeme?) :
    next c = .ok lexeme? c.behind := by
  unfold answer at h
  unfold behind
  cases hnext : next c with
  | ok found after =>
    rw [hnext] at h
    cases h
    rfl
  | error e after =>
    rw [hnext] at h
    cases h

theorem next_of_answer_error {e : ParseError} (h : c.answer = .error e) :
    next c = .error e c.behind := by
  unfold answer at h
  unfold behind
  cases hnext : next c with
  | ok found after =>
    rw [hnext] at h
    cases h
  | error e' after =>
    rw [hnext] at h
    cases h
    rfl

/-! ## One call -/

/-- A call only passes over characters, whatever it answers. -/
theorem exists_passes_behind (c : Cursor) : ∃ passed, c.Passes passed c.behind := by
  obtain ⟨gap, hgap, -⟩ := c.exists_gap_skipGap
  have hfinds := c.finds_next
  unfold behind
  generalize next c = result at hfinds
  cases hfinds with
  | token h => exact ⟨_, hgap.trans h.passes⟩
  | nothing | character => exact ⟨gap, hgap⟩
  | number h => exact ⟨_, hgap.trans h⟩

/-- A token takes a byte at least, and so does a number that is refused. -/
theorem position_lt_behind (c : Cursor)
    (h : (∃ lexeme, c.answer = .ok (some lexeme)) ∨
      ∃ literal position, c.answer = .error (.invalidNumber literal position)) :
    c.position < c.behind.position := by
  obtain ⟨gap, hgap, -⟩ := c.exists_gap_skipGap
  apply Nat.lt_of_le_of_lt hgap.position_le
  rcases h with ⟨lexeme, h⟩ | ⟨literal, position, h⟩
  · have hfinds := c.finds_next
    rw [next_of_answer h] at hfinds
    cases hfinds with
    | token hmatches => exact hmatches.position_lt
  · obtain ⟨-, hpasses, hvalue, -⟩ := number_of_next (next_of_answer_error h)
    exact hpasses.position_lt hvalue.ne_nil

/-- Whether a call has found the end of the source, or a character that starts no token. -/
def IsFinal (answer : Except ParseError (Option Lexeme)) : Prop :=
  answer = .ok none ∨
    ∃ character position, answer = .error (.unexpectedCharacter character position)

/-- Behind such a call the cursor stands right before what the call has found. -/
theorem behind_eq_skipGap (h : IsFinal c.answer) : c.behind = c.skipGap := by
  rcases h with h | ⟨character, position, h⟩
  · exact (skipGap_of_next_none (next_of_answer h)).1
  · exact (character_of_next (next_of_answer_error h)).1

/-! ## Calls from a place without a gap -/

theorem skipGapFrom_skipGapFrom (inComment : Bool) (position : Nat) (rest : List Char) :
    (skipGapFrom inComment position rest).skipGap = skipGapFrom inComment position rest := by
  -- on the text, as the first pass goes through it
  induction rest generalizing inComment position with
  | nil => rfl
  | cons c rest ih =>
    simp only [skipGapFrom]
    by_cases hcomment : inComment = true
    · rw [if_pos hcomment]
      exact ih _ _
    · rw [if_neg hcomment]
      split
      · exact ih _ _
      · next hblank =>
        split
        · exact ih _ _
        · next hslash =>
          -- what stops the first pass stops the second one
          simp only [skipGap, skipGapFrom, hblank, hslash, if_false, Bool.false_eq_true]

/-- Behind a gap there is no other one. -/
theorem skipGap_skipGap (c : Cursor) : c.skipGap.skipGap = c.skipGap :=
  skipGapFrom_skipGapFrom false c.position c.rest

/-- A call does not depend on whether the gap has been passed before. -/
theorem next_skipGap (c : Cursor) : next c.skipGap = next c := by
  unfold next
  rw [skipGap_skipGap]

theorem behind_skipGap (c : Cursor) : c.skipGap.behind = c.behind := by
  unfold behind
  rw [next_skipGap]

theorem answer_skipGap (c : Cursor) : c.skipGap.answer = c.answer := by
  unfold answer
  rw [next_skipGap]

/-- After a final answer every later call gives it again and stays where it is. -/
theorem answer_later (h : IsFinal c.answer) (later : Nat) :
    (behind^[later] c.behind).answer = c.answer ∧ behind^[later] c.behind = c.behind := by
  have hbehind := behind_eq_skipGap h
  have hfixed : Function.IsFixedPt behind c.behind := by
    show c.behind.behind = c.behind
    rw [hbehind, behind_skipGap, hbehind]
  rw [hfixed.iterate later, hbehind, answer_skipGap]
  exact ⟨rfl, rfl⟩

/-! ## Calls on a source -/

/-- Whatever the calls answer, they only lead further through the source. -/
theorem exists_passes_iterate (c : Cursor) (calls : Nat) :
    ∃ passed, c.Passes passed (behind^[calls] c) := by
  induction calls with
  | zero => exact ⟨[], .refl _⟩
  | succ calls ih =>
    obtain ⟨passed, hpassed⟩ := ih
    obtain ⟨more, hmore⟩ := (behind^[calls] c).exists_passes_behind
    rw [Function.iterate_succ_apply']
    exact ⟨_, hpassed.trans hmore⟩

theorem afterCalls_add (source : String) (calls later : Nat) :
    afterCalls source (calls + later) = behind^[later] (afterCalls source calls) := by
  rw [afterCalls, Nat.add_comm, Function.iterate_add_apply]
  rfl

theorem position_afterCalls_le (source : String) (calls later : Nat) :
    (afterCalls source calls).position ≤ (afterCalls source (calls + later)).position := by
  obtain ⟨passed, hpassed⟩ := (afterCalls source calls).exists_passes_iterate later
  rw [afterCalls_add]
  exact hpassed.position_le

/-- A token is cut out of the source. -/
theorem exists_isCut_of_token {passed : List Char} {after : Cursor} {lexeme : Lexeme}
    (hpassed : (ofSource source).Passes passed c) (h : next c = .ok (some lexeme) after) :
    ∃ text, IsCut source lexeme.start after.position text ∧ Spells text.toList lexeme.token := by
  obtain ⟨gap, text, hgap, -, hmatches⟩ := exists_matches_of_next h
  have hcut := (hpassed.trans hgap).isCut hmatches.passes
  refine ⟨String.ofList text, ?_, ?_⟩
  · rw [hmatches.start]
    exact hcut
  · rw [String.toList_ofList]
    exact hmatches.spells

/-- A number that is refused is cut out of the source. -/
theorem isCut_of_number {passed : List Char} {after : Cursor} {literal : String} {position : Nat}
    (hpassed : (ofSource source).Passes passed c)
    (h : next c = .error (.invalidNumber literal position) after) :
    IsCut source position after.position literal := by
  obtain ⟨gap, hgap, -⟩ := c.exists_gap_skipGap
  obtain ⟨rfl, hpasses, -, -⟩ := number_of_next h
  have hcut := (hpassed.trans hgap).isCut hpasses
  rwa [String.ofList_toList] at hcut

/-- A character that starts no token is cut out of the source. -/
theorem isCut_of_character {passed : List Char} {after : Cursor} {character : Char}
    {position : Nat} (hpassed : (ofSource source).Passes passed c)
    (h : next c = .error (.unexpectedCharacter character position) after) :
    IsCut source position (position + character.utf8Size) (String.singleton character) := by
  obtain ⟨gap, hgap, -⟩ := c.exists_gap_skipGap
  obtain ⟨-, rfl, rest, hrest⟩ := character_of_next h
  exact (hpassed.trans hgap).isCut_head hrest

/-! ## The calls of one pass -/

/-- The calls that give tokens come one after the other, and then the one that does not. -/
theorem YieldsUpTo.answer_iterate {lexemes : List Lexeme} {failure? : Option ParseError}
    (h : c.YieldsUpTo lexemes failure?) :
    (∀ i (hi : i < lexemes.length), (behind^[i] c).answer = .ok (some lexemes[i])) ∧
      (behind^[lexemes.length] c).answer = failure?.elim (.ok none) .error := by
  -- on the tokens: the calls behind the first one are the calls on the cursor behind it
  induction h with
  | done hnext | failed hnext =>
    constructor
    · intro i hi
      exact absurd hi (Nat.not_lt_zero i)
    · simp [answer, hnext]
  | @more c after lexeme lexemes failure? hnext _ ih =>
    have hbehind : c.behind = after := by rw [behind, hnext]
    constructor
    · intro i hi
      cases i with
      | zero => simp [answer, hnext]
      | succ i =>
        rw [Function.iterate_succ_apply, hbehind]
        exact ih.1 i (Nat.lt_of_succ_lt_succ hi)
    · rw [List.length_cons, Function.iterate_succ_apply, hbehind]
      exact ih.2

/-- There are at most as many tokens as bytes. -/
theorem YieldsUpTo.length_le_byteLength {lexemes : List Lexeme} {failure? : Option ParseError}
    (h : c.YieldsUpTo lexemes failure?) : lexemes.length ≤ byteLength c.rest := by
  induction h with
  | done | failed => exact Nat.zero_le _
  | @more c after lexeme lexemes failure? hnext _ ih =>
    obtain ⟨gap, text, hgap, -, hmatches⟩ := exists_matches_of_next hnext
    have hway := hgap.trans hmatches.passes
    have hlt := hmatches.position_lt
    have hle := hgap.position_le
    have hposition := hway.position
    rw [hway.rest, byteLength_append, List.length_cons]
    omega

/-- A pass over a source calls at most once for every byte and once more, and its result is what the
    calls have answered. -/
theorem exists_answers_of_tokenize (source : String) :
    ∃ lexemes : List Lexeme, lexemes.length ≤ source.utf8ByteSize ∧
      (∀ i (hi : i < lexemes.length), (afterCalls source i).answer = .ok (some lexemes[i])) ∧
      (((afterCalls source lexemes.length).answer = .ok none ∧ tokenize source = .ok lexemes) ∨
        ∃ e, (afterCalls source lexemes.length).answer = .error e ∧
          tokenize source = .error e) := by
  have hbytes : byteLength (ofSource source).rest = source.utf8ByteSize := by
    rw [byteLength_eq_utf8ByteSize, ofSource, String.ofList_toList]
  cases htokenize : tokenize source with
  | ok lexemes =>
    -- each token has a byte of its own, so there are no more of them than bytes
    have hyields := yieldsUpTo_none_iff.mpr (yields_of_tokenize htokenize)
    obtain ⟨htokens, hend⟩ := hyields.answer_iterate
    exact ⟨lexemes, hbytes ▸ hyields.length_le_byteLength, htokens, .inl ⟨hend, rfl⟩⟩
  | error e =>
    obtain ⟨lexemes, hyields⟩ := exists_yieldsUpTo_of_tokenize htokenize
    obtain ⟨htokens, hend⟩ := hyields.answer_iterate
    exact ⟨lexemes, hbytes ▸ hyields.length_le_byteLength, htokens, .inr ⟨e, hend, rfl⟩⟩

end Cursor

/-! ## Calls on the bytes of a source -/

namespace Scanner

/-- What a call answers. -/
def answer (s : Scanner) : Except ScanError (Option Lexeme) :=
  match next s with
  | .ok lexeme? _ => .ok lexeme?
  | .error e _ => .error e

/-- The scanner behind a call, which is there after an error too. -/
def behind (s : Scanner) : Scanner :=
  match next s with
  | .ok _ after => after
  | .error _ after => after

/-- The scanner of a source behind a number of calls. -/
def afterCalls (source : String) (calls : Nat) : Scanner :=
  behind^[calls] (ofSource source)

/-- Whether a call has found the end of the source, or a character that starts no token. -/
def IsFinal (answer : Except ScanError (Option Lexeme)) : Prop :=
  answer = .ok none ∨
    ∃ character position, answer = .error (.refused (.unexpectedCharacter character position))

variable {s : Scanner} {c : Cursor}

namespace StandsAt

/-- A call answers what the call of the cursor does. -/
theorem answer_eq (h : s.StandsAt c) : s.answer = c.answer.mapError .refused := by
  rw [answer, next_eq h, Cursor.answer]
  cases Cursor.next c <;> rfl

theorem behind_eq (h : s.StandsAt c) : s.behind = ⟨s.source, c.behind.position⟩ := by
  rw [behind, next_eq h, Cursor.behind]
  cases Cursor.next c <;> rfl

theorem behind (h : s.StandsAt c) : s.behind.StandsAt c.behind := by
  obtain ⟨passed, hpassed⟩ := c.exists_passes_behind
  rw [h.behind_eq]
  exact h.move hpassed

theorem answer_of_ok (h : s.StandsAt c) {lexeme? : Option Lexeme}
    (hanswer : s.answer = .ok lexeme?) : c.answer = .ok lexeme? := by
  rw [h.answer_eq] at hanswer
  cases hc : c.answer with
  | ok found =>
    rw [hc] at hanswer
    cases hanswer
    rfl
  | error e =>
    rw [hc] at hanswer
    cases hanswer

/-- A call never asks for a text between offsets that bound none. -/
theorem exists_answer_of_error (h : s.StandsAt c) {e : ScanError} (hanswer : s.answer = .error e) :
    ∃ e', e = .refused e' ∧ c.answer = .error e' := by
  rw [h.answer_eq] at hanswer
  cases hc : c.answer with
  | ok found =>
    rw [hc] at hanswer
    cases hanswer
  | error e' =>
    rw [hc] at hanswer
    cases hanswer
    exact ⟨e', rfl, rfl⟩

theorem answer_of_refused (h : s.StandsAt c) {e : ParseError}
    (hanswer : s.answer = .error (.refused e)) : c.answer = .error e := by
  obtain ⟨e', he, hc⟩ := h.exists_answer_of_error hanswer
  cases he
  exact hc

theorem isFinal (h : s.StandsAt c) (hfinal : IsFinal s.answer) : Cursor.IsFinal c.answer :=
  hfinal.imp h.answer_of_ok fun ⟨character, position, hanswer⟩ =>
    ⟨character, position, h.answer_of_refused hanswer⟩

end StandsAt

/-- Behind every call, a scanner stands where the cursor does. -/
theorem standsAt_afterCalls (source : String) (calls : Nat) :
    (afterCalls source calls).StandsAt (Cursor.afterCalls source calls) := by
  induction calls with
  | zero => exact .start source
  | succ calls ih =>
    rw [afterCalls, Cursor.afterCalls, Function.iterate_succ_apply', Function.iterate_succ_apply']
    exact ih.behind

/-- A final answer is given again by all later calls, at the same position. -/
theorem answer_afterCalls_of_isFinal {source : String} {calls : Nat}
    (h : IsFinal (afterCalls source calls).answer) (later : Nat) :
    (afterCalls source (calls + 1 + later)).answer = (afterCalls source calls).answer ∧
      (afterCalls source (calls + 1 + later)).position =
        (afterCalls source calls).behind.position := by
  have hs := standsAt_afterCalls source calls
  have hs' := standsAt_afterCalls source (calls + 1 + later)
  -- the cursor answers the same from there on, so the scanner that stands at it does
  have hlater : Cursor.afterCalls source (calls + 1 + later) =
      Cursor.behind^[later] (Cursor.afterCalls source calls).behind := by
    rw [Cursor.afterCalls_add, Cursor.afterCalls_add]
    rfl
  obtain ⟨hanswer, hcursor⟩ := Cursor.answer_later (hs.isFinal h) later
  rw [hs.behind.position, hs'.position, hs'.answer_eq, hs.answer_eq, hlater, hanswer, hcursor]
  exact ⟨rfl, rfl⟩

/-- The calls of a pass over a source: one for each token, and one for the end or an error. -/
theorem exists_answers_of_tokenize (source : String) :
    ∃ lexemes : List Lexeme, lexemes.length ≤ source.utf8ByteSize ∧
      (∀ i (hi : i < lexemes.length), (afterCalls source i).answer = .ok (some lexemes[i])) ∧
      (((afterCalls source lexemes.length).answer = .ok none ∧ tokenize source = .ok lexemes) ∨
        ∃ e, (afterCalls source lexemes.length).answer = .error (.refused e) ∧
          tokenize source = .error (.refused e)) := by
  obtain ⟨lexemes, hlength, htokens, hend⟩ := Cursor.exists_answers_of_tokenize source
  refine ⟨lexemes, hlength, fun i hi => ?_, ?_⟩
  · rw [(standsAt_afterCalls source i).answer_eq, htokens i hi]
    rfl
  · rw [(standsAt_afterCalls source _).answer_eq, tokenize_eq]
    rcases hend with ⟨hanswer, htokenize⟩ | ⟨e, hanswer, htokenize⟩
    · rw [hanswer, htokenize]
      exact .inl ⟨rfl, rfl⟩
    · rw [hanswer, htokenize]
      exact .inr ⟨e, rfl, rfl⟩

/-- Behind any number of calls, errors included, the scanner is inside the source and between two
    characters, and later calls do not lead back.  A call never asks for a text that is not there.
    It leads on where it gives a token or refuses a number, and what it takes, or refuses, is cut
    out of the source.  The end of the source and a character that starts no token are answered
    again by all later calls, at the same position.  A pass over the source ends with at most one
    call more than there are bytes. -/
theorem calls_progress (source : String) (calls : Nat) :
    let s : Scanner := afterCalls source calls
    s.position ≤ source.utf8ByteSize ∧ IsBoundary source s.position ∧
    (∀ later, s.position ≤ (afterCalls source (calls + later)).position) ∧
    (∀ start stop, s.answer ≠ .error (.badSlice start stop)) ∧
    (∀ lexeme, s.answer = .ok (some lexeme) → s.position < s.behind.position ∧
      ∃ text, IsCut source lexeme.start s.behind.position text ∧
        Spells text.toList lexeme.token) ∧
    (∀ literal position, s.answer = .error (.refused (.invalidNumber literal position)) →
      s.position < s.behind.position ∧ IsCut source position s.behind.position literal) ∧
    (∀ character position,
      s.answer = .error (.refused (.unexpectedCharacter character position)) →
        IsCut source position (position + character.utf8Size) (String.singleton character)) ∧
    (IsFinal s.answer → ∀ later,
      let s' := afterCalls source (calls + 1 + later)
      s'.answer = s.answer ∧ s'.position = s.behind.position) ∧
    ∃ lexemes : List Lexeme, lexemes.length ≤ source.utf8ByteSize ∧
      (∀ i (hi : i < lexemes.length), (afterCalls source i).answer = .ok (some lexemes[i])) ∧
      (((afterCalls source lexemes.length).answer = .ok none ∧ tokenize source = .ok lexemes) ∨
        ∃ e, (afterCalls source lexemes.length).answer = .error (.refused e) ∧
          tokenize source = .error (.refused e)) := by
  intro s
  -- the scanner stands at the cursor behind as many calls, which is on its way through the source
  have hs := standsAt_afterCalls source calls
  have hposition (later : Nat) : (afterCalls source (calls + later)).position =
      (Cursor.afterCalls source (calls + later)).position := (standsAt_afterCalls source _).position
  obtain ⟨passed, hpassed⟩ := (Cursor.ofSource source).exists_passes_iterate calls
  have hboundary : IsBoundary source s.position := hs.position ▸ hpassed.isBoundary
  have hbehind : s.behind.position = (Cursor.afterCalls source calls).behind.position :=
    hs.behind.position
  refine ⟨hboundary.le_utf8ByteSize, hboundary, ?_, ?_, ?_, ?_, ?_, answer_afterCalls_of_isFinal,
    exists_answers_of_tokenize source⟩
  · -- later calls
    intro later
    rw [hposition, hs.position]
    exact Cursor.position_afterCalls_le source calls later
  · -- a slice: the scanner answers as the cursor does, and so refuses none
    intro start stop hanswer
    obtain ⟨e, he, -⟩ := hs.exists_answer_of_error hanswer
    cases he
  · -- a token
    intro lexeme hanswer
    have hc := hs.answer_of_ok hanswer
    rw [hs.position, hbehind]
    exact ⟨Cursor.position_lt_behind _ (.inl ⟨lexeme, hc⟩),
      Cursor.exists_isCut_of_token hpassed (Cursor.next_of_answer hc)⟩
  · -- a number that is refused
    intro literal position hanswer
    have hc := hs.answer_of_refused hanswer
    rw [hs.position, hbehind]
    exact ⟨Cursor.position_lt_behind _ (.inr ⟨literal, position, hc⟩),
      Cursor.isCut_of_number hpassed (Cursor.next_of_answer_error hc)⟩
  · -- a character that starts no token
    intro character position hanswer
    have hc := hs.answer_of_refused hanswer
    exact Cursor.isCut_of_character hpassed (Cursor.next_of_answer_error hc)

/-- A number that is refused inside a text with characters of several bytes, and then one of these
    that starts no token. -/
theorem calls_progress_refused :
    let source := "// é\n99999999999999999999 é"
    (afterCalls source 0).answer =
      .error (.refused (.invalidNumber "99999999999999999999" 6)) ∧
    IsCut source 6 26 "99999999999999999999" ∧
    (afterCalls source 1).answer = .error (.refused (.unexpectedCharacter 'é' 27)) ∧
    ∀ later, (afterCalls source (1 + 1 + later)).answer =
      .error (.refused (.unexpectedCharacter 'é' 27)) := by
  intro source
  have hnumber : (afterCalls source 0).answer =
      .error (.refused (.invalidNumber "99999999999999999999" 6)) := by decide +kernel
  have hbehind : (afterCalls source 0).behind.position = 26 := by decide +kernel
  have hcharacter : (afterCalls source 1).answer =
      .error (.refused (.unexpectedCharacter 'é' 27)) := by decide +kernel
  -- the first call refuses the number, the second one the character, and so do all later ones
  obtain ⟨-, -, -, -, -, hrefused, -⟩ := calls_progress source 0
  obtain ⟨-, -, -, -, -, -, -, hfinal, -⟩ := calls_progress source 1
  refine ⟨hnumber, hbehind ▸ (hrefused _ _ hnumber).2, hcharacter, fun later => ?_⟩
  exact (hfinal (.inr ⟨_, _, hcharacter⟩) later).1.trans hcharacter

end Scanner

end Formula
