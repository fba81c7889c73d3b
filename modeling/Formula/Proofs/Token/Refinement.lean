import Formula.Proofs.Token.Boundary
import Formula.Proofs.Token.Bytes
import Formula.Proofs.Value.Reading

/-!
# Bytes and characters side by side

A `Scanner` goes through a source by bytes and a `Cursor` by characters.  Where a scanner stands at a
cursor on its way through the source (`Scanner.StandsAt`), the bytes ahead are those of the
characters that are left.  Both pass over the same gaps and stretches, so that a scanner only stops
between two characters, and the texts that it cuts out are there.

Key results:
* `Scanner.slice?_eq_some_iff`: the offsets that bound a text
* `Scanner.next_eq`: a call gives what the call of the cursor does, and never a fault
* `Scanner.tokenize_eq`: so does a pass over the source
-/

namespace Formula

open String (utf8EncodeChar)

/-! ## Where a scanner stands -/

theorem beq_some_eq_any {α : Type} [BEq α] (a? : Option α) (b : α) :
    (a? == some b) = a?.any (· == b) := by
  cases a? <;> rfl

namespace Scanner

/-- The bytes ahead. -/
def ahead (s : Scanner) : List UInt8 :=
  s.source.toByteArray.data.toList.drop s.position

theorem peek_eq (s : Scanner) (offset : Nat) : s.peek offset = s.ahead[offset]? := by
  rw [ahead, List.getElem?_drop, peek]
  simp [getElem?_def, ByteArray.getElem_eq_getElem_data]

theorem ahead_skip (s : Scanner) (width : Nat) : (s.skip width).ahead = s.ahead.drop width := by
  rw [ahead, ahead, List.drop_drop]
  rfl

theorem skip_skip (s : Scanner) (width more : Nat) :
    (s.skip width).skip more = s.skip (width + more) := by
  simp only [skip, Nat.add_assoc]

/-- The byte that is looked at first is the first one ahead. -/
theorem ahead_of_peek {s : Scanner} {byte : UInt8} (h : s.peek 0 = some byte) :
    s.ahead = byte :: (s.skip 1).ahead := by
  rw [ahead_skip]
  rw [peek_eq] at h
  cases hahead : s.ahead with
  | nil =>
    rw [hahead] at h
    cases h
  | cons first more =>
    rw [hahead] at h
    cases h
    rfl

theorem ahead_of_peek_eq_none {s : Scanner} (h : s.peek 0 = none) : s.ahead = [] := by
  rw [peek_eq, List.getElem?_eq_none_iff] at h
  exact List.eq_nil_of_length_eq_zero (Nat.le_zero.mp h)

theorem skipWhile_eq (p : UInt8 → Bool) (s : Scanner) :
    s.skipWhile p = s.skip (s.ahead.takeWhile p).length := by
  fun_induction skipWhile p s with
  | case1 s byte h hp ih =>
    rw [ih, ahead_of_peek h, List.takeWhile_cons_of_pos hp, skip_skip, List.length_cons,
      Nat.add_comm]
  | case2 s byte h hp =>
    rw [ahead_of_peek h, List.takeWhile_cons_of_neg hp]
    rfl
  | case3 s h =>
    rw [ahead_of_peek_eq_none h]
    rfl

/-- A line goes on over bytes that do not end it. -/
theorem skipLine_append {s : Scanner} {bytes more : List UInt8} (h : s.ahead = bytes ++ more)
    (hbytes : ∀ byte ∈ bytes, (byte == '\n'.toUInt8) = false) :
    s.skipLine = (s.skip bytes.length).skipLine := by
  -- on the bytes, none of which ends the line
  induction bytes generalizing s with
  | nil => rfl
  | cons byte bytes ih =>
    have hpeek : s.peek 0 = some byte := by
      rw [peek_eq, h]
      rfl
    have hmore : (s.skip 1).ahead = bytes ++ more := by
      rw [ahead_skip, h]
      rfl
    have hstep : s.skipLine = (s.skip 1).skipLine := by
      rw [skipLine, hpeek]
      simp only [hbytes byte List.mem_cons_self, Bool.false_eq_true, if_false]
    rw [hstep, ih hmore fun byte hmem => hbytes byte (List.mem_cons_of_mem _ hmem), skip_skip,
      List.length_cons, Nat.add_comm]

/-- Whether a scanner stands where a cursor does that has come through the same source. -/
structure StandsAt (s : Scanner) (c : Cursor) : Prop where
  position : s.position = c.position
  exists_passes : ∃ passed, (Cursor.ofSource s.source).Passes passed c

namespace StandsAt

variable {s : Scanner} {c after : Cursor} {passed : List Char}

theorem start (source : String) : (Scanner.ofSource source).StandsAt (Cursor.ofSource source) :=
  ⟨rfl, [], .refl _⟩

theorem eq (h : s.StandsAt c) : s = ⟨s.source, c.position⟩ := by
  rw [← h.position]

/-- A scanner that moves on as a cursor does stands at the cursor again. -/
theorem move (h : s.StandsAt c) (hpasses : c.Passes passed after) :
    (⟨s.source, after.position⟩ : Scanner).StandsAt after := by
  obtain ⟨before, hbefore⟩ := h.exists_passes
  exact ⟨rfl, _, hbefore.trans hpasses⟩

/-- The bytes ahead are those of the characters that are left. -/
theorem ahead_eq (h : s.StandsAt c) : s.ahead = c.rest.flatMap utf8EncodeChar := by
  obtain ⟨before, hbefore⟩ := h.exists_passes
  have hsource : s.source.toByteArray.data.toList =
      before.flatMap utf8EncodeChar ++ c.rest.flatMap utf8EncodeChar := by
    rw [← List.flatMap_append, ← hbefore.rest]
    exact toList_data_toByteArray s.source
  have hlength : s.position = (before.flatMap utf8EncodeChar).length := by
    rw [h.position, hbefore.position, length_flatMap_utf8EncodeChar]
    exact Nat.zero_add _
  rw [ahead, hsource, hlength, List.drop_left]

theorem peek_nil (h : s.StandsAt c) (hc : c.rest = []) : s.peek 0 = none := by
  rw [peek_eq, h.ahead_eq, hc]
  rfl

variable {first : Char} {rest : List Char} {p : UInt8 → Bool} {q : Char → Bool}

/-- A scanner looks at the first byte of the next character. -/
theorem exists_peek (h : s.StandsAt c) (hc : c.rest = first :: rest) :
    ∃ byte more, s.peek 0 = some byte ∧ utf8EncodeChar first = byte :: more := by
  cases hbytes : utf8EncodeChar first with
  | nil => exact absurd hbytes String.utf8EncodeChar_ne_nil
  | cons byte more =>
    refine ⟨byte, more, ?_, rfl⟩
    rw [peek_eq, h.ahead_eq, hc, List.flatMap_cons, hbytes]
    rfl

/-- It sees whether the next character has a property of ASCII characters. -/
theorem any_peek (h : s.StandsAt c) (hpq : Agrees p q) : (s.peek 0).any p = c.rest.head?.any q := by
  cases hc : c.rest with
  | nil =>
    rw [h.peek_nil hc]
    rfl
  | cons first rest =>
    obtain ⟨byte, more, hpeek, hbytes⟩ := h.exists_peek hc
    obtain ⟨byte', more', hbytes', hbyte⟩ := hpq.exists_first first
    cases hbytes.symm.trans hbytes'
    rw [hpeek]
    exact hbyte

theorem skip (h : s.StandsAt c) (hc : c.rest = first :: rest) :
    (s.skip first.utf8Size).StandsAt ⟨c.position + first.utf8Size, rest⟩ := by
  have hone : c.Passes [first] ⟨c.position + first.utf8Size, rest⟩ := ⟨hc, rfl⟩
  have hmove := h.move hone
  rwa [h.eq]

/-- Both pass over the same stretch. -/
theorem skipWhile_eq (h : s.StandsAt c) (hpq : Agrees p q) :
    s.skipWhile p = ⟨s.source, (c.span q).2.position⟩ := by
  rw [Scanner.skipWhile_eq, h.ahead_eq, hpq.length_takeWhile]
  exact congrArg (Scanner.mk s.source) (congrArg (· + _) h.position)

theorem skipWhile (h : s.StandsAt c) (hpq : Agrees p q) :
    (s.skipWhile p).StandsAt (c.span q).2 := by
  rw [h.skipWhile_eq hpq]
  exact h.move (Cursor.passes_span q c)

/-- A line goes on over a whole character that does not end it. -/
theorem skipLine_of_ne (h : s.StandsAt c) (hc : c.rest = first :: rest) (hne : first ≠ '\n') :
    s.skipLine = (s.skip first.utf8Size).skipLine := by
  have hahead : s.ahead = utf8EncodeChar first ++ rest.flatMap utf8EncodeChar := by
    rw [h.ahead_eq, hc, List.flatMap_cons]
  rw [skipLine_append hahead, String.length_utf8EncodeChar]
  exact fun byte hmem =>
    (Agrees.eq_of_lt '\n' (by decide)).eq_false_of_mem (beq_eq_false_iff_ne.mpr hne) hmem

/-- A line ends behind its line end. -/
theorem skipLine_of_newline (h : s.StandsAt c) (hc : c.rest = '\n' :: rest) :
    s.skipLine = s.skip 1 := by
  obtain ⟨byte, more, hpeek, -⟩ := h.exists_peek hc
  have hnewline := h.any_peek (Agrees.eq_of_lt '\n' (by decide))
  simp only [hpeek, hc, Option.any_some, List.head?_cons, beq_self_eq_true] at hnewline
  rw [skipLine, hpeek]
  simp only [hnewline, if_true]

/-- Behind an ASCII character it sees whether the character there is a given one. -/
theorem peek_one_beq (h : s.StandsAt c) (hc : c.rest = first :: rest) (hfirst : first.utf8Size = 1)
    (k : Char) (hk : k.toNat < 128) :
    (s.peek 1 == some k.toUInt8) = (rest.head? == some k) := by
  have hbehind := (h.skip hc).any_peek (Agrees.eq_of_lt k hk)
  rw [hfirst] at hbehind
  have hbyte : (s.peek 1 == some k.toUInt8) = ((s.skip 1).peek 0).any (· == k.toUInt8) :=
    beq_some_eq_any ((s.skip 1).peek 0) _
  rw [hbyte, hbehind, beq_some_eq_any]

/-- Both pass over the same gap, or over the rest of one from the middle of a comment on. -/
theorem skipGap_eq_skipGapFrom (inComment : Bool) {position : Nat} {rest : List Char}
    (h : s.StandsAt ⟨position, rest⟩) :
    (if inComment then s.skipLine else s).skipGap =
      ⟨s.source, (Cursor.skipGapFrom inComment position rest).position⟩ := by
  -- on the characters; the scanner goes over the bytes of each of them in turn
  induction rest generalizing inComment position s with
  | nil =>
    have hpeek := h.peek_nil rfl
    have hline : (if inComment then s.skipLine else s) = s := by
      rw [skipLine, hpeek]
      exact ite_self s
    rw [hline, skipGap, hpeek]
    exact h.eq
  | cons first rest ih =>
    -- what the scanner sees of the next character, and where it stands behind it
    obtain ⟨byte, more, hpeek, -⟩ := h.exists_peek rfl
    have hblank := h.any_peek Agrees.isBlank
    have hslash := h.any_peek (Agrees.eq_of_lt '/' (by decide))
    simp only [hpeek, Option.any_some, List.head?_cons] at hblank hslash
    have hnext := h.skip rfl
    cases inComment with
    | true =>
      by_cases hfirst : first = '\n'
      · -- the comment ends here
        subst hfirst
        rw [if_pos rfl, h.skipLine_of_newline rfl]
        exact ih false hnext
      · -- a longer character has several bytes, none of which is a new line
        have hgoes : (first != '\n') = true := bne_iff_ne.mpr hfirst
        rw [if_pos rfl, h.skipLine_of_ne rfl hfirst, Cursor.skipGapFrom, if_pos rfl, hgoes]
        exact ih true hnext
    | false =>
      rw [if_neg Bool.false_ne_true, skipGap, hpeek, Cursor.skipGapFrom,
        if_neg Bool.false_ne_true, ← hblank]
      dsimp only
      split
      · next hbyte =>
        -- a blank is one byte, so the scanner stands behind it
        rw [Agrees.isBlank.utf8Size_eq_one (hblank ▸ hbyte)] at hnext ⊢
        exact ih false hnext
      · cases hfirst : first == '/' with
        | false =>
          rw [hfirst] at hslash
          rw [hslash]
          exact h.eq
        | true =>
          rw [hfirst] at hslash
          obtain rfl := eq_of_beq hfirst
          rw [hslash, h.peek_one_beq rfl (by decide) '/' (by decide), Bool.true_and]
          split
          · -- the comment goes on behind its first slash
            rw [h.skipLine_of_ne rfl (by decide)]
            exact ih true hnext
          · exact h.eq

theorem skipGap_eq (h : s.StandsAt c) : s.skipGap = ⟨s.source, c.skipGap.position⟩ :=
  skipGap_eq_skipGapFrom false h

end StandsAt

/-! ## Texts between two offsets -/

variable {s : Scanner} {c after : Cursor}

/-- There is a text between two offsets just where one can be cut out. -/
theorem slice?_eq_some_iff {start stop : Nat} {text : String} :
    s.slice? start stop = some text ↔ IsCut s.source start stop text := by
  unfold slice?
  constructor
  · intro h
    split at h
    · next hbounds =>
      obtain rfl := Option.some.inj h
      exact ⟨hbounds.1, hbounds.2.1, hbounds.2.2, rfl⟩
    · cases h
  · intro h
    rw [dif_pos ⟨h.start_le_stop, h.start_isBoundary, h.stop_isBoundary⟩]
    exact congrArg some (String.toByteArray_inj.mp h.bytes)

/-- What a cursor passes over is there as a text. -/
theorem StandsAt.slice?_eq (h : s.StandsAt c) {text : List Char} (hpasses : c.Passes text after) :
    s.slice? c.position after.position = some (String.ofList text) := by
  obtain ⟨before, hbefore⟩ := h.exists_passes
  exact slice?_eq_some_iff.mpr (hbefore.isCut hpasses)

/-- So is all that is left. -/
theorem StandsAt.slice?_rest (h : s.StandsAt c) :
    s.slice? c.position s.source.utf8ByteSize = some (String.ofList c.rest) := by
  obtain ⟨before, hbefore⟩ := h.exists_passes
  have hall : c.Passes c.rest ⟨c.position + Cursor.byteLength c.rest, []⟩ :=
    ⟨(List.append_nil _).symm, rfl⟩
  have hsource : s.source.toList = before ++ c.rest := hbefore.rest
  have hend : c.position + Cursor.byteLength c.rest = s.source.utf8ByteSize := by
    rw [hbefore.position, Cursor.ofSource, Nat.zero_add, ← Cursor.byteLength_append, ← hsource,
      Cursor.byteLength_eq_utf8ByteSize, String.ofList_toList]
  exact hend ▸ h.slice?_eq hall

/-! ## Tokens -/

/-- What a scanner of a source gives where a cursor gives a result. -/
def ofResult {α : Type} (source : String) :
    EStateM.Result ParseError Cursor α → EStateM.Result ScanError Scanner α
  | .ok a c => .ok a ⟨source, c.position⟩
  | .error e c => .error (.refused e) ⟨source, c.position⟩

theorem literalToken?_integer {whole : List Char} (h : IsDigits whole) :
    literalToken? false (String.ofList whole) = Cursor.numberToken? whole none := by
  have hread := Numeral.readInteger_append .none h
  rw [List.nil_append] at hread
  rw [literalToken?, String.toList_ofList, hread, if_neg Bool.false_ne_true, Cursor.numberToken?]

theorem literalToken?_real {whole fraction : List Char} (hwhole : IsDigits whole)
    (hfraction : IsDigits fraction) :
    literalToken? true (String.ofList (whole ++ '.' :: fraction)) =
      Cursor.numberToken? whole (some fraction) := by
  have hunsigned := Numeral.unsigned_of_isNumber (.real hwhole hfraction)
  have hread := Numeral.readReal_append .none hunsigned
  rw [List.nil_append, Numeral.readDecimal_real hwhole hfraction, Option.map_some,
    Option.some_or] at hread
  rw [literalToken?, String.toList_ofList, hread, if_pos rfl, Cursor.numberToken?]

variable {first : Char} {rest : List Char}

theorem nextWord_eq (h : s.StandsAt c) : nextWord s = ofResult s.source (Cursor.nextWord c) := by
  have hbehind := h.skipWhile_eq Agrees.isWordPart
  have hslice := h.slice?_eq (Cursor.passes_span Cursor.isWordPart c)
  simp only [nextWord, Cursor.nextWord, hbehind, h.position, hslice, ofResult]

/-- A scanner sees whether a fraction follows. -/
theorem StandsAt.isSome_fraction? (h : s.StandsAt c) :
    (s.peek 0 == some '.'.toUInt8 && (s.peek 1).any isDigit) = c.fraction?.isSome := by
  have hpoint := h.any_peek (Agrees.eq_of_lt '.' (by decide))
  rw [beq_some_eq_any, hpoint, Cursor.fraction?]
  cases hc : c.rest with
  | nil => rfl
  | cons first rest =>
    -- a point and a digit have one byte each, so the two bytes are the two characters
    by_cases hfirst : first = '.'
    · subst hfirst
      have hdigit : (s.peek 1).any isDigit = rest.head?.any Char.isDigit :=
        (h.skip hc).any_peek Agrees.isDigit
      rw [hdigit]
      cases rest with
      | nil => rfl
      | cons digit rest =>
        cases hdigit : digit.isDigit <;> simp [hdigit]
    · have hbeq : (first == '.') = false := beq_eq_false_iff_ne.mpr hfirst
      rw [List.head?_cons, Option.any_some, hbeq, Bool.false_and]
      split
      · next heq => exact absurd (List.cons.inj heq).1 hfirst
      · rfl

theorem StandsAt.skip_fraction? (h : s.StandsAt c) {digits : List Char}
    (hfraction : c.fraction? = some (digits, after)) :
    (s.skip 1).skipWhile isDigit = ⟨s.source, after.position⟩ := by
  unfold Cursor.fraction? at hfraction
  split at hfraction
  · next digit rest hc =>
    split at hfraction
    · obtain ⟨-, rfl⟩ := Prod.mk.inj (Option.some.inj hfraction)
      have hpoint : (s.skip 1).StandsAt (c.skip 1) := by
        have hskip := h.skip hc
        rwa [Cursor.skip, hc]
      exact hpoint.skipWhile_eq Agrees.isDigit
    · cases hfraction
  · cases hfraction

theorem nextNumber_eq (h : s.StandsAt c) (hc : c.rest = first :: rest)
    (hfirst : first.isDigit = true) :
    nextNumber s = ofResult s.source (Cursor.nextNumber c) := by
  have hdigits := Cursor.isDigits_span hc hfirst
  have hpasses := Cursor.passes_span Char.isDigit c
  have hwhole := h.skipWhile Agrees.isDigit
  simp only [nextNumber, Cursor.nextNumber, hwhole.isSome_fraction?, h.position]
  cases hfraction : (c.span Char.isDigit).2.fraction? with
  | none =>
    -- an integer, up to the end of its digits
    have hslice := h.slice?_eq hpasses
    rw [h.skipWhile_eq Agrees.isDigit, Option.isSome_none]
    simp only [Bool.false_eq_true, if_false, hslice]
    rw [literalToken?_integer hdigits, Option.map_none, Option.map_none, Option.map_none,
      Option.getD_none, Option.getD_none, List.append_nil]
    cases Cursor.numberToken? (c.span Char.isDigit).1 none <;> rfl
  | some fraction =>
    -- a real, up to the end of its fraction
    obtain ⟨digits, behind⟩ := fraction
    obtain ⟨hpoint, hmore⟩ := Cursor.passes_fraction? hfraction
    have hslice := h.slice?_eq (hpasses.trans hpoint)
    have hbehind := hwhole.skip_fraction? hfraction
    rw [h.skipWhile_eq Agrees.isDigit] at hbehind ⊢
    rw [Option.isSome_some]
    simp only [if_true, hbehind, hslice]
    rw [literalToken?_real hdigits hmore, Option.map_some, Option.map_some, Option.map_some,
      Option.getD_some, Option.getD_some]
    cases Cursor.numberToken? (c.span Char.isDigit).1 (some digits) <;> rfl

/-- The mark that a scanner finds is the one that the characters start with. -/
theorem StandsAt.mark?_eq (h : s.StandsAt c) (hc : c.rest = first :: rest) {byte : UInt8}
    (hpeek : s.peek 0 = some byte) : mark? byte (s.peek 1) = Mark.ofText? c.rest := by
  obtain ⟨byte', more, hpeek', hbytes⟩ := h.exists_peek hc
  obtain rfl : byte' = byte := Option.some.inj (hpeek'.symm.trans hpeek)
  rw [hc]
  rcases Nat.lt_or_ge first.toNat 128 with hlt | hle
  · -- below 128 the byte is the character
    obtain ⟨rfl, rfl⟩ := List.cons.inj (hbytes.symm.trans (utf8EncodeChar_of_lt hlt))
    have hsize : first.utf8Size = 1 := by
      rw [← String.length_utf8EncodeChar, hbytes]
      rfl
    rw [mark?_eq_ofText? (h.peek_one_beq hc hsize '=' (by decide)), ofUInt8_toUInt8 hlt]
  · -- neither a longer character nor its first byte starts a mark
    have hbyte : 128 ≤ byte'.toNat := by
      apply le_of_mem_utf8EncodeChar hle
      rw [hbytes]
      exact List.mem_cons_self
    rw [Mark.ofText?_eq_none hle, mark?_eq_none hbyte]

theorem nextMark_eq (h : s.StandsAt c) (hc : c.rest = first :: rest) {byte : UInt8}
    (hpeek : s.peek 0 = some byte) :
    nextMark byte s = ofResult s.source (Cursor.nextMark first c) := by
  unfold nextMark Cursor.nextMark
  rw [h.mark?_eq hc hpeek, h.position]
  cases hmark : Mark.ofText? c.rest with
  | some mark =>
    -- a mark has a byte for each of its characters
    have htake : c.rest.take mark.spelling.length = mark.spelling.toList :=
      List.prefix_iff_eq_take.mp (Mark.prefix_of_ofText? hmark) |>.symm
    have hwidth : c.position + mark.spelling.utf8ByteSize =
        (c.skip mark.spelling.length).position := by
      rw [Cursor.skip, htake, Cursor.byteLength_eq_utf8ByteSize, String.ofList_toList]
    have hbehind : s.skip mark.spelling.utf8ByteSize =
        ⟨s.source, (c.skip mark.spelling.length).position⟩ := by
      rw [skip, h.position, hwidth]
    dsimp only
    rw [hbehind]
    rfl
  | none =>
    -- the text that is cut out goes up to the end of the source
    rw [h.slice?_rest]
    dsimp only
    rw [String.toList_ofList, hc, h.eq]
    rfl

/-- A call on the bytes of a source gives what the call on its characters does, at the same
    place. -/
theorem next_eq (h : s.StandsAt c) : next s = ofResult s.source (Cursor.next c) := by
  obtain ⟨gap, hgap, -⟩ := c.exists_gap_skipGap
  have hplace := h.move hgap
  unfold next Cursor.next
  rw [h.skipGap_eq]
  dsimp only
  cases hc : c.skipGap.rest with
  | nil =>
    rw [hplace.peek_nil hc]
    rfl
  | cons first rest =>
    obtain ⟨byte, more, hpeek, -⟩ := hplace.exists_peek hc
    have hdigit := hplace.any_peek Agrees.isDigit
    have hword := hplace.any_peek Agrees.isWordStart
    simp only [hpeek, hc, Option.any_some, List.head?_cons] at hdigit hword
    rw [hpeek]
    dsimp only
    -- the first byte selects the branch that the first character selects
    rw [hdigit, hword]
    split
    · next hfirst => exact nextNumber_eq hplace hc hfirst
    · split
      · exact nextWord_eq hplace
      · exact nextMark_eq hplace hc hpeek

/-! ## All tokens -/

variable {s' : Scanner}

theorem remaining_of_none (h : next s = .ok none s') : remaining s = .ok [] s' := by
  rw [remaining]
  split <;> simp_all

theorem remaining_of_error {e : ScanError} (h : next s = .error e s') :
    remaining s = .error e s' := by
  rw [remaining]
  split <;> simp_all

/-- What follows a token decides how reading ends. -/
theorem remaining_of_token {s'' : Scanner} {lexeme : Lexeme} {lexemes : List Lexeme}
    {e? : Option ScanError} (h : next s = .ok (some lexeme) s')
    (hrest : remaining s' = e?.elim (.ok lexemes s'') fun e => .error e s'') :
    remaining s = e?.elim (.ok (lexeme :: lexemes) s'') fun e => .error e s'' := by
  rw [remaining]
  cases e? <;> split <;> simp_all

/-- The tokens from a place on, or the first error, do not depend on how the source is read. -/
theorem remaining_eq {lexemes : List Lexeme} {failure? : Option ParseError} (h : s.StandsAt c)
    (hyields : c.YieldsUpTo lexemes failure?) :
    ∃ s', remaining s =
      (failure?.map .refused).elim (.ok lexemes s') fun e => .error e s' := by
  -- on the tokens that the cursor yields, with a call of the scanner for each call of the cursor
  induction hyields generalizing s with
  | @done c after hnext =>
    have hcall : next s = .ok none ⟨s.source, after.position⟩ := by rw [next_eq h, hnext, ofResult]
    exact ⟨_, remaining_of_none hcall⟩
  | @failed c after e hnext =>
    have hcall : next s = .error (.refused e) ⟨s.source, after.position⟩ := by
      rw [next_eq h, hnext, ofResult]
    exact ⟨_, remaining_of_error hcall⟩
  | @more c after lexeme lexemes failure? hnext _ ih =>
    have hcall : next s = .ok (some lexeme) ⟨s.source, after.position⟩ := by
      rw [next_eq h, hnext, ofResult]
    obtain ⟨gap, text, hgap, -, hmatches⟩ := Cursor.exists_matches_of_next hnext
    obtain ⟨s', hremaining⟩ := ih (h.move (hgap.trans hmatches.passes))
    exact ⟨s', remaining_of_token hcall hremaining⟩

/-- A pass over the bytes of a source gives what the pass over its characters does. -/
theorem tokenize_eq (source : String) :
    tokenize source = (Formula.tokenize source).mapError .refused := by
  rw [tokenize]
  cases htokenize : Formula.tokenize source with
  | ok lexemes =>
    have hyields := Cursor.yieldsUpTo_none_iff.mpr (yields_of_tokenize htokenize)
    obtain ⟨s', hremaining⟩ := remaining_eq (.start source) hyields
    rw [hremaining]
    rfl
  | error e =>
    obtain ⟨lexemes, hyields⟩ := exists_yieldsUpTo_of_tokenize htokenize
    obtain ⟨s', hremaining⟩ := remaining_eq (.start source) hyields
    rw [hremaining]
    rfl

end Scanner

end Formula
