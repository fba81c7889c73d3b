import Formula.Parser.Level
import Formula.Proofs.Number.ReadBack
import Formula.Proofs.Token.Stream

/-!
# Scanning written tokens

`Leads text tokens rest` says that reading a text leads over the given tokens to the rest of it,
wherever the text stands.  Each lemma puts one written token before a text that is read.  A word or
a number ends where a blank or a parenthesis follows it; nothing else can then be part of it.

What becomes of a text is then up to its rest: it has those tokens and the ones of the rest
(`Leads.scans`), and it is unreadable if the rest is (`Leads.unreadable`).
-/

namespace Formula

/-- Whether no word and no number goes on with a text. -/
def Delimited (text : List Char) : Prop :=
  ∀ c, text.head? = some c → c = ' ' ∨ c = ')'

theorem delimited_nil : Delimited [] := nofun

theorem delimited_blank (rest : List Char) : Delimited (' ' :: rest) := by
  intro c hc
  cases hc
  exact .inl rfl

theorem delimited_rightParen (rest : List Char) : Delimited (')' :: rest) := by
  intro c hc
  cases hc
  exact .inr rfl

namespace Cursor

/-! ## Stretches -/

/-- A stretch ends before the first character without its property. -/
theorem stretch_append {p : Char → Bool} {taken rest : List Char} (htaken : ∀ c ∈ taken, p c = true)
    (hrest : ∀ c, rest.head? = some c → p c = false) :
    (taken ++ rest).takeWhile p = taken ∧ (taken ++ rest).dropWhile p = rest := by
  have hstop : rest.takeWhile p = [] ∧ rest.dropWhile p = rest := by
    cases rest with
    | nil => exact ⟨rfl, rfl⟩
    | cons c rest =>
      have hc := hrest c rfl
      simp [hc]
  rw [List.takeWhile_append_of_pos htaken, List.dropWhile_append_of_pos htaken, hstop.1, hstop.2,
    List.append_nil]
  exact ⟨rfl, rfl⟩

theorem span_append_eq {p : Char → Bool} {taken rest : List Char} (position : Nat)
    (htaken : ∀ c ∈ taken, p c = true) (hrest : ∀ c, rest.head? = some c → p c = false) :
    span p ⟨position, taken ++ rest⟩ = (taken, ⟨position + byteLength taken, rest⟩) := by
  obtain ⟨htake, hdrop⟩ := stretch_append htaken hrest
  simp only [span, htake, hdrop]

/-- There is no gap before a character that is neither blank nor a slash. -/
theorem skipGap_cons {c : Char} (hblank : isBlank c = false) (hslash : c ≠ '/') (position : Nat)
    (rest : List Char) : skipGap ⟨position, c :: rest⟩ = ⟨position, c :: rest⟩ := by
  simp [skipGap, skipGapFrom, hblank, hslash]

/-- Digits are not blank, and no slashes. -/
theorem isBlank_of_isDigit {c : Char} (h : c.isDigit = true) : isBlank c = false ∧ c ≠ '/' := by
  constructor
  · simp only [isBlank, Bool.or_eq_false_iff, beq_eq_false_iff_ne]
    refine ⟨⟨⟨?_, ?_⟩, ?_⟩, ?_⟩ <;> rintro rfl <;> exact absurd h (by decide)
  · rintro rfl
    exact absurd h (by decide)

/-- What starts a word is no digit, not blank, and no slash. -/
theorem isDigit_of_isWordStart {c : Char} (h : isWordStart c = true) :
    c.isDigit = false ∧ isBlank c = false ∧ c ≠ '/' := by
  refine ⟨?_, ?_, ?_⟩
  · rcases Bool.or_eq_true_iff.mp h with halpha | hunderscore
    · simp only [Char.isAlpha, Char.isUpper, Char.isLower, Char.isDigit] at halpha ⊢
      grind
    · rw [eq_of_beq hunderscore]
      rfl
  · simp only [isBlank, Bool.or_eq_false_iff, beq_eq_false_iff_ne]
    refine ⟨⟨⟨?_, ?_⟩, ?_⟩, ?_⟩ <;> rintro rfl <;> exact absurd h (by decide)
  · rintro rfl
    exact absurd h (by decide)

/-- Neither blanks nor parentheses go on with a stretch of letters or digits. -/
theorem span_delimited {p : Char → Bool} {taken rest : List Char} (position : Nat)
    (htaken : ∀ c ∈ taken, p c = true) (hp : p ' ' = false ∧ p ')' = false)
    (hrest : Delimited rest) :
    span p ⟨position, taken ++ rest⟩ = (taken, ⟨position + byteLength taken, rest⟩) := by
  apply span_append_eq position htaken
  intro c hc
  obtain rfl | rfl := hrest c hc
  · exact hp.1
  · exact hp.2

/-! ## Reading off one token -/

variable {rest : List Char}

theorem next_word {first : Char} {more : List Char} (position : Nat)
    (hfirst : isWordStart first = true) (hmore : ∀ c ∈ more, isWordPart c = true)
    (hrest : Delimited rest) :
    next ⟨position, first :: more ++ rest⟩ =
      .ok (some ⟨wordToken (String.ofList (first :: more)), position,
        position + byteLength (first :: more)⟩) ⟨position + byteLength (first :: more), rest⟩ := by
  obtain ⟨hdigit, hblank, hslash⟩ := isDigit_of_isWordStart hfirst
  have hword : ∀ c ∈ first :: more, isWordPart c = true := by
    rw [List.forall_mem_cons]
    exact ⟨isWordPart_of_isWordStart hfirst, hmore⟩
  have hspan := span_delimited position hword (by decide) hrest
  rw [List.cons_append] at hspan ⊢
  simp only [next, skipGap_cons hblank hslash, hdigit, hfirst, nextWord, hspan, if_true]
  rfl

/-- A number starts with a digit, and everything else is left to `nextNumber`. -/
theorem next_eq_nextNumber {digits : List Char} (position : Nat) (hne : digits ≠ [])
    (hdigits : ∀ c ∈ digits, c.isDigit = true) :
    next ⟨position, digits ++ rest⟩ = nextNumber ⟨position, digits ++ rest⟩ := by
  cases digits with
  | nil => exact absurd rfl hne
  | cons first more =>
    have hfirst : first.isDigit = true := hdigits first List.mem_cons_self
    obtain ⟨hblank, hslash⟩ := isBlank_of_isDigit hfirst
    simp only [next, List.cons_append, skipGap_cons hblank hslash, hfirst, if_true]

/-- What is delimited is no fraction. -/
theorem fraction?_of_delimited (position : Nat) (hrest : Delimited rest) :
    fraction? ⟨position, rest⟩ = none := by
  cases rest with
  | nil => rfl
  | cons c rest => obtain rfl | rfl := hrest c rfl <;> rfl

theorem next_integer {digits : List Char} {i : Int64} (position : Nat) (hne : digits ≠ [])
    (hdigits : ∀ c ∈ digits, c.isDigit = true)
    (hvalue : Numeral.signedInteger? false digits = some i) (hrest : Delimited rest) :
    next ⟨position, digits ++ rest⟩ =
      .ok (some ⟨.integer i, position, position + byteLength digits⟩)
        ⟨position + byteLength digits, rest⟩ := by
  have hspan := span_delimited position hdigits (by decide) hrest
  rw [next_eq_nextNumber position hne hdigits]
  simp only [nextNumber, hspan, fraction?_of_delimited _ hrest, Option.map_none, numberToken?,
    hvalue, Option.map_some]
  rfl

/-- Digits whose number does not have 64 bits are refused. -/
theorem next_tooLarge {digits : List Char} (position : Nat) (hne : digits ≠ [])
    (hdigits : ∀ c ∈ digits, c.isDigit = true)
    (hvalue : Numeral.signedInteger? false digits = none) (hrest : Delimited rest) :
    ∃ e after, next ⟨position, digits ++ rest⟩ = .error e after := by
  have hspan := span_delimited position hdigits (by decide) hrest
  rw [next_eq_nextNumber position hne hdigits]
  simp only [nextNumber, hspan, fraction?_of_delimited _ hrest, Option.map_none, numberToken?,
    hvalue]
  exact ⟨_, _, rfl⟩

theorem next_real {whole fraction : List Char} {x : Float} (position : Nat) (hwhole : whole ≠ [])
    (hfraction : fraction ≠ []) (hwholeDigits : ∀ c ∈ whole, c.isDigit = true)
    (hfractionDigits : ∀ c ∈ fraction, c.isDigit = true)
    (hvalue : (Decimal.ofDigits whole fraction).toFloat false = x) (hfinite : x.isFinite = true)
    (hrest : Delimited rest) :
    let behind := position + byteLength whole + byteLength ['.'] + byteLength fraction
    next ⟨position, whole ++ '.' :: (fraction ++ rest)⟩ =
      .ok (some ⟨.real x, position, behind⟩) ⟨behind, rest⟩ := by
  intro behind
  have hpoint : ∀ c, ('.' :: (fraction ++ rest)).head? = some c → c.isDigit = false := by
    intro c hc
    cases hc
    rfl
  -- the digits before the point end at it, those behind it at the delimiter
  have hspan := span_append_eq position hwholeDigits hpoint
  have hspan' := span_delimited (position + byteLength whole + byteLength ['.']) hfractionDigits
    (by decide) hrest
  -- a digit behind the point, so it is a real
  have hfraction? : fraction? ⟨position + byteLength whole, '.' :: (fraction ++ rest)⟩ =
      some (fraction, ⟨behind, rest⟩) := by
    cases fraction with
    | nil => exact absurd rfl hfraction
    | cons digit more =>
      have hdigit : digit.isDigit = true := hfractionDigits digit List.mem_cons_self
      simp only [fraction?, List.cons_append, hdigit, if_true]
      exact congrArg some hspan'
  rw [next_eq_nextNumber position hwhole hwholeDigits]
  simp only [nextNumber, hspan, hfraction?, Option.map_some, numberToken?, hvalue, hfinite]
  rfl

end Cursor

/-! ## Scanned texts -/

/-- Whether the first token of a text is the given one and stands before `rest`, at any place of a
    source. -/
def Takes (text : List Char) (token : Token) (rest : List Char) : Prop :=
  ∀ position, ∃ lexeme after,
    Cursor.next ⟨position, text⟩ = .ok (some lexeme) ⟨after, rest⟩ ∧ lexeme.token = token

/-- Reading a text leads over the given tokens to the rest of it. -/
inductive Leads : List Char → List Token → List Char → Prop
  | stay {rest} : Leads rest [] rest
  | blank {text tokens rest} (h : Leads text tokens rest) : Leads (' ' :: text) tokens rest
  | cons {text token behind tokens rest} (h : Leads behind tokens rest)
      (htoken : Takes text token behind) : Leads text (token :: tokens) rest

/-- The tokens that a text has, at any place of a source. -/
def Scans (text : List Char) (tokens : List Token) : Prop :=
  ∀ position, ∃ lexemes, (⟨position, text⟩ : Cursor).Yields lexemes ∧
    lexemes.map Lexeme.token = tokens

/-- Whether a text stops being tokens, at any place of a source. -/
def Unreadable (text : List Char) : Prop :=
  ∀ position, ∃ lexemes e, (⟨position, text⟩ : Cursor).YieldsUpTo lexemes (some e)

theorem Cursor.next_blank (position : Nat) (rest : List Char) :
    next ⟨position, ' ' :: rest⟩ = next ⟨position + ' '.utf8Size, rest⟩ := by
  have hskip : skipGap ⟨position, ' ' :: rest⟩ = skipGap ⟨position + ' '.utf8Size, rest⟩ := rfl
  simp only [next, hskip]

namespace Leads

variable {text behind rest : List Char} {tokens following : List Token}

theorem trans (h : Leads text tokens behind) (h' : Leads behind following rest) :
    Leads text (tokens ++ following) rest := by
  induction h with
  | stay => exact h'
  | blank _ ih => exact (ih h').blank
  | cons _ htoken ih => exact (ih h').cons htoken

/-- The tokens of a text are those that lead to its rest and those of the rest. -/
theorem scans (h : Leads text tokens rest) (h' : Scans rest following) :
    Scans text (tokens ++ following) := by
  -- on what leads to the rest: blanks, which give nothing, and tokens
  induction h with
  | stay => exact h'
  | blank _ ih =>
    intro position
    obtain ⟨lexemes, hyields, htokens⟩ := ih h' (position + ' '.utf8Size)
    refine ⟨lexemes, ?_, htokens⟩
    have hnext := Cursor.next_blank position
    cases hyields with
    | done h => exact .done ((hnext _).trans h)
    | more h hrest => exact .more ((hnext _).trans h) hrest
  | cons _ htoken ih =>
    intro position
    obtain ⟨lexeme, after, hlexeme, rfl⟩ := htoken position
    obtain ⟨lexemes, hyields, htokens⟩ := ih h' after
    exact ⟨lexeme :: lexemes, .more hlexeme hyields, by rw [List.map_cons, htokens]; rfl⟩

/-- A text that leads to something unreadable is unreadable. -/
theorem unreadable (h : Leads text tokens rest) (h' : Unreadable rest) : Unreadable text := by
  -- what cannot be read stays unreadable behind blanks and tokens
  induction h with
  | stay => exact h'
  | blank _ ih =>
    intro position
    obtain ⟨lexemes, e, hyields⟩ := ih h' (position + ' '.utf8Size)
    refine ⟨lexemes, e, ?_⟩
    have hnext := Cursor.next_blank position
    cases hyields with
    | failed h => exact .failed ((hnext _).trans h)
    | more h hrest => exact .more ((hnext _).trans h) hrest
  | cons _ htoken ih =>
    intro position
    obtain ⟨lexeme, after, hlexeme, -⟩ := htoken position
    obtain ⟨lexemes, e, hyields⟩ := ih h' after
    exact ⟨lexeme :: lexemes, e, .more hlexeme hyields⟩

/-! ## Marks, words and numbers -/

theorem leftParen (h : Leads behind tokens rest) :
    Leads ('(' :: behind) (.mark .leftParen :: tokens) rest :=
  h.cons fun _ => ⟨_, _, rfl, rfl⟩

theorem rightParen (h : Leads behind tokens rest) :
    Leads (')' :: behind) (.mark .rightParen :: tokens) rest :=
  h.cons fun _ => ⟨_, _, rfl, rfl⟩

theorem minus (h : Leads behind tokens rest) :
    Leads ('-' :: behind) (.mark .minus :: tokens) rest :=
  h.cons fun _ => ⟨_, _, rfl, rfl⟩

/-- A word in front of a text that does not go on with it. -/
theorem word {first : Char} {more : List Char} (hfirst : Cursor.isWordStart first = true)
    (hmore : ∀ c ∈ more, Cursor.isWordPart c = true) (hbehind : Delimited behind)
    (h : Leads behind tokens rest) :
    Leads (first :: more ++ behind) (Cursor.wordToken (String.ofList (first :: more)) :: tokens)
      rest :=
  h.cons fun position => ⟨_, _, Cursor.next_word position hfirst hmore hbehind, rfl⟩

/-- The digits of an integer in front of a text that does not go on with them. -/
theorem integer {digits : List Char} {i : Int64} (hne : digits ≠ [])
    (hdigits : ∀ c ∈ digits, c.isDigit = true)
    (hvalue : Numeral.signedInteger? false digits = some i) (hbehind : Delimited behind)
    (h : Leads behind tokens rest) : Leads (digits ++ behind) (.integer i :: tokens) rest :=
  h.cons fun position => ⟨_, _, Cursor.next_integer position hne hdigits hvalue hbehind, rfl⟩

/-- The digits of a real in front of a text that does not go on with them. -/
theorem real {whole fraction : List Char} {x : Float} (hwhole : whole ≠ [])
    (hfraction : fraction ≠ []) (hwholeDigits : ∀ c ∈ whole, c.isDigit = true)
    (hfractionDigits : ∀ c ∈ fraction, c.isDigit = true)
    (hvalue : (Decimal.ofDigits whole fraction).toFloat false = x) (hfinite : x.isFinite = true)
    (hbehind : Delimited behind) (h : Leads behind tokens rest) :
    Leads (whole ++ '.' :: (fraction ++ behind)) (.real x :: tokens) rest :=
  h.cons fun position => ⟨_, _, Cursor.next_real position hwhole hfraction hwholeDigits
    hfractionDigits hvalue hfinite hbehind, rfl⟩

end Leads

/-- Digits whose number does not have 64 bits are unreadable. -/
theorem unreadable_digits {digits rest : List Char} (hne : digits ≠ [])
    (hdigits : ∀ c ∈ digits, c.isDigit = true)
    (hvalue : Numeral.signedInteger? false digits = none) (hrest : Delimited rest) :
    Unreadable (digits ++ rest) := by
  intro position
  obtain ⟨e, after, hnext⟩ := Cursor.next_tooLarge position hne hdigits hvalue hrest
  exact ⟨[], e, .failed hnext⟩

theorem Scans.nil : Scans [] [] :=
  fun _ => ⟨[], .done rfl, rfl⟩

end Formula
