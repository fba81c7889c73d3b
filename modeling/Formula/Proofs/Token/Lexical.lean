import Formula.Proofs.Token.Scanning

/-!
# The lexical grammar

`Spells text token` says what the texts of a token are, and `IsGap` what may stand between two
tokens.  `IsLexeme` is the form of a token's text alone, whatever number it stands for.

Key results:
* `Cursor.next_of_spells` — the text of a token is read as that token
* `tokenize_of_spells` — and so is a source that consists of it
* `Spells.unique` — hence a text is that of one token only
-/

namespace Formula

open Cursor

/-! ## Texts of tokens -/

/-- One digit or more. -/
def IsDigits (text : List Char) : Prop :=
  text ≠ [] ∧ ∀ c ∈ text, c.isDigit = true

/-- A letter or an underscore, then letters, digits and underscores. -/
def IsWord (text : List Char) : Prop :=
  ∃ first more, text = first :: more ∧ (first.isAlpha = true ∨ first = '_') ∧
    ∀ c ∈ more, c.isAlphanum = true ∨ c = '_'

/-- Digits, or digits on both sides of a point.  The number may be too large to be a token. -/
inductive IsNumber : List Char → Prop
  | integer {digits} (h : IsDigits digits) : IsNumber digits
  | real {whole fraction} (hwhole : IsDigits whole) (hfraction : IsDigits fraction) :
      IsNumber (whole ++ '.' :: fraction)

/-- Whether a text has the form of a number, a word or a mark. -/
inductive IsLexeme : List Char → Prop
  | number {text} (h : IsNumber text) : IsLexeme text
  | word {text} (h : IsWord text) : IsLexeme text
  | mark (mark : Mark) : IsLexeme mark.spelling.toList

/-- Whether a text is one of the given token.  An integer has the value of its digits, a real the
    finite double nearest to them, and a variable has a name that is not reserved. -/
inductive Spells : List Char → Token → Prop
  | integer {digits} {i : Int64} (hdigits : IsDigits digits)
      (hvalue : i.toInt = Nat.ofDigitChars 10 digits 0) : Spells digits (.integer i)
  | real {whole fraction x} (hwhole : IsDigits whole) (hfraction : IsDigits fraction)
      (hvalue : (Decimal.ofDigits whole fraction).toFloat false = x) (hfinite : x.isFinite = true) :
      Spells (whole ++ '.' :: fraction) (.real x)
  | keyword (keyword : Keyword) : Spells keyword.spelling.toList (.keyword keyword)
  | identifier {text} (hword : IsWord text)
      (hfree : ∀ keyword : Keyword, text ≠ keyword.spelling.toList) :
      Spells text (.identifier (String.ofList text))
  | mark (mark : Mark) : Spells mark.spelling.toList (.mark mark)

/-- What may stand between tokens: blanks, and comments from two slashes to the end of their line.
    At the end of a source, a comment needs no line end. -/
inductive IsGap (atEnd : Bool) : List Char → Prop
  | nil : IsGap atEnd []
  | blank {c rest} (hc : c ∈ [' ', '\t', '\r', '\n']) (h : IsGap atEnd rest) :
      IsGap atEnd (c :: rest)
  | comment {body rest} (hbody : '\n' ∉ body) (h : IsGap atEnd rest) :
      IsGap atEnd ('/' :: '/' :: (body ++ '\n' :: rest))
  | openComment {body} (hend : atEnd = true) (hbody : '\n' ∉ body) :
      IsGap atEnd ('/' :: '/' :: body)

/-! ## Words -/

/-- A word is what starts as a word and goes on as one. -/
theorem isWord_iff {first : Char} {more : List Char} :
    IsWord (first :: more) ↔ isWordStart first = true ∧ ∀ c ∈ more, isWordPart c = true := by
  have hpart (c : Char) : isWordPart c = true ↔ c.isAlphanum = true ∨ c = '_' := by
    simp [isWordPart]
  have hstart : isWordStart first = true ↔ first.isAlpha = true ∨ first = '_' := by
    simp [isWordStart]
  simp only [hpart, hstart]
  constructor
  · rintro ⟨_, _, heq, hfirst, hmore⟩
    cases heq
    exact ⟨hfirst, hmore⟩
  · rintro ⟨hfirst, hmore⟩
    exact ⟨first, more, rfl, hfirst, hmore⟩

/-- All characters of a word go on with it. -/
theorem IsWord.isWordPart {text : List Char} (h : IsWord text) :
    ∀ c ∈ text, isWordPart c = true := by
  obtain ⟨first, more, rfl, -, -⟩ := id h
  obtain ⟨hfirst, hmore⟩ := isWord_iff.mp h
  rw [List.forall_mem_cons]
  exact ⟨isWordPart_of_isWordStart hfirst, hmore⟩

/-! ## Forms and first characters -/

theorem IsNumber.isDigit_head {text : List Char} {first : Char} (h : IsNumber text)
    (hfirst : text.head? = some first) : first.isDigit = true := by
  cases h with
  | integer h => exact h.2 first (List.mem_of_mem_head? hfirst)
  | @real whole _ hwhole _ =>
    cases whole with
    | nil => exact absurd rfl hwhole.1
    | cons digit _ =>
      obtain rfl : digit = first := by simpa using hfirst
      exact hwhole.2 digit List.mem_cons_self

theorem IsWord.isWordStart_head {text : List Char} {first : Char} (h : IsWord text)
    (hfirst : text.head? = some first) : isWordStart first = true := by
  obtain ⟨start, more, rfl, -, -⟩ := id h
  cases hfirst
  exact (isWord_iff.mp h).1

theorem Mark.head_spelling {mark : Mark} {first : Char}
    (hfirst : mark.spelling.toList.head? = some first) :
    first.isDigit = false ∧ isWordStart first = false := by
  cases mark <;> cases hfirst <;> decide

namespace IsLexeme

variable {text : List Char} {first : Char}

theorem ne_nil (h : IsLexeme text) : text ≠ [] := by
  cases h with
  | number h =>
    cases h with
    | integer h => exact h.1
    | real _ _ => simp
  | word h =>
    obtain ⟨first, more, rfl, -, -⟩ := h
    exact List.cons_ne_nil first more
  | mark mark => cases mark <;> exact List.cons_ne_nil _ _

theorem head?_eq {rest : List Char} (h : IsLexeme text) (hinitial : text <+: first :: rest) :
    text.head? = some first := by
  obtain ⟨c, more, rfl⟩ := List.exists_cons_of_ne_nil h.ne_nil
  rw [(List.cons_prefix_cons.mp hinitial).1, List.head?_cons]

/-- A lexeme that starts with a digit is a number. -/
theorem isNumber (h : IsLexeme text) (hfirst : text.head? = some first)
    (hdigit : first.isDigit = true) : IsNumber text := by
  cases h with
  | number h => exact h
  | word h =>
    have hstart := isDigit_of_isWordStart (h.isWordStart_head hfirst)
    exact absurd hdigit (by simp [hstart.1])
  | mark mark => exact absurd hdigit (by simp [Mark.head_spelling hfirst])

/-- A lexeme that starts as a word is one. -/
theorem isWord (h : IsLexeme text) (hfirst : text.head? = some first)
    (hstart : isWordStart first = true) : IsWord text := by
  cases h with
  | number h =>
    have hdigit := h.isDigit_head hfirst
    exact absurd hdigit (by simp [isDigit_of_isWordStart hstart])
  | word h => exact h
  | mark mark => exact absurd hstart (by simp [Mark.head_spelling hfirst])

/-- A lexeme that starts in another way is a mark. -/
theorem exists_mark (h : IsLexeme text) (hfirst : text.head? = some first)
    (hdigit : first.isDigit = false) (hstart : isWordStart first = false) :
    ∃ mark : Mark, text = mark.spelling.toList := by
  cases h with
  | number h => exact absurd (h.isDigit_head hfirst) (by simp [hdigit])
  | word h => exact absurd (h.isWordStart_head hfirst) (by simp [hstart])
  | mark mark => exact ⟨mark, rfl⟩

end IsLexeme

/-! ## Reserved words -/

theorem Keyword.ofWord?_eq_some_iff {word : String} {keyword : Keyword} :
    ofWord? word = some keyword ↔ word = keyword.spelling := by
  constructor
  · intro h
    have hspelling := List.find?_some h
    exact (eq_of_beq hspelling).symm
  · rintro rfl
    cases keyword <;> rfl

theorem Keyword.isWord_spelling (keyword : Keyword) : IsWord keyword.spelling.toList := by
  cases keyword <;> simp [IsWord, Keyword.spelling]

/-- The token that the lexer makes of a reserved word. -/
theorem Keyword.wordToken_spelling (keyword : Keyword) :
    wordToken keyword.spelling = .keyword keyword := by
  rw [wordToken, Keyword.ofWord?_eq_some_iff.mpr rfl]

theorem Keyword.ofWord?_eq_none {text : List Char}
    (hfree : ∀ keyword : Keyword, text ≠ keyword.spelling.toList) :
    ofWord? (String.ofList text) = none := by
  rw [Option.eq_none_iff_forall_ne_some]
  intro keyword hkeyword
  have hword := ofWord?_eq_some_iff.mp hkeyword
  exact hfree keyword (by rw [← hword, String.toList_ofList])

/-- The token that the lexer makes of any other word. -/
theorem wordToken_of_free {text : List Char}
    (hfree : ∀ keyword : Keyword, text ≠ keyword.spelling.toList) :
    wordToken (String.ofList text) = .identifier (String.ofList text) := by
  rw [wordToken, Keyword.ofWord?_eq_none hfree]

/-- A word is the text of the token that the lexer makes of it. -/
theorem spells_wordToken {text : List Char} (h : IsWord text) :
    Spells text (wordToken (String.ofList text)) := by
  by_cases hfree : ∀ keyword : Keyword, text ≠ keyword.spelling.toList
  · rw [wordToken_of_free hfree]
    exact .identifier h hfree
  · obtain ⟨keyword, htext⟩ := not_forall_not.mp hfree
    rw [htext, String.ofList_toList, keyword.wordToken_spelling]
    exact .keyword keyword

/-! ## Texts of numbers and marks -/

/-- The integer that the lexer makes of digits is theirs. -/
theorem spells_of_numberToken?_integer {digits : List Char} {token : Token}
    (hdigits : IsDigits digits) (h : numberToken? digits none = some token) :
    Spells digits token := by
  obtain ⟨i, hvalue, rfl⟩ := Option.map_eq_some_iff.mp h
  refine .integer hdigits ?_
  rw [toInt_of_int64? hvalue, if_neg Bool.false_ne_true, Numeral.ofDigits_eq]

/-- The real that the lexer makes of digits on both sides of a point is theirs. -/
theorem spells_of_numberToken?_real {whole fraction : List Char} {token : Token}
    (hwhole : IsDigits whole) (hfraction : IsDigits fraction)
    (h : numberToken? whole (some fraction) = some token) :
    Spells (whole ++ '.' :: fraction) token := by
  simp only [numberToken?] at h
  split at h
  · next hfinite =>
    cases h
    exact .real hwhole hfraction rfl hfinite
  · cases h

namespace Mark

/-- The mark found in a text stands at its start. -/
theorem prefix_of_ofText? {text : List Char} {mark : Mark} (h : ofText? text = some mark) :
    mark.spelling.toList <+: text := by
  unfold ofText? at h
  split at h <;> cases h <;> exact ⟨_, rfl⟩

/-- In a text that starts with a mark, one is found that is at least as long. -/
theorem exists_ofText?_spelling_append (mark : Mark) (rest : List Char) :
    ∃ found, ofText? (mark.spelling.toList ++ rest) = some found ∧
      mark.spelling.toList <+: found.spelling.toList := by
  -- only these two are the start of a longer mark
  cases mark with
  | less | greater =>
    cases rest with
    | nil => exact ⟨_, rfl, List.prefix_rfl⟩
    | cons c rest =>
      -- with an equals sign behind it, it is the start of a longer one
      by_cases hc : c = '='
      · subst hc
        exact ⟨_, rfl, ['='], rfl⟩
      · refine ⟨_, ?_, List.prefix_rfl⟩
        simp [spelling, ofText?, hc]
  | _ => exact ⟨_, rfl, List.prefix_rfl⟩

end Mark

/-- The text of a token has the form of one. -/
theorem Spells.isLexeme {text : List Char} {token : Token} (h : Spells text token) :
    IsLexeme text := by
  cases h with
  | integer hdigits _ => exact .number (.integer hdigits)
  | real hwhole hfraction _ _ => exact .number (.real hwhole hfraction)
  | keyword keyword => exact .word keyword.isWord_spelling
  | identifier hword _ => exact .word hword
  | mark mark => exact .mark mark

/-! ## Reading the text of a token -/

theorem next_of_isWord {text rest : List Char} (position : Nat) (h : IsWord text)
    (hrest : Delimited rest) :
    next ⟨position, text ++ rest⟩ =
      .ok (some ⟨wordToken (String.ofList text), position, position + byteLength text⟩)
        ⟨position + byteLength text, rest⟩ := by
  obtain ⟨first, more, rfl, -, -⟩ := id h
  obtain ⟨hfirst, hmore⟩ := isWord_iff.mp h
  exact next_word position hfirst hmore hrest

/-- What follows is neither the second character of a longer mark nor that of a comment. -/
theorem next_mark {rest : List Char} (position : Nat) (mark : Mark) (hrest : Delimited rest) :
    let text := mark.spelling.toList
    next ⟨position, text ++ rest⟩ =
      .ok (some ⟨.mark mark, position, position + byteLength text⟩)
        ⟨position + byteLength text, rest⟩ := by
  cases rest with
  | nil => cases mark <;> rfl
  | cons c rest => obtain rfl | rfl := hrest c rfl <;> cases mark <;> rfl

/-- The text of a token is read as that token where nothing goes on with it. -/
theorem Cursor.next_of_spells {text rest : List Char} {token : Token} (position : Nat)
    (h : Spells text token) (hrest : Delimited rest) :
    next ⟨position, text ++ rest⟩ =
      .ok (some ⟨token, position, position + byteLength text⟩)
        ⟨position + byteLength text, rest⟩ := by
  -- one lemma for each kind of token
  cases h with
  | integer hdigits hvalue =>
    refine next_integer position hdigits.1 hdigits.2 ?_ hrest
    rw [Numeral.signedInteger?, if_neg Bool.false_ne_true, Numeral.ofDigits_eq, ← hvalue,
      int64?_toInt]
  | real hwhole hfraction hvalue hfinite =>
    have hnext := next_real position hwhole.1 hfraction.1 hwhole.2 hfraction.2 hvalue hfinite hrest
    simpa only [List.append_assoc, List.cons_append, byteLength_append, byteLength,
      Nat.add_assoc, Nat.add_zero] using hnext
  | keyword keyword =>
    have hnext := next_of_isWord position keyword.isWord_spelling hrest
    rwa [String.ofList_toList, keyword.wordToken_spelling] at hnext
  | identifier hword hfree =>
    rw [← wordToken_of_free hfree]
    exact next_of_isWord position hword hrest
  | mark mark => exact next_mark position mark hrest

/-- A source that is the text of a token has that one token. -/
theorem tokenize_of_spells {text : List Char} {token : Token} (h : Spells text token) :
    tokenize (String.ofList text) = .ok [⟨token, 0, byteLength text⟩] := by
  have hnext := Cursor.next_of_spells 0 h delimited_nil
  rw [List.append_nil, Nat.zero_add] at hnext
  apply tokenize_of_yields
  rw [ofSource, String.toList_ofList]
  exact .more hnext (.done rfl)

/-- A text is that of one token only. -/
theorem Spells.unique {text : List Char} {a b : Token} (ha : Spells text a) (hb : Spells text b) :
    a = b := by
  have heq := (tokenize_of_spells ha).symm.trans (tokenize_of_spells hb)
  simpa using heq

/-- A text is that of a reserved word exactly if it is spelled like it. -/
theorem Spells.eq_keyword_iff {text : List Char} {token : Token} (h : Spells text token)
    (keyword : Keyword) : token = .keyword keyword ↔ text = keyword.spelling.toList := by
  constructor
  · rintro rfl
    cases h
    rfl
  · rintro rfl
    exact h.unique (.keyword keyword)

end Formula
