import Formula.Token.Lexer
import Formula.Proofs.Steps

/-!
# The tokens of a source text

`Cursor.Yields` is the sequence of all tokens from a cursor to the end of the source.  Every token
takes at least one character, so `tokenize` reads that whole sequence and not only a part of it.

Where some characters are no token there is no such sequence.  `Cursor.YieldsUpTo` is the run of
tokens that there is from any cursor, up to the end of the source or up to the first error.
-/

namespace Formula

namespace Mark

theorem length_spelling_pos (mark : Mark) : 0 < mark.spelling.length := by
  cases mark <;> decide

end Mark

/-- Whether an error is about characters that are no token. -/
def ParseError.IsLexical : ParseError → Prop
  | .unexpectedCharacter .. | .invalidNumber .. => True
  | _ => False

namespace Cursor

/-! ## Progress -/

theorem isWordPart_of_isWordStart {c : Char} (h : isWordStart c = true) : isWordPart c = true := by
  simp only [isWordStart, isWordPart, Char.isAlphanum, Bool.or_eq_true] at h ⊢
  exact h.imp_left .inl

theorem length_skipGapFrom_le (inComment : Bool) (position : Nat) (rest : List Char) :
    (skipGapFrom inComment position rest).rest.length ≤ rest.length := by
  induction rest generalizing inComment position with
  | nil => exact Nat.le_refl _
  | cons c rest ih =>
    simp only [skipGapFrom, List.length_cons]
    split
    · exact Nat.le_succ_of_le (ih _ _)
    · split
      · exact Nat.le_succ_of_le (ih _ _)
      · split
        · exact Nat.le_succ_of_le (ih _ _)
        · exact Nat.le_refl _

theorem length_skipGap_le (c : Cursor) : c.skipGap.rest.length ≤ c.rest.length :=
  length_skipGapFrom_le false c.position c.rest

/-- A stretch that starts with the next character is not empty. -/
theorem length_span_lt {p : Char → Bool} {c : Cursor} {first : Char} {rest : List Char}
    (hc : c.rest = first :: rest) (hp : p first = true) :
    (c.span p).2.rest.length < c.rest.length := by
  have hle : (rest.dropWhile p).length ≤ rest.length := (List.dropWhile_sublist p).length_le
  simp only [span, hc, List.dropWhile_cons, hp, if_true, List.length_cons]
  omega

theorem length_fraction?_le {c behind : Cursor} {digits : List Char}
    (h : c.fraction? = some (digits, behind)) : behind.rest.length ≤ c.rest.length := by
  unfold fraction? at h
  split at h
  · next hrest =>
    split at h
    · -- the point and the digits behind it
      obtain ⟨-, rfl⟩ := Option.some.inj h
      have hle := (List.dropWhile_sublist Char.isDigit (l := (c.skip 1).rest)).length_le
      have hskip : (c.skip 1).rest.length ≤ c.rest.length := by simp [skip]
      exact Nat.le_trans hle hskip
    · exact nomatch h
  · exact nomatch h

theorem length_nextNumber_lt {c after : Cursor} {lexeme : Lexeme} {first : Char}
    {rest : List Char} (hc : c.rest = first :: rest) (hfirst : first.isDigit = true)
    (h : nextNumber c = .ok (some lexeme) after) : after.rest.length < c.rest.length := by
  have hlt := length_span_lt hc hfirst
  simp only [nextNumber] at h
  split at h
  · cases h
    cases hfraction : (c.span Char.isDigit).2.fraction? with
    | none => exact hlt
    | some fraction => exact Nat.lt_of_le_of_lt (length_fraction?_le hfraction) hlt
  · exact nomatch h

theorem length_nextWord_lt {c after : Cursor} {lexeme : Lexeme} {first : Char} {rest : List Char}
    (hc : c.rest = first :: rest) (hfirst : isWordStart first = true)
    (h : nextWord c = .ok (some lexeme) after) : after.rest.length < c.rest.length := by
  cases h
  exact length_span_lt hc (isWordPart_of_isWordStart hfirst)

theorem length_nextMark_lt {c after : Cursor} {lexeme : Lexeme} {first : Char} {rest : List Char}
    (hc : c.rest = first :: rest) (h : nextMark first c = .ok (some lexeme) after) :
    after.rest.length < c.rest.length := by
  unfold nextMark at h
  split at h
  · next mark _ =>
    cases h
    have hpos := mark.length_spelling_pos
    simp only [skip, hc, List.length_drop, List.length_cons]
    omega
  · exact nomatch h

/-- A token takes at least one character behind the gap. -/
theorem length_next_lt_skipGap {c after : Cursor} {lexeme : Lexeme}
    (h : next c = .ok (some lexeme) after) : after.rest.length < c.skipGap.rest.length := by
  simp only [next] at h
  split at h
  · exact nomatch h
  · next hrest =>
    split at h
    · next hdigit => exact length_nextNumber_lt hrest hdigit h
    · split at h
      · next hword => exact length_nextWord_lt hrest hword h
      · exact length_nextMark_lt hrest h

/-- At the end of the source nothing is left behind the gap. -/
theorem skipGap_of_next_none {c after : Cursor} (h : next c = .ok none after) :
    after = c.skipGap ∧ after.rest = [] := by
  simp only [next] at h
  split at h
  · next hrest =>
    cases h
    exact ⟨rfl, hrest⟩
  · split at h
    · simp only [nextNumber] at h
      split at h <;> exact nomatch h
    · split at h
      · exact nomatch h
      · unfold nextMark at h
        split at h <;> exact nomatch h

theorem length_next_lt {c after : Cursor} {lexeme : Lexeme}
    (h : next c = .ok (some lexeme) after) : after.rest.length < c.rest.length :=
  Nat.lt_of_lt_of_le (length_next_lt_skipGap h) c.length_skipGap_le

/-! ## All tokens -/

/-- The tokens that `next` gives one after the other, up to the end of the source. -/
inductive Yields : Cursor → List Lexeme → Prop
  | done {c after} (h : next c = .ok none after) : Yields c []
  | more {c after lexeme lexemes} (h : next c = .ok (some lexeme) after)
      (hrest : Yields after lexemes) : Yields c (lexeme :: lexemes)

/-- With a call for every character and one for the end, `remaining` reads all tokens. -/
theorem yields_of_remaining {calls : Nat} {c after : Cursor} {lexemes : List Lexeme}
    (h : remaining calls c = .ok lexemes after) (hcalls : c.rest.length < calls) :
    c.Yields lexemes := by
  -- the calls that are left always outnumber the characters that are left
  induction calls generalizing c lexemes with
  | zero => omega
  | succ calls ih =>
    obtain ⟨lexeme?, behind, hnext, hrest⟩ := EStateM.bind_eq_ok_iff.mp h
    cases lexeme? with
    | none =>
      cases hrest
      exact .done hnext
    | some lexeme =>
      obtain ⟨lexemes', _, hremaining, hpure⟩ := EStateM.bind_eq_ok_iff.mp hrest
      cases hpure
      have hlt := length_next_lt hnext
      exact .more hnext (ih hremaining (by omega))

/-! ## Tokens up to an error -/

/-- The tokens that `next` gives one after the other, and the error that ends them where it is not
    the end of the source that does. -/
inductive YieldsUpTo : Cursor → List Lexeme → Option ParseError → Prop
  | done {c after} (h : next c = .ok none after) : YieldsUpTo c [] none
  | failed {c after e} (h : next c = .error e after) : YieldsUpTo c [] (some e)
  | more {c after lexeme lexemes failure?} (h : next c = .ok (some lexeme) after)
      (hrest : YieldsUpTo after lexemes failure?) : YieldsUpTo c (lexeme :: lexemes) failure?

theorem yieldsUpTo_none_iff {c : Cursor} {lexemes : List Lexeme} :
    c.YieldsUpTo lexemes none ↔ c.Yields lexemes := by
  constructor
  · intro h
    -- without a failure there are tokens up to the end
    induction lexemes generalizing c with
    | nil =>
      cases h with
      | done h => exact .done h
    | cons lexeme lexemes ih =>
      cases h with
      | more h hrest => exact .more h (ih hrest)
  · intro h
    induction h with
    | done h => exact .done h
    | more h _ ih => exact .more h ih

theorem isLexical_of_next {c after : Cursor} {e : ParseError} (h : next c = .error e after) :
    e.IsLexical := by
  simp only [next] at h
  split at h
  · exact nomatch h
  · split at h
    · -- a number that does not fit
      simp only [nextNumber] at h
      split at h
      · exact nomatch h
      · cases h
        trivial
    · split at h
      · exact nomatch h
      · -- a character that starts no mark
        unfold nextMark at h
        split at h
        · exact nomatch h
        · cases h
          trivial

/-- The error that ends tokens is about the characters behind them. -/
theorem YieldsUpTo.isLexical {c : Cursor} {lexemes : List Lexeme} {e : ParseError}
    (h : c.YieldsUpTo lexemes (some e)) : e.IsLexical := by
  induction lexemes generalizing c with
  | nil =>
    cases h with
    | failed hnext => exact isLexical_of_next hnext
  | cons lexeme lexemes ih =>
    cases h with
    | more _ hrest => exact ih hrest

/-- Every cursor yields tokens up to some point. -/
theorem exists_yieldsUpTo (c : Cursor) : ∃ lexemes failure?, c.YieldsUpTo lexemes failure? := by
  induction hlength : c.rest.length using Nat.strongRecOn generalizing c with
  | ind length ih =>
    cases hnext : next c with
    | error e after => exact ⟨[], some e, .failed hnext⟩
    | ok lexeme? after =>
      cases lexeme? with
      | none => exact ⟨[], none, .done hnext⟩
      | some lexeme =>
        -- the token makes the rest shorter
        have hlt := length_next_lt hnext
        rw [hlength] at hlt
        obtain ⟨lexemes, failure?, hrest⟩ := ih _ hlt after rfl
        exact ⟨lexeme :: lexemes, failure?, .more hnext hrest⟩

/-- What a cursor yields is determined. -/
theorem YieldsUpTo.unique {c : Cursor} {lexemes lexemes' : List Lexeme}
    {failure? failure?' : Option ParseError} (h : c.YieldsUpTo lexemes failure?)
    (h' : c.YieldsUpTo lexemes' failure?') : lexemes = lexemes' ∧ failure? = failure?' := by
  -- on the tokens: both have the same answer to the next call
  induction h generalizing lexemes' with
  | done hnext | failed hnext =>
    cases h' with
    | done hnext' | failed hnext' | more hnext' _ =>
      cases hnext.symm.trans hnext' <;> exact ⟨rfl, rfl⟩
  | more hnext _ ih =>
    cases h' with
    | done hnext' | failed hnext' => cases hnext.symm.trans hnext'
    | more hnext' hrest' =>
      cases hnext.symm.trans hnext'
      obtain ⟨rfl, rfl⟩ := ih hrest'
      exact ⟨rfl, rfl⟩

/-- With a call for every character and one for the end, `remaining` meets the first error. -/
theorem yieldsUpTo_of_remaining {calls : Nat} {c after : Cursor} {e : ParseError}
    (h : remaining calls c = .error e after) (hcalls : c.rest.length < calls) :
    ∃ lexemes, c.YieldsUpTo lexemes (some e) := by
  -- on the calls; the error comes from the next one, or from a later one
  induction calls generalizing c with
  | zero => omega
  | succ calls ih =>
    rcases EStateM.bind_eq_error_iff.mp h with hnext | ⟨lexeme?, behind, hnext, hrest⟩
    · exact ⟨[], .failed hnext⟩
    · cases lexeme? with
      | none => exact nomatch hrest
      | some lexeme =>
        have hlt := length_next_lt hnext
        rcases EStateM.bind_eq_error_iff.mp hrest with hrest | ⟨_, _, _, hpure⟩
        · obtain ⟨lexemes, hyields⟩ := ih hrest (by omega)
          exact ⟨lexeme :: lexemes, .more hnext hyields⟩
        · exact nomatch hpure

end Cursor

/-- A source text that tokenizes yields its tokens. -/
theorem yields_of_tokenize {source : String} {lexemes : List Lexeme}
    (h : tokenize source = .ok lexemes) : (Cursor.ofSource source).Yields lexemes := by
  unfold tokenize at h
  split at h
  · next hremaining =>
    cases h
    exact Cursor.yields_of_remaining hremaining (by simp [Cursor.ofSource, String.length_toList])
  · exact nomatch h

/-- A source text that does not tokenize yields some tokens up to the error. -/
theorem exists_yieldsUpTo_of_tokenize {source : String} {e : ParseError}
    (h : tokenize source = .error e) :
    ∃ lexemes, (Cursor.ofSource source).YieldsUpTo lexemes (some e) := by
  unfold tokenize at h
  split at h
  · exact nomatch h
  · next hremaining =>
    cases h
    exact Cursor.yieldsUpTo_of_remaining hremaining
      (by simp [Cursor.ofSource, String.length_toList])

/-- A source text tokenizes to the tokens that it yields. -/
theorem tokenize_of_yields {source : String} {lexemes : List Lexeme}
    (h : (Cursor.ofSource source).Yields lexemes) : tokenize source = .ok lexemes := by
  have hyields := Cursor.yieldsUpTo_none_iff.mpr h
  cases htokenize : tokenize source with
  | ok lexemes' =>
    have hyields' := Cursor.yieldsUpTo_none_iff.mpr (yields_of_tokenize htokenize)
    rw [(hyields.unique hyields').1]
  | error e =>
    obtain ⟨_, hyields'⟩ := exists_yieldsUpTo_of_tokenize htokenize
    cases (hyields.unique hyields').2

end Formula
