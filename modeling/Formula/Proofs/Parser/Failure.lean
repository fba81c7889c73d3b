import Mathlib.Control.Monad.Basic
import Formula.Proofs.Parser.Outcome
import Formula.Proofs.Token.Places

/-!
# Where parsing fails

The parser reports the first place at which a source text stops being the beginning of an
expression.  `BlocksAt tokens k` says that token `k` is that place.  Unless nesting gets too deep,

* a text whose tokens are blocked at `k` is refused at token `k`, also if characters further on are
  no token;
* characters that are no token are reported if the tokens before them begin an expression;
* a text that only begins an expression is refused at its end.
-/

namespace Formula

/-! ## Beginnings of expressions -/

/-- Whether a token is the first one with which the tokens so far begin no expression. -/
def BlocksAt (tokens : List Token) (k : Nat) : Prop :=
  BeginsExpression (tokens.take k) ∧ ¬ BeginsExpression (tokens.take (k + 1))

theorem IsExpression.begins {tokens : List Token} {tree : Expr} (h : IsExpression tokens tree) :
    BeginsExpression tokens :=
  ⟨[], tree, by rwa [List.append_nil]⟩

/-- The beginning of a beginning is one. -/
theorem BeginsExpression.of_append {ts more : List Token} (h : BeginsExpression (ts ++ more)) :
    BeginsExpression ts := by
  obtain ⟨more', tree, h⟩ := h
  exact ⟨more ++ more', tree, by rwa [← List.append_assoc]⟩

theorem BeginsExpression.take_of_le {tokens : List Token} {j k : Nat}
    (h : BeginsExpression (tokens.take k)) (hjk : j ≤ k) : BeginsExpression (tokens.take j) := by
  have hsplit : tokens.take k = tokens.take j ++ (tokens.drop j).take (k - j) := by
    rw [← List.take_add, Nat.add_sub_cancel' hjk]
  rw [hsplit] at h
  exact h.of_append

namespace BlocksAt

variable {tokens : List Token} {j k : Nat}

theorem not_begins (h : BlocksAt tokens k) : ¬ BeginsExpression tokens := by
  intro hbegins
  rw [← List.take_append_drop (k + 1) tokens] at hbegins
  exact h.2 hbegins.of_append

/-- There is only one such token. -/
theorem unique (h : BlocksAt tokens j) (h' : BlocksAt tokens k) : j = k := by
  rcases Nat.lt_trichotomy j k with hjk | rfl | hjk
  · exact absurd (h'.1.take_of_le hjk) h.2
  · rfl
  · exact absurd (h.1.take_of_le hjk) h'.2

end BlocksAt

/-! ## Failures -/

/-- The errors of the reader of whole sources. -/
theorem Reader.Fails.whole_cases {lexemes : List Lexeme} {failure? : Option ParseError}
    {e : ParseError} (h : Reader.whole.Fails lexemes failure? e) :
    (∃ k, ∃ hk : k < lexemes.length, BlocksAt (lexemes.map Lexeme.token) k ∧
      e = .unexpectedToken lexemes[k].token lexemes[k].start) ∨
    (failure? = none ∧ BeginsExpression (lexemes.map Lexeme.token) ∧
      (¬ ∃ tree, IsExpression (lexemes.map Lexeme.token) tree) ∧
      ∃ expected, e = .unexpectedEnd expected) ∨
    (failure? = some e ∧ BeginsExpression (lexemes.map Lexeme.token)) ∨
    ∃ limit position, e = .nestingTooDeep limit position := by
  cases h with
  | @unexpected _ used lexeme rest heq hviable hblocked =>
    subst heq
    -- the error names the token behind the ones used, so that is where the tokens are blocked
    have hsplit : (used ++ lexeme :: rest).map Lexeme.token =
        used.map Lexeme.token ++ [lexeme.token] ++ rest.map Lexeme.token := by simp
    have htake : ((used ++ lexeme :: rest).map Lexeme.token).take used.length =
        used.map Lexeme.token := by
      rw [List.map_append]
      exact List.take_left' (List.length_map _)
    have htake' : ((used ++ lexeme :: rest).map Lexeme.token).take (used.length + 1) =
        used.map Lexeme.token ++ [lexeme.token] := by
      rw [hsplit]
      exact List.take_left' (by simp)
    refine .inl ⟨used.length, by simp, ⟨?_, ?_⟩, by simp⟩
    · rw [htake]
      exact viable_whole_iff.mp hviable
    · rw [htake']
      exact blocked_whole_iff.mp hblocked
  | unfinished hviable hnone =>
    refine .inr (.inl ⟨rfl, viable_whole_iff.mp hviable, fun hexpression => ?_, _, rfl⟩)
    -- the tokens as they are would have been a whole
    exact hnone [] (whole_iff.mpr ⟨rfl, hexpression⟩)
  | unreadable hviable => exact .inr (.inr (.inl ⟨rfl, viable_whole_iff.mp hviable⟩))
  | tooDeep => exact .inr (.inr (.inr ⟨_, _, rfl⟩))

/-! ## The first point of failure -/

namespace Expr

variable {source : String} {lexemes : List Lexeme}

/-- What becomes of a source text that is all tokens. -/
theorem parseWithin_cases_of_yields (limit : Nat) (h : (Cursor.ofSource source).Yields lexemes) :
    (∃ tree, parseWithin limit source = .ok tree ∧
      IsExpression (lexemes.map Lexeme.token) tree) ∨
    (∃ expected, parseWithin limit source = .error (.unexpectedEnd expected) ∧
      BeginsExpression (lexemes.map Lexeme.token) ∧
      ¬ ∃ tree, IsExpression (lexemes.map Lexeme.token) tree) ∨
    (∃ k, ∃ hk : k < lexemes.length, BlocksAt (lexemes.map Lexeme.token) k ∧
      parseWithin limit source =
        .error (.unexpectedToken lexemes[k].token lexemes[k].start)) ∨
    ∃ n position, parseWithin limit source = .error (.nestingTooDeep n position) := by
  rcases parseWithin_cases limit (Cursor.yieldsUpTo_none_iff.mpr h) with
    ⟨tree, hparse, -, -, need, -, hreads⟩ | ⟨e, hparse, hfails⟩
  · exact .inl ⟨tree, hparse, isExpression_iff.mpr ⟨need, hreads⟩⟩
  · rcases hfails.whole_cases with ⟨k, hk, hblocks, rfl⟩ | ⟨-, hbegins, hnone, expected, rfl⟩ |
      ⟨hfailure, -⟩ | ⟨n, position, rfl⟩
    · exact .inr (.inr (.inl ⟨k, hk, hblocks, hparse⟩))
    · exact .inr (.inl ⟨expected, hparse, hbegins, hnone⟩)
    · -- no character is refused in a source with all its tokens
      exact nomatch hfailure
    · exact .inr (.inr (.inr ⟨n, position, hparse⟩))

/-- What becomes of a source text that stops being tokens. -/
theorem parseWithin_cases_of_yieldsUpTo (limit : Nat) {e : ParseError}
    (h : (Cursor.ofSource source).YieldsUpTo lexemes (some e)) :
    (parseWithin limit source = .error e ∧ BeginsExpression (lexemes.map Lexeme.token)) ∨
    (∃ k, ∃ hk : k < lexemes.length, BlocksAt (lexemes.map Lexeme.token) k ∧
      parseWithin limit source =
        .error (.unexpectedToken lexemes[k].token lexemes[k].start)) ∨
    ∃ n position, parseWithin limit source = .error (.nestingTooDeep n position) := by
  rcases parseWithin_cases limit h with ⟨_, _, hfailure, _⟩ | ⟨e', hparse, hfails⟩
  · -- the end is not reached where a character is refused
    exact nomatch hfailure
  · rcases hfails.whole_cases with ⟨k, hk, hblocks, rfl⟩ | ⟨hfailure, -⟩ | ⟨hfailure, hbegins⟩ |
      ⟨n, position, rfl⟩
    · exact .inr (.inl ⟨k, hk, hblocks, hparse⟩)
    · exact nomatch hfailure
    · obtain rfl := Option.some.inj hfailure
      exact .inl ⟨hparse, hbegins⟩
    · exact .inr (.inr ⟨n, position, hparse⟩)

section Located

variable {limit : Nat}
  (hdeep : ∀ n position, parseWithin limit source ≠ .error (.nestingTooDeep n position))

include hdeep

theorem exists_parseWithin_eq_ok_iff (h : (Cursor.ofSource source).Yields lexemes) :
    (∃ tree, parseWithin limit source = .ok tree) ↔
      ∃ tree, IsExpression (lexemes.map Lexeme.token) tree := by
  rcases parseWithin_cases_of_yields limit h with ⟨tree, hparse, htree⟩ |
    ⟨expected, hparse, -, hnone⟩ | ⟨k, hk, hblocks, hparse⟩ | ⟨n, position, hparse⟩
  · exact iff_of_true ⟨tree, hparse⟩ ⟨tree, htree⟩
  · exact iff_of_false (by simp [hparse]) hnone
  · refine iff_of_false (by simp [hparse]) fun htree => ?_
    obtain ⟨tree, htree⟩ := htree
    exact hblocks.not_begins htree.begins
  · exact absurd hparse (hdeep n position)

theorem exists_parseWithin_eq_unexpectedEnd_iff (h : (Cursor.ofSource source).Yields lexemes) :
    (∃ expected, parseWithin limit source = .error (.unexpectedEnd expected)) ↔
      (¬ ∃ tree, IsExpression (lexemes.map Lexeme.token) tree) ∧
        ∃ more, more ≠ [] ∧ ∃ tree, IsExpression (lexemes.map Lexeme.token ++ more) tree := by
  rcases parseWithin_cases_of_yields limit h with ⟨tree, hparse, htree⟩ |
    ⟨expected, hparse, hbegins, hnone⟩ | ⟨k, hk, hblocks, hparse⟩ | ⟨n, position, hparse⟩
  · exact iff_of_false (by simp [hparse]) fun hnone => hnone.1 ⟨tree, htree⟩
  · -- the tokens begin an expression that they are not, so what completes them is not empty
    refine iff_of_true ⟨expected, hparse⟩ ⟨hnone, ?_⟩
    obtain ⟨more, tree, hmore⟩ := hbegins
    refine ⟨more, ?_, tree, hmore⟩
    rintro rfl
    exact hnone ⟨tree, by rwa [List.append_nil] at hmore⟩
  · -- blocked tokens begin nothing
    refine iff_of_false (by simp [hparse]) fun hbegins => ?_
    obtain ⟨-, more, -, tree, hmore⟩ := hbegins
    exact hblocks.not_begins ⟨more, tree, hmore⟩
  · exact absurd hparse (hdeep n position)

theorem parseWithin_eq_unexpectedToken_iff (h : (Cursor.ofSource source).Yields lexemes) {k : Nat}
    (hk : k < lexemes.length) (token : Token) :
    parseWithin limit source = .error (.unexpectedToken token lexemes[k].start) ↔
      BlocksAt (lexemes.map Lexeme.token) k ∧ token = lexemes[k].token := by
  rcases parseWithin_cases_of_yields limit h with ⟨tree, hparse, htree⟩ |
    ⟨expected, hparse, hbegins, -⟩ | ⟨j, hj, hblocks, hparse⟩ | ⟨n, position, hparse⟩
  · -- tokens that are or begin an expression are blocked nowhere
    exact iff_of_false (by simp [hparse]) fun hblocks => hblocks.1.not_begins htree.begins
  · exact iff_of_false (by simp [hparse]) fun hblocks => hblocks.1.not_begins hbegins
  · rw [hparse, Except.error.injEq, ParseError.unexpectedToken.injEq]
    constructor
    · -- no other token starts at the same place
      rintro ⟨rfl, hstart⟩
      obtain rfl := (Cursor.yieldsUpTo_none_iff.mpr h).eq_of_start_eq hstart
      exact ⟨hblocks, rfl⟩
    · -- tokens are blocked at one place only
      rintro ⟨hblocks', rfl⟩
      obtain rfl := hblocks.unique hblocks'
      exact ⟨rfl, rfl⟩
  · exact absurd hparse (hdeep n position)

theorem parseWithin_eq_lexical_iff {e : ParseError}
    (h : (Cursor.ofSource source).YieldsUpTo lexemes (some e)) :
    parseWithin limit source = .error e ↔ BeginsExpression (lexemes.map Lexeme.token) := by
  rcases parseWithin_cases_of_yieldsUpTo limit h with ⟨hparse, hbegins⟩ |
    ⟨k, hk, hblocks, hparse⟩ | ⟨n, position, hparse⟩
  · exact iff_of_true hparse hbegins
  · refine iff_of_false (fun herror => ?_) hblocks.not_begins
    -- an unexpected token is no error about characters
    have hlexical := h.isLexical
    rw [hparse] at herror
    rw [← Except.error.inj herror] at hlexical
    exact hlexical
  · exact absurd hparse (hdeep n position)

end Located

/-- A parse error locates the first point of failure. -/
theorem parseWithin_locates_failure {limit : Nat}
    (hdeep : ∀ n position, parseWithin limit source ≠ .error (.nestingTooDeep n position)) :
    (∀ lexemes, tokenize source = .ok lexemes →
      ((∃ tree, parseWithin limit source = .ok tree) ↔
        ∃ tree, IsExpression (lexemes.map Lexeme.token) tree) ∧
      ((∃ expected, parseWithin limit source = .error (.unexpectedEnd expected)) ↔
        (¬ ∃ tree, IsExpression (lexemes.map Lexeme.token) tree) ∧
          ∃ more, more ≠ [] ∧ ∃ tree, IsExpression (lexemes.map Lexeme.token ++ more) tree) ∧
      ∀ k (hk : k < lexemes.length) token,
        parseWithin limit source = .error (.unexpectedToken token lexemes[k].start) ↔
          BlocksAt (lexemes.map Lexeme.token) k ∧ token = lexemes[k].token) ∧
    ∀ e, tokenize source = .error e →
      ∃ lexemes, (Cursor.ofSource source).YieldsUpTo lexemes (some e) ∧
        (parseWithin limit source = .error e ↔ BeginsExpression (lexemes.map Lexeme.token)) ∧
        (¬ BeginsExpression (lexemes.map Lexeme.token) →
          ∃ k, ∃ hk : k < lexemes.length, BlocksAt (lexemes.map Lexeme.token) k ∧
            parseWithin limit source =
              .error (.unexpectedToken lexemes[k].token lexemes[k].start)) := by
  constructor
  · -- all of the source is tokens
    intro lexemes htokens
    have hyields := yields_of_tokenize htokens
    exact ⟨exists_parseWithin_eq_ok_iff hdeep hyields,
      exists_parseWithin_eq_unexpectedEnd_iff hdeep hyields,
      fun _ hk token => parseWithin_eq_unexpectedToken_iff hdeep hyields hk token⟩
  · -- a character or a number is refused behind the tokens
    intro e htokens
    obtain ⟨lexemes, hyields⟩ := exists_yieldsUpTo_of_tokenize htokens
    refine ⟨lexemes, hyields, parseWithin_eq_lexical_iff hdeep hyields, fun hnot => ?_⟩
    rcases parseWithin_cases_of_yieldsUpTo limit hyields with ⟨-, hbegins⟩ | hblocked |
      ⟨n, position, hparse⟩
    · exact absurd hbegins hnot
    · exact hblocked
    · exact absurd hparse (hdeep n position)

/-- Two operands without an operator between them are refused at the second one, before the
    character that is no token comes up. -/
theorem parseWithin_locates_failure_operands :
    (∀ n position, parseWithin 4 "1 2 $" ≠ .error (.nestingTooDeep n position)) ∧
      ∃ lexemes, (Cursor.ofSource "1 2 $").YieldsUpTo lexemes
        (some (.unexpectedCharacter '$' 4)) ∧
      ∃ k, ∃ hk : k < lexemes.length, BlocksAt (lexemes.map Lexeme.token) k ∧
        lexemes[k].token = .integer 2 ∧ lexemes[k].start = 2 := by
  have hparse : parseWithin 4 "1 2 $" = .error (.unexpectedToken (.integer 2) 2) := by
    decide +kernel
  have hdeep : ∀ n position, parseWithin 4 "1 2 $" ≠ .error (.nestingTooDeep n position) := by
    simp [hparse]
  have htokens : tokenize "1 2 $" = .error (.unexpectedCharacter '$' 4) := rfl
  obtain ⟨lexemes, hyields, hlexical, hblocked⟩ := (parseWithin_locates_failure hdeep).2 _ htokens
  -- it is the second operand that is reported, not the character behind it
  have hnot : ¬ BeginsExpression (lexemes.map Lexeme.token) := by
    rw [← hlexical, hparse]
    exact nofun
  obtain ⟨k, hk, hblocks, hunexpected⟩ := hblocked hnot
  rw [hparse] at hunexpected
  simp only [Except.error.injEq, ParseError.unexpectedToken.injEq] at hunexpected
  exact ⟨hdeep, lexemes, hyields, k, hk, hblocks, hunexpected.1.symm, hunexpected.2.symm⟩

end Expr

end Formula
