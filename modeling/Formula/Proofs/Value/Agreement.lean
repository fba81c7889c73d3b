import Formula.Proofs.Number.Negation
import Formula.Proofs.Parser.Correctness
import Formula.Proofs.Token.Initial
import Formula.Proofs.Typing.Exactness
import Formula.Proofs.Value.Reading

/-!
# Values and expressions agree

A text may be read as a value and also be parsed as an expression.  Where both succeed, and the
expression has a value without any variable, the two values are the same
(`Value.read_eq_evaluateWithin`).

The form of a text that is read as a value tells what its tokens are.  A truth value or a number is
one token behind its sign, and that is an operand of its own (`Reads.exists_leaf_of_blanks`).  All
other forms have no value as expressions: a point with no digit before it or behind it is no token,
a power of ten would be a word behind a number, and a name is a variable.
-/

namespace Formula

namespace Lexes

variable {text rest : List Char} {tokens : List Token}

/-- A sign is a token by itself. -/
theorem of_sign {mark : Mark} (hmark : mark = .plus ∨ mark = .minus)
    (h : Lexes (mark.spelling.toList ++ rest) tokens) :
    ∃ following, tokens = .mark mark :: following ∧ Lexes rest following := by
  have hstops : StopsBefore mark.spelling.toList rest := by
    constructor
    · rcases hmark with rfl | rfl <;> simp [Mark.spelling]
    · intro other hinitial hother
      rcases hmark with rfl | rfl <;> have hhead := hother.head?_eq hinitial <;>
        obtain ⟨other, rfl⟩ := hother.exists_mark hhead rfl rfl <;> cases other <;>
        first | exact List.prefix_rfl | cases hhead
  obtain ⟨token, following, rfl, hspells, hrest⟩ := h.of_lexeme (.mark mark) hstops
  obtain rfl := hspells.unique (.mark mark)
  exact ⟨following, rfl, hrest⟩

/-- The power of ten of a real is a word for an expression, and no operator. -/
theorem of_exponent {mark : Char} (hmark : mark = 'e' ∨ mark = 'E')
    (h : Lexes (mark :: rest) tokens) :
    ∃ token following, tokens = token :: following ∧ token.operator? = none := by
  have hcomment : ¬ ['/', '/'] <+: mark :: rest := by
    rcases hmark with rfl | rfl <;> simp
  have hblank : Cursor.isBlank mark = false := by
    rcases hmark with rfl | rfl <;> rfl
  -- the token starts with the letter, so it is a name or a reserved word
  obtain ⟨text, behind, token, following, hsource, rfl, hspells, -⟩ :=
    h.exists_first hblank hcomment
  have hhead := hspells.isLexeme.head?_eq ⟨behind, hsource.symm⟩
  refine ⟨token, following, rfl, ?_⟩
  cases hspells with
  | integer | real | identifier => rfl
  | keyword keyword =>
    cases keyword <;> first | rfl | (rcases hmark with rfl | rfl <;> cases hhead)
  | mark mark =>
    cases mark <;> rcases hmark with rfl | rfl <;> cases hhead

/-- The blanks around a text are no part of its tokens. -/
theorem of_trimList (h : Lexes text tokens) :
    ∃ trail, (∀ c ∈ trail, ¬ IsVisible c) ∧ Lexes (Blank.trimList text ++ trail) tokens := by
  obtain ⟨lead, trail, htext, hlead, htrail⟩ := Blank.exists_trimList text
  rw [htext] at h
  refine ⟨trail, fun c hc => Blank.not_isVisible_of_isBlank (htrail c hc), ?_⟩
  exact h.of_blanks fun c hc => Blank.not_isVisible_of_isBlank (hlead c hc)

end Lexes

/-! ## Single operands -/

/-- The tokens of a sign. -/
inductive IsSignTokens : Bool → List Token → Prop
  | none : IsSignTokens false []
  | plus : IsSignTokens false [.mark .plus]
  | minus : IsSignTokens true [.mark .minus]

theorem Lexes.of_isSign {negative : Bool} {sign rest : List Char} {tokens : List Token}
    (hsign : Numeral.IsSign negative sign) (h : Lexes (sign ++ rest) tokens) :
    ∃ signs following, tokens = signs ++ following ∧ IsSignTokens negative signs ∧
      Lexes rest following := by
  cases hsign with
  | none => exact ⟨[], tokens, rfl, .none, h⟩
  | plus =>
    obtain ⟨following, rfl, hrest⟩ := h.of_sign (.inl rfl)
    exact ⟨_, following, rfl, .plus, hrest⟩
  | minus =>
    obtain ⟨following, rfl, hrest⟩ := h.of_sign (.inr rfl)
    exact ⟨_, following, rfl, .minus, hrest⟩

/-- A token that is an operand by itself is read with its sign, if no operator follows. -/
theorem exists_reads_signed {negative : Bool} {signs rest : List Token} {token : Token}
    {leaf : Expr} (hsigns : IsSignTokens negative signs) (hleaf : token.operand? = some leaf)
    (hrest : operatorAhead? rest = none) :
    ∃ need, Reads (.expression .or) need (signs ++ token :: rest) (leaf.withSign negative)
      rest := by
  have hclear : leaf.isNegative = false := by
    obtain ⟨value, rfl⟩ | ⟨name, rfl⟩ := Token.cases_of_operand? hleaf <;> rfl
  have hsingle (least : Level) : Reads (.expression least) 1 (token :: rest) leaf rest :=
    .expression (.operand hleaf) (.stop (stops_of_none hrest))
  -- no sign, a plus, which leaves nothing, or a minus, which sets the flag
  cases hsigns with
  | none =>
    rw [← hclear, Expr.withSign_isNegative]
    exact ⟨_, hsingle .or⟩
  | plus =>
    rw [← hclear, Expr.withSign_isNegative]
    exact ⟨_, .expression (.plus (hsingle .unary)) (.stop (stops_of_none hrest))⟩
  | minus =>
    have hnegated : leaf.withSign true = leaf.negated := by rw [Expr.negated, hclear]; rfl
    rw [hnegated]
    exact ⟨_, .expression (.minus (hsingle .unary)) (.stop (stops_of_none hrest))⟩

/-- So a text with such a token behind its sign is parsed only if nothing else follows. -/
theorem Reads.exists_leaf {negative : Bool} {signs following : List Token} {text rest : List Char}
    {need : Nat} {tree : Expr} (hreads : Reads (.expression .or) need (signs ++ following) tree [])
    (hsigns : IsSignTokens negative signs) (hlexes : Lexes (text ++ rest) following)
    (hlexeme : IsLexeme text) (hstops : StopsBefore text rest)
    (hoperand : ∀ token, Spells text token → ∃ leaf, token.operand? = some leaf)
    (hrest : ∀ tokens, Lexes rest tokens → operatorAhead? tokens = none) :
    Lexes rest [] ∧ ∃ token leaf, Spells text token ∧ token.operand? = some leaf ∧
      tree = leaf.withSign negative := by
  obtain ⟨token, behind, rfl, hspells, hbehind⟩ := hlexes.of_lexeme hlexeme hstops
  obtain ⟨leaf, hleaf⟩ := hoperand token hspells
  obtain ⟨_, hsingle⟩ := exists_reads_signed hsigns hleaf (hrest behind hbehind)
  obtain ⟨-, rfl, rfl⟩ := hreads.unique hsingle
  exact ⟨hbehind, token, leaf, hspells, hleaf, rfl⟩

/-- The token of a number is an operand. -/
theorem Spells.exists_operand?_of_isNumber {text : List Char} {token : Token}
    (h : Spells text token) (hnumber : IsNumber text) : ∃ leaf, token.operand? = some leaf := by
  obtain ⟨i, rfl, -⟩ | ⟨_, _, x, rfl, -⟩ := h.cases_of_isNumber hnumber
  · exact ⟨_, rfl⟩
  · exact ⟨_, rfl⟩

section

variable {negative : Bool} {signs following : List Token} {text rest : List Char} {need : Nat}
  {tree : Expr}

/-- A text with nothing but blanks behind it is such an operand. -/
theorem Reads.exists_leaf_of_blanks
    (hreads : Reads (.expression .or) need (signs ++ following) tree [])
    (hsigns : IsSignTokens negative signs) (hlexes : Lexes (text ++ rest) following)
    (hlexeme : IsLexeme text) (hblanks : ∀ c ∈ rest, ¬ IsVisible c)
    (hoperand : ∀ token, Spells text token → ∃ leaf, token.operand? = some leaf) :
    ∃ token leaf, Spells text token ∧ token.operand? = some leaf ∧
      tree = leaf.withSign negative := by
  have hstops : StopsBefore text rest :=
    .of_invisible hlexeme fun c hc => hblanks c (List.mem_of_mem_head? hc)
  obtain ⟨-, hleaf⟩ := hreads.exists_leaf hsigns hlexes hlexeme hstops hoperand fun tokens h => by
    rw [h.eq_nil_of_blanks hblanks]
    rfl
  exact hleaf

/-- And it is the one of its token, if it is the text of one. -/
theorem Reads.eq_withSign_of_spells {token : Token} {leaf : Expr}
    (hreads : Reads (.expression .or) need (signs ++ following) tree [])
    (hsigns : IsSignTokens negative signs) (hlexes : Lexes (text ++ rest) following)
    (hspells : Spells text token) (hleaf : token.operand? = some leaf)
    (hblanks : ∀ c ∈ rest, ¬ IsVisible c) : tree = leaf.withSign negative := by
  obtain ⟨token', leaf', hspells', hleaf', rfl⟩ := hreads.exists_leaf_of_blanks hsigns hlexes
    hspells.isLexeme hblanks fun token' h => ⟨leaf, h.unique hspells ▸ hleaf⟩
  obtain rfl := hspells'.unique hspells
  rw [Option.some.inj (hleaf'.symm.trans hleaf)]

/-- No expression is a number with a point behind it. -/
theorem Reads.not_lexes_point {digits : List Char}
    (hreads : Reads (.expression .or) need (signs ++ following) tree [])
    (hsigns : IsSignTokens negative signs) (hdigits : IsDigits digits)
    (hrest : ∀ c, rest.head? = some c → c.isDigit = false) :
    ¬ Lexes (digits ++ '.' :: rest) following := by
  intro h
  have hnumber : IsNumber digits := .integer hdigits
  obtain ⟨hpoint, -⟩ := hreads.exists_leaf hsigns h (.number hnumber)
    (hdigits.stopsBefore_point hrest) (fun _ hspells => hspells.exists_operand?_of_isNumber hnumber)
    fun _ h => absurd h Lexes.not_point
  exact Lexes.not_point hpoint

/-- No expression is a number with a power of ten, for that is a word, and a number and a word are
    not joined by anything. -/
theorem Reads.not_lexes_exponent {number : List Char} {mark : Char}
    (hreads : Reads (.expression .or) need (signs ++ following) tree [])
    (hsigns : IsSignTokens negative signs) (hnumber : IsNumber number)
    (hmark : mark = 'e' ∨ mark = 'E') : ¬ Lexes (number ++ mark :: rest) following := by
  intro h
  have hstart : Cursor.isWordStart mark = true := by rcases hmark with rfl | rfl <;> rfl
  -- what stands behind the number is no operator, so the reading ends there with tokens left
  have hbehind (tokens : List Token) (h : Lexes (mark :: rest) tokens) :
      operatorAhead? tokens = none := by
    obtain ⟨token, behind, rfl, hnone⟩ := h.of_exponent hmark
    exact hnone
  obtain ⟨hnothing, -⟩ := hreads.exists_leaf hsigns h (.number hnumber)
    (hnumber.stopsBefore_letter hstart)
    (fun _ hspells => hspells.exists_operand?_of_isNumber hnumber) hbehind
  obtain ⟨_, _, hcons, -⟩ := hnothing.of_exponent hmark
  cases hcons

end

/-! ## Texts of both -/

namespace Value

open Numeral (IsSign)

/-- The tokens of a text that is parsed. -/
theorem exists_reads_of_parseWithin {limit : Nat} {source : String} {tree : Expr}
    (h : Expr.parseWithin limit source = .ok tree) :
    ∃ tokens need, Lexes source.toList tokens ∧ Reads (.expression .or) need tokens tree [] := by
  obtain ⟨lexemes, failure?, hyields⟩ := (Cursor.ofSource source).exists_yieldsUpTo
  rcases Expr.parseWithin_cases limit hyields with ⟨tree', hparse, rfl, -, need, -, hreads⟩ |
    ⟨e, hparse, -⟩
  · obtain rfl := Except.ok.inj (h.symm.trans hparse)
    exact ⟨_, need, ⟨0, lexemes, Cursor.yieldsUpTo_none_iff.mp hyields, rfl⟩, hreads⟩
  · cases h.symm.trans hparse

/-- The integer of a sign and digits is that of the digits with the sign applied. -/
theorem signedInteger?_of_applySign {negative : Bool} {digits : List Char} {i : Int64} {w : Value}
    (hi : i.toInt = Nat.ofDigitChars 10 digits 0)
    (h : Arithmetic.applySign negative (.integer i) = .ok w) :
    ∃ j, Numeral.signedInteger? negative digits = some j ∧ w = .integer j := by
  rw [Numeral.signedInteger?, Numeral.ofDigits_eq, ← hi]
  cases negative with
  | false =>
    cases h
    exact ⟨i, int64?_toInt i, rfl⟩
  | true =>
    -- the negation has passed the gate, which is the one of the reader
    simp only [Arithmetic.applySign, if_true, Arithmetic.negate] at h
    split at h
    · next j hj =>
      cases h
      exact ⟨j, hj, rfl⟩
    · cases h

/-- A number with a sign is read as the value of its literal. -/
theorem read_of_isNumber {source : String} {negative : Bool} {sign text : List Char}
    {token : Token} {leaf : Expr} {env : Environment} {w : Value}
    (htrim : Blank.trimList source.toList = sign ++ text) (hsign : IsSign negative sign)
    (hnumber : IsNumber text) (hspells : Spells text token) (hleaf : token.operand? = some leaf)
    (hvalue : (leaf.withSign negative).value env = .ok w) : read source = .ok w := by
  obtain ⟨i, rfl, hdigits, hi⟩ | ⟨whole, fraction, x, rfl, rfl, hwhole, hfraction, hx, hfinite⟩ :=
    hspells.cases_of_isNumber hnumber
  · cases hleaf
    obtain ⟨j, hj, rfl⟩ := signedInteger?_of_applySign hi hvalue
    exact read_integer htrim hsign hdigits hj
  · cases hleaf
    -- a real is read with its sign, and negated with it
    have hw : w = .real ((Decimal.ofDigits whole fraction).toFloat negative) := by
      cases negative with
      | false =>
        cases hvalue
        rw [hx]
      | true =>
        cases hvalue
        rw [Decimal.toFloat_true (hx.symm ▸ hfinite), hx]
    rw [hw]
    refine read_real htrim hsign (Numeral.unsigned_of_isNumber hnumber) ⟨'.', by simp, by decide⟩ ?_
    rw [Numeral.readDecimal_real hwhole hfraction]
    rfl

/-- A truth value is written as a reserved word that is an operand. -/
theorem exists_spells_boolText (b : Bool) :
    ∃ token, Spells (boolText b).toList token ∧
      token.operand? = some (.ofValue (.boolean b)) := by
  cases b with
  | true => exact ⟨_, .keyword .trueWord, rfl⟩
  | false => exact ⟨_, .keyword .falseWord, rfl⟩

/-- If a text is read as a value, is parsed as an expression, and that has a value without any
    variables, the two values are the same. -/
theorem read_eq_evaluateWithin {source : String} {limit levels : Nat} {tree : Expr} {v w : Value}
    (hread : read source = .ok v) (hparse : Expr.parseWithin limit source = .ok tree)
    (heval : tree.evaluateWithin levels Bindings.empty = .ok w) : w = v := by
  have hvalue := Expr.value_of_evaluateWithin heval
  obtain ⟨tokens, need, hlexes, hreads⟩ := exists_reads_of_parseWithin hparse
  obtain ⟨trail, htrail, hlexes⟩ := hlexes.of_trimList
  rcases cases_of_read hread with ⟨b, htrim, rfl⟩ | ⟨negative, sign, body, htrim, hsign, hform⟩
  · -- a truth value is the same word in both languages
    obtain ⟨token, hspells, hleaf⟩ := exists_spells_boolText b
    rw [htrim] at hlexes
    obtain rfl := hreads.eq_withSign_of_spells .none hlexes hspells hleaf htrail
    cases hvalue
    rfl
  · rw [htrim, List.append_assoc] at hlexes
    obtain ⟨signs, following, rfl, hsigns, hfollowing⟩ := hlexes.of_isSign hsign
    -- of the forms only numbers are values of both
    cases hform with
    | number hnumber =>
      obtain ⟨token, leaf, hspells, hleaf, rfl⟩ := hreads.exists_leaf_of_blanks hsigns hfollowing
        (.number hnumber) htrail fun _ h => h.exists_operand?_of_isNumber hnumber
      have hread' := read_of_isNumber htrim hsign hnumber hspells hleaf hvalue
      exact Except.ok.inj (hread'.symm.trans hread)
    | leadingPoint => exact absurd hfollowing Lexes.not_point
    | @trailingPoint digits rest hdigits hrest =>
      -- the point has no digit behind it, so the parser has no number there
      have hrest' : ∀ c, (rest ++ trail).head? = some c → c.isDigit = false := by
        intro c hc
        cases rest with
        | nil =>
          rw [Bool.eq_false_iff]
          exact fun hdigit => htrail c (List.mem_of_mem_head? hc) (.of_isDigit hdigit)
        | cons first rest => exact hrest c hc
      rw [List.append_assoc, List.cons_append] at hfollowing
      exact absurd hfollowing (hreads.not_lexes_point hsigns hdigits hrest')
    | scientific hnumber hmark =>
      rw [List.append_assoc, List.cons_append] at hfollowing
      exact absurd hfollowing (hreads.not_lexes_exponent hsigns hnumber hmark)
    | name hword hfree =>
      -- a variable, which has no value here
      obtain rfl := hreads.eq_withSign_of_spells hsigns hfollowing (.identifier hword hfree) rfl
        htrail
      cases hvalue

/-- The value has its sign from the text, and the expression from a negation. -/
theorem read_eq_evaluateWithin_negation :
    let source := " -2.50\n"
    let tree : Expr := .lit true (.real (Float.ofBits 0x4004000000000000))
    let v : Value := .real (Float.ofBits 0xC004000000000000)
    let w : Value := .real (-Float.ofBits 0x4004000000000000)
    read source = .ok v ∧ Expr.parseWithin 2 source = .ok tree ∧
      tree.evaluateWithin 1 Bindings.empty = .ok w ∧ w = v := by
  intro source tree v w
  have hread : read source = .ok v := by decide +kernel
  have hparse : Expr.parseWithin 2 source = .ok tree := by decide +kernel
  have heval : tree.evaluateWithin 1 Bindings.empty = .ok w := by decide +kernel
  exact ⟨hread, hparse, heval, read_eq_evaluateWithin hread hparse heval⟩

end Value

end Formula
