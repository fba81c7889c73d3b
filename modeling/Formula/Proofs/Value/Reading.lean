import Formula.Proofs.Token.Follow
import Formula.Value.Text

/-!
# Texts that are read as values

`Value.read` leaves out the blanks around a text and then tries one form after the other.  There
are lemmas that say how the texts of a form are read, and lemmas that say what form a text has that
is read:

* `Blank.trimList_eq_self` and `Blank.exists_trimList` for the blanks
* `Numeral.splitSign_append` and `Numeral.exists_isSign` for the sign
* `Numeral.readInteger_append` and `Numeral.exists_form_of_readInteger` for integers
* `Numeral.readReal_append`, `Numeral.readDecimal_real` and `Numeral.exists_form_of_readReal` for
  reals
* `Value.read_integer`, `Value.read_real` and `Value.cases_of_read` for the values
-/

namespace Formula

/-! ## Blanks around a text -/

namespace Blank

theorem isBlank_of_isVisible {c : Char} (h : IsVisible c) : isBlank c = false := by
  simp only [IsVisible] at h
  simp only [isBlank, Bool.or_eq_false_iff, Bool.and_eq_false_iff, decide_eq_false_iff_not,
    beq_eq_false_iff_ne]
  omega

theorem not_isVisible_of_isBlank {c : Char} (h : isBlank c = true) : ¬ IsVisible c := by
  intro hvisible
  rw [isBlank_of_isVisible hvisible] at h
  cases h

variable {text : List Char}

/-- A text that neither starts nor ends with a blank is left as it is. -/
theorem trimList_eq_self (hfirst : ∀ c, text.head? = some c → isBlank c = false)
    (hlast : ∀ c, text.getLast? = some c → isBlank c = false) : trimList text = text := by
  have hdrop {l : List Char} (h : ∀ c, l.head? = some c → isBlank c = false) :
      l.dropWhile isBlank = l := by
    cases l with
    | nil => rfl
    | cons c l => rw [List.dropWhile_cons_of_neg (by simp [h c rfl])]
  rw [trimList, hdrop hfirst, hdrop fun c hc => hlast c (by rwa [List.head?_reverse] at hc),
    List.reverse_reverse]

/-- What is left out of a text are blanks at its start and at its end. -/
theorem exists_trimList (text : List Char) :
    ∃ lead trail, text = lead ++ (trimList text ++ trail) ∧ (∀ c ∈ lead, isBlank c = true) ∧
      ∀ c ∈ trail, isBlank c = true := by
  refine ⟨text.takeWhile isBlank, ((text.dropWhile isBlank).reverse.takeWhile isBlank).reverse,
    ?_, fun c hc => List.mem_takeWhile_imp hc, fun c hc => ?_⟩
  · rw [trimList, ← List.reverse_append, List.takeWhile_append_dropWhile, List.reverse_reverse,
      List.takeWhile_append_dropWhile]
  · rw [List.mem_reverse] at hc
    exact List.mem_takeWhile_imp hc

end Blank

namespace Numeral

/-! ## Signs -/

/-- The texts of a sign, of which there is none where a number is not negative. -/
inductive IsSign : Bool → List Char → Prop
  | none : IsSign false []
  | plus : IsSign false ['+']
  | minus : IsSign true ['-']

/-- Whether a text does not start with a sign. -/
def Unsigned (text : List Char) : Prop :=
  ∀ c, text.head? = some c → c ≠ '-' ∧ c ≠ '+'

theorem unsigned_of_isNumber {text : List Char} (h : IsNumber text) : Unsigned text := by
  intro c hc
  have hdigit := h.isDigit_head hc
  constructor <;> rintro rfl <;> exact absurd hdigit (by decide)

/-- The sign that numbers are written with. -/
theorem isSign_ite (negative : Bool) : IsSign negative (if negative then ['-'] else []) := by
  cases negative with
  | true => exact .minus
  | false => exact .none

theorem splitSign_of_unsigned {text : List Char} (h : Unsigned text) :
    splitSign text = (false, text) := by
  cases text with
  | nil => rfl
  | cons c rest =>
    obtain ⟨hminus, hplus⟩ := h c rfl
    simp [splitSign, hminus, hplus]

theorem splitSign_append {negative : Bool} {sign text : List Char} (hsign : IsSign negative sign)
    (h : Unsigned text) : splitSign (sign ++ text) = (negative, text) := by
  cases hsign with
  | none => exact splitSign_of_unsigned h
  | plus | minus => rfl

/-- There are no blanks around a lexeme with a sign. -/
theorem trimList_append {negative : Bool} {sign text : List Char} (hsign : IsSign negative sign)
    (h : IsLexeme text) : Blank.trimList (sign ++ text) = sign ++ text := by
  have hvisible : ∀ c ∈ sign ++ text, Blank.isBlank c = false := by
    intro c hc
    apply Blank.isBlank_of_isVisible
    rcases List.mem_append.mp hc with hc | hc
    · cases hsign with
      | none => cases hc
      | plus | minus =>
        rw [List.mem_singleton.mp hc]
        decide
    · exact h.isVisible_of_mem hc
  exact Blank.trimList_eq_self (fun c hc => hvisible c (List.mem_of_mem_head? hc))
    fun c hc => hvisible c (List.mem_of_getLast? hc)

theorem exists_isSign (text : List Char) :
    ∃ sign, IsSign (splitSign text).1 sign ∧ text = sign ++ (splitSign text).2 := by
  unfold splitSign
  split
  · exact ⟨['-'], .minus, rfl⟩
  · exact ⟨['+'], .plus, rfl⟩
  · exact ⟨[], .none, rfl⟩

/-- The forms of the texts that are read as numbers, without their sign.  Beside numbers of the
    lexical grammar these are the ones that lack the digits on one side of their point, those with a
    power of ten, and names. -/
inductive Form : List Char → Prop
  | number {text} (h : IsNumber text) : Form text
  | leadingPoint {rest} : Form ('.' :: rest)
  | trailingPoint {digits rest} (hdigits : IsDigits digits)
      (hrest : ∀ c, rest.head? = some c → c.isDigit = false) : Form (digits ++ '.' :: rest)
  | scientific {number mark rest} (hnumber : IsNumber number) (hmark : mark = 'e' ∨ mark = 'E') :
      Form (number ++ mark :: rest)
  | name {text} (hword : IsWord text)
      (hfree : ∀ keyword : Keyword, text ≠ keyword.spelling.toList) : Form text

/-! ## Integers -/

section

variable {negative : Bool} {sign text : List Char}

theorem readInteger_append {digits : List Char} (hsign : IsSign negative sign)
    (h : IsDigits digits) : readInteger (sign ++ digits) = signedInteger? negative digits := by
  have hunsigned := unsigned_of_isNumber (.integer h)
  have hall : digits.all Char.isDigit = true := List.all_eq_true.mpr h.2
  simp [readInteger, splitSign_append hsign hunsigned, h.1, hall]

/-- Nothing but digits behind a sign is read as an integer. -/
theorem exists_digits_of_readInteger {i : Int64} (h : readInteger text = some i) :
    ∃ negative sign digits, IsSign negative sign ∧ text = sign ++ digits ∧ IsDigits digits := by
  obtain ⟨sign, hsign, htext⟩ := exists_isSign text
  refine ⟨_, sign, (splitSign text).2, hsign, htext, ?_⟩
  simp only [readInteger] at h
  split at h
  · cases h
  · next hdigits =>
    simp only [Bool.or_eq_true, List.isEmpty_iff, Bool.not_eq_true', not_or,
      Bool.not_eq_false, List.all_eq_true] at hdigits
    exact hdigits

/-- So no text with another character is. -/
theorem readInteger_eq_none {c : Char} (hc : c ∈ text)
    (hother : c.isDigit = false ∧ c ≠ '-' ∧ c ≠ '+') : readInteger text = none := by
  rw [Option.eq_none_iff_forall_ne_some]
  intro i hi
  obtain ⟨_, sign, digits, hsign, rfl, hdigits⟩ := exists_digits_of_readInteger hi
  rcases List.mem_append.mp hc with hc | hc
  · cases hsign <;> simp_all
  · have hdigit := hdigits.2 c hc
    simp_all

/-! ## Reals -/

theorem readReal_append (hsign : IsSign negative sign) (h : Unsigned text) :
    readReal (sign ++ text) =
      ((readDecimal text).map (Decimal.toFloat negative)).or (readName negative text) := by
  simp only [readReal, splitSign_append hsign h]
  cases readDecimal text <;> rfl

/-- Digits on both sides of a point are read as their decimal. -/
theorem readDecimal_real {whole fraction : List Char} (hwhole : IsDigits whole)
    (hfraction : IsDigits fraction) :
    readDecimal (whole ++ '.' :: fraction) = some (Decimal.ofDigits whole fraction) := by
  have hpoint : ∀ c, ('.' :: fraction).head? = some c → c.isDigit = false := by
    intro c hc
    cases hc
    rfl
  obtain ⟨htake, hdrop⟩ := Cursor.stretch_append hwhole.2 hpoint
  have htake' : fraction.takeWhile Char.isDigit = fraction :=
    List.takeWhile_eq_self_iff.mpr hfraction.2
  have hdrop' : fraction.dropWhile Char.isDigit = [] := List.dropWhile_eq_nil_iff.mpr hfraction.2
  simp [readDecimal, htake, hdrop, htake', hdrop', hwhole.1, readExponent]

/-- What stands behind the digits of a decimal is a power of ten, if there is anything. -/
theorem form_of_readExponent {number rest : List Char} {bound : Nat} {power : Int}
    (hnumber : IsNumber number) (h : readExponent bound rest = some power) :
    Form (number ++ rest) := by
  cases rest with
  | nil => exact .number (by rwa [List.append_nil])
  | cons mark rest =>
    refine .scientific hnumber ?_
    by_contra hmark
    rw [not_or] at hmark
    simp [readExponent, hmark] at h

/-- What is read as a decimal has one of the forms. -/
theorem form_of_readDecimal {d : Decimal} (h : readDecimal text = some d) : Form text := by
  have htext : text.takeWhile Char.isDigit ++ text.dropWhile Char.isDigit = text :=
    List.takeWhile_append_dropWhile
  have hdigits : ∀ c ∈ text.takeWhile Char.isDigit, c.isDigit = true :=
    fun c hc => List.mem_takeWhile_imp hc
  simp only [readDecimal] at h
  generalize text.takeWhile Char.isDigit = whole at h htext hdigits
  generalize text.dropWhile Char.isDigit = behind at h htext
  subst htext
  split at h
  · -- a point: digits are missing on one of its sides, or it is a number so far
    next rest =>
    have hfraction : ∀ c ∈ rest.takeWhile Char.isDigit, c.isDigit = true :=
      fun c hc => List.mem_takeWhile_imp hc
    by_cases hwhole : whole = []
    · rw [hwhole, List.nil_append]
      exact .leadingPoint
    · by_cases hnone : rest.takeWhile Char.isDigit = []
      · refine .trailingPoint ⟨hwhole, hdigits⟩ fun c hc => ?_
        obtain ⟨more, rfl⟩ := List.head?_eq_some_iff.mp hc
        by_contra hdigit
        rw [List.takeWhile_cons_of_pos (by simpa using hdigit)] at hnone
        cases hnone
      · -- digits on both sides of the point; an exponent may follow
        have hnumber : IsNumber (whole ++ '.' :: rest.takeWhile Char.isDigit) :=
          .real ⟨hwhole, hdigits⟩ ⟨hnone, hfraction⟩
        simp only [List.isEmpty_iff, hwhole, hnone, Bool.and_eq_true, false_and, if_false] at h
        obtain ⟨power, hpower, -⟩ := Option.map_eq_some_iff.mp h
        have hform := form_of_readExponent hnumber hpower
        rwa [List.append_assoc, List.cons_append, List.takeWhile_append_dropWhile] at hform
  · -- no point
    by_cases hwhole : whole = []
    · simp [hwhole] at h
    · simp only [List.isEmpty_iff, hwhole, Bool.and_eq_true, false_and, if_false] at h
      obtain ⟨power, hpower, -⟩ := Option.map_eq_some_iff.mp h
      exact form_of_readExponent (.integer ⟨hwhole, hdigits⟩) hpower

/-! ## Names -/

theorem isAlpha_of_toLower {c : Char} (h : c.toLower.isAlpha = true) : c.isAlpha = true := by
  by_cases hupper : c.isUpper = true
  · rw [Char.isAlpha, hupper, Bool.true_or]
  · rwa [Char.toLower_eq_of_not_isUpper hupper] at h

/-- The names that are read, in small letters. -/
def names : List (List Char) :=
  ["inf".toList, "infinity".toList, "nan".toList]

theorem map_toLower_mem_names {x : Float} (h : readName negative text = some x) :
    text.map Char.toLower ∈ names := by
  by_contra hother
  simp only [names, List.mem_cons, List.not_mem_nil, or_false, not_or, ← String.ofList_inj,
    String.ofList_toList] at hother
  simp [readName, hother] at h

/-- A name is a word that is not reserved. -/
theorem form_of_readName {x : Float} (h : readName negative text = some x) : Form text := by
  have hname := map_toLower_mem_names h
  have hletters : ∀ name ∈ names, name ≠ [] ∧ ∀ c ∈ name, c.isAlpha = true := by
    simp [names]
  have hfree (keyword : Keyword) : keyword.spelling.toList.map Char.toLower ∉ names := by
    cases keyword <;> decide
  refine .name ?_ ?_
  · -- the names are letters in lower case, and so the text is letters
    obtain ⟨hne, halpha⟩ := hletters _ hname
    have hword : ∀ c ∈ text, c.isAlpha = true := fun c hc =>
      isAlpha_of_toLower (halpha _ (List.mem_map_of_mem hc))
    cases text with
    | nil => exact absurd rfl hne
    | cons first more =>
      rw [List.forall_mem_cons] at hword
      refine ⟨first, more, rfl, .inl hword.1, fun c hc => .inl ?_⟩
      rw [Char.isAlphanum, hword.2 c hc, Bool.true_or]
  · -- and no reserved word becomes one of them
    rintro keyword rfl
    exact hfree keyword hname

/-! ## Numbers -/

theorem exists_form_of_readInteger {i : Int64} (h : readInteger text = some i) :
    ∃ negative sign body, text = sign ++ body ∧ IsSign negative sign ∧ Form body := by
  obtain ⟨negative, sign, digits, hsign, htext, hdigits⟩ := exists_digits_of_readInteger h
  exact ⟨negative, sign, digits, htext, hsign, .number (.integer hdigits)⟩

theorem exists_form_of_readReal {x : Float} (h : readReal text = some x) :
    ∃ negative sign body, text = sign ++ body ∧ IsSign negative sign ∧ Form body := by
  obtain ⟨sign, hsign, htext⟩ := exists_isSign text
  refine ⟨_, sign, _, htext, hsign, ?_⟩
  simp only [readReal] at h
  split at h
  · next hdecimal => exact form_of_readDecimal hdecimal
  · exact form_of_readName h

end

end Numeral

/-! ## Values -/

namespace Value

open Numeral (IsSign Unsigned Form)

variable {source : String} {negative : Bool} {sign body : List Char}

/-- The texts of numbers are not those of truth values. -/
theorem ne_boolText (h : (Numeral.readInteger body).isSome ∨ (Numeral.readReal body).isSome) :
    body ≠ "true".toList ∧ body ≠ "false".toList := by
  constructor <;> rintro rfl <;> rcases h with h | h <;> cases h

/-- A text of an integer is read as that integer, blanks around it apart. -/
theorem read_integer {i : Int64} (htrim : Blank.trimList source.toList = sign ++ body)
    (hsign : IsSign negative sign) (hbody : IsDigits body)
    (hvalue : Numeral.signedInteger? negative body = some i) : read source = .ok (.integer i) := by
  have hinteger := (Numeral.readInteger_append hsign hbody).trans hvalue
  obtain ⟨htrue, hfalse⟩ := ne_boolText (.inl (Option.isSome_of_eq_some hinteger))
  simp only [read, htrim, hinteger, if_neg htrue, if_neg hfalse]

/-- A text of a real is read as that real if one of its characters is in no integer. -/
theorem read_real {x : Float} (htrim : Blank.trimList source.toList = sign ++ body)
    (hsign : IsSign negative sign) (hunsigned : Unsigned body)
    (hother : ∃ c ∈ body, c.isDigit = false ∧ c ≠ '-' ∧ c ≠ '+')
    (hvalue : ((Numeral.readDecimal body).map (Decimal.toFloat negative)).or
      (Numeral.readName negative body) = some x) : read source = .ok (.real x) := by
  have hreal := (Numeral.readReal_append hsign hunsigned).trans hvalue
  obtain ⟨c, hc, hother⟩ := hother
  have hinteger := Numeral.readInteger_eq_none (List.mem_append_right sign hc) hother
  obtain ⟨htrue, hfalse⟩ := ne_boolText (.inr (Option.isSome_of_eq_some hreal))
  simp only [read, htrim, hinteger, hreal, if_neg htrue, if_neg hfalse]

/-- What a text that is read as a value looks like without the blanks around it. -/
theorem cases_of_read {v : Value} (h : read source = .ok v) :
    (∃ b, Blank.trimList source.toList = (boolText b).toList ∧ v = .boolean b) ∨
    ∃ negative sign body, Blank.trimList source.toList = sign ++ body ∧ IsSign negative sign ∧
      Form body := by
  -- a truth value, an integer, a real: in the order they are tried
  simp only [read] at h
  split at h
  · next htrue =>
    cases h
    exact .inl ⟨true, htrue, rfl⟩
  · split at h
    · next hfalse =>
      cases h
      exact .inl ⟨false, hfalse, rfl⟩
    · split at h
      · next hinteger => exact .inr (Numeral.exists_form_of_readInteger hinteger)
      · split at h
        · next hreal => exact .inr (Numeral.exists_form_of_readReal hreal)
        · cases h

end Value

end Formula
