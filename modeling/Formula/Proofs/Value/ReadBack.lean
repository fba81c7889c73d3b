import Formula.CommandLine.Binding
import Formula.Proofs.Evaluation.Coherence
import Formula.Proofs.Value.Reading

/-!
# Values are read back from their texts

A value is read back from its text with every bit of it, the infinities and the negative zero
included, and a NaN as a NaN.  The reader tries an integer before a real.  So what carries the proof
is that the text of a real is never one of an integer: it has a point in it, or it is a name
(`Value.read_real`).

So a value that is bound to a name on the command line is the one that was written there
(`Value.read_text`).
-/

namespace Formula

namespace CommandLine

/-- A name and a value are read from a binding that gives the name the text of the value. -/
theorem readBinding_append {name written : String} {v : Value} (hmark : '=' ∉ name.toList)
    (hfirst : ∀ c, name.toList.head? = some c → Blank.isBlank c = false)
    (hlast : ∀ c, name.toList.getLast? = some c → Blank.isBlank c = false)
    (h : Value.read written = .ok v) :
    readBinding (name ++ "=" ++ written) = some (name, v) := by
  have hlist : (name ++ "=" ++ written).toList = name.toList ++ '=' :: written.toList := by simp
  have hname : ∀ c ∈ name.toList, (c != '=') = true := by
    intro c hc
    rw [bne_iff_ne]
    rintro rfl
    exact hmark hc
  -- the name ends at the first equals sign, since it has none in it
  have hstop : ∀ c, ('=' :: written.toList).head? = some c → (c != '=') = false := by
    intro c hc
    cases hc
    rfl
  obtain ⟨htake, hdrop⟩ := Cursor.stretch_append hname hstop
  have hsplit : splitAtFirst '=' (name ++ "=" ++ written) = some (name, written) := by
    simp only [splitAtFirst, hlist, htake, hdrop, String.ofList_toList]
  have htrim : Blank.trim name = name := by
    rw [Blank.trim, Blank.trimList_eq_self hfirst hlast, String.ofList_toList]
  simp only [readBinding, hsplit, h, htrim]

end CommandLine

namespace Value

variable {source : String} {negative : Bool} {body : List Char}

/-! ## Texts of values -/

/-- Values are written without blanks around them. -/
theorem trimList_of_toList_eq (hsource : source.toList = (if negative then ['-'] else []) ++ body)
    (hbody : IsLexeme body) :
    Blank.trimList source.toList = (if negative then ['-'] else []) ++ body := by
  rw [hsource, Numeral.trimList_append (Numeral.isSign_ite negative) hbody]

theorem read_text_integer (i : Int64) : read (text (.integer i)) = .ok (.integer i) := by
  obtain ⟨digits, hlist, hne, hdigits, hvalue⟩ := Numeral.exists_digits_integer i
  exact read_integer (trimList_of_toList_eq hlist (.number (.integer ⟨hne, hdigits⟩)))
    (Numeral.isSign_ite _) ⟨hne, hdigits⟩ hvalue

theorem read_text_finite {x : Float} (h : x.isFinite = true) :
    read (text (.real x)) = .ok (.real x) := by
  obtain ⟨whole, fraction, hlist, hwhole, hfraction, hwholeDigits, hfractionDigits, hvalue⟩ :=
    Layout.exists_digits_pointed h
  have hnumber : IsNumber (whole ++ '.' :: fraction) :=
    .real ⟨hwhole, hwholeDigits⟩ ⟨hfraction, hfractionDigits⟩
  refine read_real (trimList_of_toList_eq hlist (.number hnumber)) (Numeral.isSign_ite _)
    (Numeral.unsigned_of_isNumber hnumber) ⟨'.', by simp, by decide⟩ ?_
  rw [Numeral.readDecimal_real ⟨hwhole, hwholeDigits⟩ ⟨hfraction, hfractionDigits⟩, Option.map_some,
    hvalue]
  rfl

theorem read_text_infinite {x : Float} (hfinite : x.isFinite = false) (hnumber : x.isNaN = false) :
    read (text (.real x)) = .ok (.real x) := by
  obtain ⟨hx, hvalue⟩ := Binary64.ofFloat_of_infinite hfinite hnumber
  have hlist : (text (.real x)).toList =
      (if Binary64.isNegative x then ['-'] else []) ++ "inf".toList := by
    simp only [text, Layout.pointed, Layout.write, hx, String.toList_ofList]
    split <;> rfl
  have hword : IsWord "inf".toList := by simp [IsWord]
  refine read_real (trimList_of_toList_eq hlist (.word hword)) (Numeral.isSign_ite _) ?_
    ⟨'i', by simp, by decide⟩ ?_
  · intro c hc
    cases hc
    decide
  · have hname (negative : Bool) : Numeral.readName negative "inf".toList =
        some (Binary64.ofWord negative Binary64.infinityWord) := rfl
    -- no decimal, but one of the names
    have hdecimal : Numeral.readDecimal "inf".toList = none := rfl
    rw [hdecimal, hname, hvalue]
    rfl

theorem read_text_nan {x : Float} (h : x.isNaN = true) :
    read (text (.real x)) = .ok (.real Binary64.notANumber) := by
  have htext : text (.real x) = "NaN" := by
    simp [text, Layout.pointed, Layout.write, Binary64.ofFloat_of_isNaN h]
  have htrim : Blank.trimList "NaN".toList = [] ++ "NaN".toList := rfl
  rw [htext]
  refine read_real htrim .none ?_ ⟨'N', by simp, by decide⟩ rfl
  intro c hc
  cases hc
  decide

/-- Every value is read back from its text, bit for bit, except that a NaN is read back as some NaN.
    So is the value in a binding, with its name, if that has no equals sign and no blank around
    it. -/
theorem read_text (v : Value) :
    (v.isNaN = false → read v.text = .ok v) ∧
    (v.isNaN = true → ∃ w : Value, w.isNaN = true ∧ read v.text = .ok w) ∧
    ∀ name : String, '=' ∉ name.toList →
      (∀ c, name.toList.head? = some c → Blank.isBlank c = false) →
      (∀ c, name.toList.getLast? = some c → Blank.isBlank c = false) →
      v.isNaN = false → CommandLine.readBinding (name ++ "=" ++ v.text) = some (name, v) := by
  have hread : v.isNaN = false → read v.text = .ok v := by
    intro hnumber
    cases v with
    | integer i => exact read_text_integer i
    | real x =>
      cases hfinite : x.isFinite with
      | true => exact read_text_finite hfinite
      | false => exact read_text_infinite hfinite hnumber
    | boolean b => cases b <;> rfl
  refine ⟨hread, fun hnan => ?_, fun name hmark hfirst hlast hnumber =>
    CommandLine.readBinding_append hmark hfirst hlast (hread hnumber)⟩
  -- only a real can be not a number, and one is read back
  cases v with
  | real x => exact ⟨.real Binary64.notANumber, rfl, read_text_nan hnan⟩
  | integer | boolean => cases hnan

/-- The negative zero keeps its sign. -/
theorem read_text_negative_zero :
    let zero : Value := .real (Float.ofBits 0x8000000000000000)
    zero.text = "-0.0" ∧ read "-0.0" = .ok zero ∧
      CommandLine.readBinding "x=-0.0" = some ("x", zero) ∧
      ∃ w : Value, w.isNaN = true ∧ read "NaN" = .ok w := by
  intro zero
  have htext : zero.text = "-0.0" := by decide +kernel
  obtain ⟨hread, -, hbinding⟩ := read_text zero
  rw [htext] at hread hbinding
  have hnan : (Value.real Binary64.notANumber).text = "NaN" := by decide +kernel
  have hnan' := (read_text (.real Binary64.notANumber)).2.1 rfl
  rw [hnan] at hnan'
  exact ⟨htext, hread rfl, hbinding "x" (by decide) (by simp; decide) (by simp; decide) rfl, hnan'⟩

end Value

end Formula
