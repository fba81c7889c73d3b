import Formula.Token.Scanner
import Formula.Proofs.Token.Places

/-!
# The bytes of characters

A character from 128 on takes several bytes, and none of them is the byte of an ASCII character.  So
a property of ASCII characters can be looked for byte by byte (`Agrees`): its bytes stand where its
characters do, and a stretch of such bytes is a stretch of such characters
(`Agrees.length_takeWhile`).  The marks can be looked for in the same way
(`Scanner.mark?_eq_ofText?`).
-/

namespace Formula

open String (utf8EncodeChar)

/-! ## The bytes of a character -/

theorem utf8EncodeChar_of_lt {c : Char} (h : c.toNat < 128) : utf8EncodeChar c = [c.toUInt8] := by
  have hval : c.val.toNat ≤ 127 := Nat.le_of_lt_succ h
  simp only [utf8EncodeChar, if_pos hval]
  rfl

theorem toNat_toUInt8_of_lt {c : Char} (h : c.toNat < 128) : c.toUInt8.toNat = c.toNat := by
  show c.val.toUInt8.toNat = c.val.toNat
  rw [UInt32.toNat_toUInt8]
  exact Nat.mod_eq_of_lt (Nat.lt_trans h (by decide))

theorem toNat_ofUInt8 (byte : UInt8) : (Char.ofUInt8 byte).toNat = byte.toNat := by
  simp [Char.ofUInt8]

theorem ofUInt8_toUInt8 {c : Char} (h : c.toNat < 128) : Char.ofUInt8 c.toUInt8 = c :=
  Char.toNat_inj.mp ((toNat_ofUInt8 c.toUInt8).trans (toNat_toUInt8_of_lt h))

/-- No byte of a longer character is ASCII. -/
theorem le_of_mem_utf8EncodeChar {c : Char} (h : 128 ≤ c.toNat) {byte : UInt8}
    (hmem : byte ∈ utf8EncodeChar c) : 128 ≤ byte.toNat := by
  have hval : ¬ c.val.toNat ≤ 127 := Nat.not_le.mpr h
  -- two, three or four bytes, each with its upper bit set
  simp only [utf8EncodeChar, if_neg hval] at hmem
  split at hmem
  · simp only [List.mem_cons, List.not_mem_nil, or_false] at hmem
    rcases hmem with rfl | rfl <;> simp <;> omega
  · split at hmem
    · simp only [List.mem_cons, List.not_mem_nil, or_false] at hmem
      rcases hmem with rfl | rfl | rfl <;> simp <;> omega
    · simp only [List.mem_cons, List.not_mem_nil, or_false] at hmem
      rcases hmem with rfl | rfl | rfl | rfl <;> simp <;> omega

theorem length_flatMap_utf8EncodeChar (text : List Char) :
    (text.flatMap utf8EncodeChar).length = Cursor.byteLength text := by
  induction text with
  | nil => rfl
  | cons c rest ih =>
    rw [List.flatMap_cons, List.length_append, String.length_utf8EncodeChar, ih, Cursor.byteLength]

theorem toList_data_toByteArray (source : String) :
    source.toByteArray.data.toList = source.toList.flatMap utf8EncodeChar := by
  rw [← String.utf8Encode_toList, List.utf8Encode, List.data_toByteArray]

/-- Whether a property of bytes is one of ASCII characters: their bytes have it where they have it,
    and no other byte or character has it. -/
structure Agrees (p : UInt8 → Bool) (q : Char → Bool) : Prop where
  ascii : ∀ c : Char, c.toNat < 128 → p c.toUInt8 = q c
  byte : ∀ byte : UInt8, 128 ≤ byte.toNat → p byte = false
  char : ∀ c : Char, 128 ≤ c.toNat → q c = false

namespace Agrees

/-- A property of bytes is settled by going through all of them. -/
theorem of_forall {p : UInt8 → Bool} {q : Char → Bool}
    (hascii : ∀ n : Fin 128, p (UInt8.ofNat n) = q (Char.ofNat n))
    (hbyte : ∀ n : Fin 128, p (UInt8.ofNat (128 + n)) = false)
    (hchar : ∀ c : Char, 128 ≤ c.toNat → q c = false) : Agrees p q where
  ascii := by
    intro c hc
    have hc := hascii ⟨c.toNat, hc⟩
    rwa [Char.ofNat_toNat] at hc
  byte := by
    intro byte hle
    have hlt := byte.toNat_lt
    have hbyte := hbyte ⟨byte.toNat - 128, by omega⟩
    rwa [Nat.add_sub_cancel' hle, UInt8.ofNat_toNat] at hbyte
  char := hchar

theorem isDigit : Agrees Scanner.isDigit Char.isDigit := by
  refine of_forall (by decide) (by decide) fun c h => ?_
  have hval : 128 ≤ c.val.toNat := h
  simp [Char.isDigit, UInt32.le_iff_toNat_le]
  omega

theorem isWordStart : Agrees Scanner.isWordStart Cursor.isWordStart := by
  refine of_forall (by decide) (by decide) fun c h => ?_
  have hval : 128 ≤ c.val.toNat := h
  simp [Cursor.isWordStart, Char.isAlpha, Char.isLower, Char.isUpper, UInt32.le_iff_toNat_le,
    Char.ext_iff, ← UInt32.toNat_inj]
  omega

theorem isWordPart : Agrees Scanner.isWordPart Cursor.isWordPart := by
  refine of_forall (by decide) (by decide) fun c h => ?_
  rw [Cursor.isWordPart, Char.isAlphanum, Bool.or_right_comm, isDigit.char c h, Bool.or_false]
  exact isWordStart.char c h

theorem isBlank : Agrees Scanner.isBlank Cursor.isBlank := by
  refine of_forall (by decide) (by decide) fun c h => ?_
  have hval : 128 ≤ c.val.toNat := h
  simp [Cursor.isBlank, Char.ext_iff, ← UInt32.toNat_inj]
  omega

theorem eq_of_lt (k : Char) (hk : k.toNat < 128) : Agrees (· == k.toUInt8) (· == k) where
  ascii := by
    intro c hc
    rw [Bool.eq_iff_iff, beq_iff_eq, beq_iff_eq, ← UInt8.toNat_inj, toNat_toUInt8_of_lt hc,
      toNat_toUInt8_of_lt hk, Char.toNat_inj]
  byte := by
    intro byte hle
    rw [beq_eq_false_iff_ne]
    rintro rfl
    rw [toNat_toUInt8_of_lt hk] at hle
    omega
  char := by
    intro c hle
    rw [beq_eq_false_iff_ne]
    rintro rfl
    omega

variable {p : UInt8 → Bool} {q : Char → Bool}

/-- The first byte of a character has the property if the character has. -/
theorem exists_first (h : Agrees p q) (c : Char) :
    ∃ byte more, utf8EncodeChar c = byte :: more ∧ p byte = q c := by
  rcases Nat.lt_or_ge c.toNat 128 with hc | hc
  · exact ⟨_, [], utf8EncodeChar_of_lt hc, h.ascii c hc⟩
  · cases hbytes : utf8EncodeChar c with
    | nil => exact absurd hbytes String.utf8EncodeChar_ne_nil
    | cons byte more =>
      have hbyte := le_of_mem_utf8EncodeChar hc (hbytes ▸ List.mem_cons_self)
      exact ⟨byte, more, rfl, (h.byte byte hbyte).trans (h.char c hc).symm⟩

/-- A character with the property is one byte. -/
theorem utf8EncodeChar_eq (h : Agrees p q) {c : Char} (hc : q c = true) :
    utf8EncodeChar c = [c.toUInt8] := by
  rcases Nat.lt_or_ge c.toNat 128 with hlt | hle
  · exact utf8EncodeChar_of_lt hlt
  · rw [h.char c hle] at hc
    cases hc

theorem utf8Size_eq_one (h : Agrees p q) {c : Char} (hc : q c = true) : c.utf8Size = 1 := by
  rw [← String.length_utf8EncodeChar, h.utf8EncodeChar_eq hc]
  rfl

/-- No byte of a character without the property has it. -/
theorem eq_false_of_mem (h : Agrees p q) {c : Char} (hc : q c = false) {byte : UInt8}
    (hmem : byte ∈ utf8EncodeChar c) : p byte = false := by
  rcases Nat.lt_or_ge c.toNat 128 with hlt | hle
  · rw [utf8EncodeChar_of_lt hlt, List.mem_singleton] at hmem
    rw [hmem, h.ascii c hlt, hc]
  · exact h.byte byte (le_of_mem_utf8EncodeChar hle hmem)

/-- A stretch of characters takes the bytes of the stretch. -/
theorem length_takeWhile (h : Agrees p q) (text : List Char) :
    ((text.flatMap utf8EncodeChar).takeWhile p).length =
      Cursor.byteLength (text.takeWhile q) := by
  -- on the text: what is taken has one byte, and the first byte of another character ends it
  induction text with
  | nil => rfl
  | cons c rest ih =>
    cases hc : q c with
    | true =>
      have hp : p c.toUInt8 = true := by
        obtain ⟨byte, more, hbytes, hbyte⟩ := h.exists_first c
        rw [h.utf8EncodeChar_eq hc] at hbytes
        cases hbytes
        exact hbyte.trans hc
      rw [List.flatMap_cons, h.utf8EncodeChar_eq hc, List.singleton_append,
        List.takeWhile_cons_of_pos hp, List.takeWhile_cons_of_pos hc, List.length_cons, ih,
        Cursor.byteLength, h.utf8Size_eq_one hc, Nat.add_comm]
    | false =>
      obtain ⟨byte, more, hbytes, hbyte⟩ := h.exists_first c
      have hp : ¬ p byte = true := by rw [hbyte, hc]; exact Bool.false_ne_true
      rw [List.flatMap_cons, hbytes, List.cons_append, List.takeWhile_cons_of_neg hp,
        List.takeWhile_cons_of_neg (by rw [hc]; exact Bool.false_ne_true)]
      rfl

end Agrees

/-! ## Marks -/

/-- No character from 128 on starts a mark. -/
theorem Mark.ofText?_eq_none {c : Char} (h : 128 ≤ c.toNat) (rest : List Char) :
    ofText? (c :: rest) = none := by
  rw [Option.eq_none_iff_forall_ne_some]
  intro mark hmark
  have hinitial := prefix_of_ofText? hmark
  cases mark <;>
  · obtain ⟨rfl, -⟩ := List.cons_prefix_cons.mp hinitial
    exact absurd h (by decide)

/-- Which mark a byte starts depends on the byte behind it as it does on the character there. -/
theorem Scanner.mark?_eq_ofText? {byte : UInt8} {ahead? : Option UInt8} {rest : List Char}
    (h : (ahead? == some '='.toUInt8) = (rest.head? == some '=')) :
    mark? byte ahead? = Mark.ofText? (Char.ofUInt8 byte :: rest) := by
  unfold mark?
  rw [h]
  generalize Char.ofUInt8 byte = c
  dsimp only
  -- a mark has one character or two, and the second one is always `=`
  cases rest with
  | nil => split <;> first | rfl | simp_all [Mark.ofText?]
  | cons second rest =>
    by_cases hsecond : second = '='
    · subst hsecond
      split <;> first | rfl | simp_all [Mark.ofText?]
    · rw [List.head?_cons, Option.some_beq_some, beq_eq_false_iff_ne.mpr hsecond]
      split <;> simp_all [Mark.ofText?]

/-- No byte from 128 on starts one either. -/
theorem Scanner.mark?_eq_none {byte : UInt8} (h : 128 ≤ byte.toNat) (ahead? : Option UInt8) :
    mark? byte ahead? = none := by
  obtain ⟨rest, hrest⟩ : ∃ rest : List Char,
      (ahead? == some '='.toUInt8) = (rest.head? == some '=') := by
    cases ahead? == some '='.toUInt8 with
    | true => exact ⟨['='], rfl⟩
    | false => exact ⟨[], rfl⟩
  have hchar : 128 ≤ (Char.ofUInt8 byte).toNat := (toNat_ofUInt8 byte).symm ▸ h
  rw [mark?_eq_ofText? hrest, Mark.ofText?_eq_none hchar]

end Formula
