import Formula.Proofs.Token.LongestMatch

/-!
# Character boundaries

Positions count bytes, and a text may have characters of several bytes.  `IsBoundary` says that a
position is not inside such a character, and `IsCut` that a text is what a source has between two
positions, in terms of the bytes of the source.  What a cursor passes over is always such a cut
(`Cursor.Passes.isCut`).
-/

namespace Formula

/-- Whether a byte offset is inside a source or at its end, and not inside a character. -/
def IsBoundary (source : String) (position : Nat) : Prop :=
  String.Pos.Raw.IsValid source ⟨position⟩

/-- Whether the bytes of a source from `start` up to but not including `stop` are those of a text,
    and no character is cut in two there. -/
structure IsCut (source : String) (start stop : Nat) (text : String) : Prop where
  start_le_stop : start ≤ stop
  start_isBoundary : IsBoundary source start
  stop_isBoundary : IsBoundary source stop
  bytes : source.toByteArray.extract start stop = text.toByteArray

theorem Cursor.byteLength_eq_utf8ByteSize (text : List Char) :
    byteLength text = (String.ofList text).utf8ByteSize := by
  induction text with
  | nil => rfl
  | cons c rest ih =>
    have hcons : String.ofList (c :: rest) = String.ofList [c] ++ String.ofList rest := by
      rw [← String.ofList_append, List.singleton_append]
    rw [byteLength, ih, hcons, String.utf8ByteSize_append, ← String.singleton_eq_ofList,
      String.utf8ByteSize_singleton]

variable {source : String}

theorem isBoundary_iff {position : Nat} :
    IsBoundary source position ↔
      ∃ before after, source.toList = before ++ after ∧ position = Cursor.byteLength before := by
  rw [IsBoundary, String.Pos.Raw.isValid_iff_exists_append]
  constructor
  · rintro ⟨before, after, rfl, hposition⟩
    refine ⟨before.toList, after.toList, String.toList_append, ?_⟩
    rw [Cursor.byteLength_eq_utf8ByteSize, String.ofList_toList]
    exact congrArg String.Pos.Raw.byteIdx hposition
  · rintro ⟨before, after, hsource, rfl⟩
    refine ⟨String.ofList before, String.ofList after, ?_, ?_⟩
    · rw [← String.ofList_append, ← hsource, String.ofList_toList]
    · rw [Cursor.byteLength_eq_utf8ByteSize]
      rfl

theorem IsBoundary.le_utf8ByteSize {position : Nat} (h : IsBoundary source position) :
    position ≤ source.utf8ByteSize :=
  String.Pos.Raw.IsValid.le_utf8ByteSize h

/-- A slice in terms of characters is one in terms of bytes. -/
theorem IsSlice.isCut {start stop : Nat} {text : List Char}
    (h : IsSlice source.toList start stop text) : IsCut source start stop (String.ofList text) := by
  obtain ⟨before, after, hsource, rfl, rfl⟩ := h
  refine ⟨Nat.le_add_right _ _, ?_, ?_, ?_⟩
  · -- whole characters stand before both ends
    exact isBoundary_iff.mpr ⟨before, text ++ after, hsource, rfl⟩
  · refine isBoundary_iff.mpr ⟨before ++ text, after, ?_, (Cursor.byteLength_append _ _).symm⟩
    rw [hsource, List.append_assoc]
  · have hstring :
        source = String.ofList before ++ (String.ofList text ++ String.ofList after) := by
      rw [← String.ofList_append, ← String.ofList_append, ← hsource, String.ofList_toList]
    have hbefore : Cursor.byteLength before = (String.ofList before).toByteArray.size :=
      Cursor.byteLength_eq_utf8ByteSize before
    have htext : Cursor.byteLength text = (String.ofList text).toByteArray.size :=
      Cursor.byteLength_eq_utf8ByteSize text
    -- first leave out the bytes before the text, then the ones behind it
    have hskip := ByteArray.extract_append_size_add (a := (String.ofList before).toByteArray)
      (b := (String.ofList text).toByteArray ++ (String.ofList after).toByteArray) (i := 0)
      (j := (String.ofList text).toByteArray.size)
    rw [hstring, String.toByteArray_append, String.toByteArray_append, hbefore, htext]
    exact hskip.trans (ByteArray.extract_append_eq_left rfl)

namespace Cursor.Passes

variable {c after : Cursor} {passed text : List Char}

/-- A cursor on its way through a source is between two characters. -/
theorem isBoundary (h : (ofSource source).Passes passed c) : IsBoundary source c.position := by
  refine isBoundary_iff.mpr ⟨passed, c.rest, h.rest, ?_⟩
  rw [h.position, ofSource, Nat.zero_add]

/-- What a cursor passes over is cut out of its source. -/
theorem isCut (hc : (ofSource source).Passes passed c) (h : c.Passes text after) :
    IsCut source c.position after.position (String.ofList text) :=
  (hc.isSlice h).isCut

/-- So is the character that it stands before. -/
theorem isCut_head {first : Char} {rest : List Char} (hc : (ofSource source).Passes passed c)
    (hrest : c.rest = first :: rest) :
    IsCut source c.position (c.position + first.utf8Size) (String.singleton first) := by
  have hone : c.Passes [first] ⟨c.position + first.utf8Size, rest⟩ := ⟨hrest, rfl⟩
  rw [String.singleton_eq_ofList]
  exact hc.isCut hone

end Cursor.Passes

end Formula
