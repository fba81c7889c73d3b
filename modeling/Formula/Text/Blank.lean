/-!
# Blank space around a text

`Blank.isBlank` holds of the characters with the Unicode property `White_Space`, and `Blank.trim`
removes them from both ends of a text.
-/

namespace Formula.Blank

/-- The characters that Unicode counts as white space. -/
def isBlank (c : Char) : Bool :=
  let code := c.toNat
  (0x09 ≤ code && code ≤ 0x0D) || code == 0x20 || code == 0x85 || code == 0xA0 ||
    code == 0x1680 || (0x2000 ≤ code && code ≤ 0x200A) || code == 0x2028 || code == 0x2029 ||
    code == 0x202F || code == 0x205F || code == 0x3000

/-- A text without the blanks at its start and at its end. -/
def trimList (text : List Char) : List Char :=
  ((text.dropWhile isBlank).reverse.dropWhile isBlank).reverse

/-- A text without the blanks at its start and at its end. -/
def trim (text : String) : String :=
  String.ofList (trimList text.toList)

end Formula.Blank
