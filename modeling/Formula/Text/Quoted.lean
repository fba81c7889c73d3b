import Formula.Text.Printable

/-!
# Quoted texts

`Quoted.quote` writes a text between double quotes so that it fits on one line and every character
of it can be seen: quotes and backslashes get a backslash, the usual control characters their
letter, and all other hidden characters their code point.
-/

namespace Formula.Quoted

/-- What stands for one character between the quotes. -/
def escape (c : Char) : List Char :=
  if c = '"' ∨ c = '\\' then ['\\', c]
  else if c = '\t' then ['\\', 't']
  else if c = '\r' then ['\\', 'r']
  else if c = '\n' then ['\\', 'n']
  else if c.toNat = 0 then ['\\', '0']
  else if Printable.isPrintable c then [c]
  else "\\u\x7b".toList ++ Nat.toDigits 16 c.toNat ++ ['\x7d']

/-- A text between double quotes. -/
def quote (text : String) : String :=
  String.ofList ('"' :: text.toList.flatMap escape ++ ['"'])

end Formula.Quoted
