import Formula.Number.Layout
import Formula.Number.Numeral
import Formula.Text.Blank
import Formula.Text.Outline
import Formula.Value.Basic

/-!
# Values as text

`Value.text` writes a value and `Value.read` reads one; a real is always written with a point or a
name, so that it is never read back as an integer.  `ValueType.read` reads the name of a type.
-/

namespace Formula

/-- Why a text is not read as a value or as a type. -/
inductive ReadError where
  | invalidValue (text : String)
  | unknownType (name : String)
deriving DecidableEq

namespace ReadError

/-- The message of a read error. -/
def message : ReadError → String
  | .invalidValue text => "Cannot read '" ++ text ++ "' as a value"
  | .unknownType name => "Unknown type '" ++ name ++ "', expected Integer, Real or Boolean"

end ReadError

namespace ValueType

/-- The type with the given name or short name, whatever the case of its ASCII letters. -/
def read (text : String) : Except ReadError ValueType :=
  let name := text.toLower
  if name = "integer" ∨ name = "int" then .ok .integer
  else if name = "real" then .ok .real
  else if name = "boolean" ∨ name = "bool" then .ok .boolean
  else .error (.unknownType text)

end ValueType

namespace Value

/-- The text of a truth value. -/
def boolText (b : Bool) : String :=
  if b then "true" else "false"

/-- The text of a value. -/
def text : Value → String
  | .integer i => toString i.toInt
  | .real x => Layout.pointed x
  | .boolean b => boolText b

/-- The value written by a text, blanks around it apart: a truth value, or else an integer if it
    has 64 bits, or else a real. -/
def read (text : String) : Except ReadError Value :=
  let body := Blank.trimList text.toList
  if body = "true".toList then .ok (.boolean true)
  else if body = "false".toList then .ok (.boolean false)
  else
    match Numeral.readInteger body with
    | some i => .ok (.integer i)
    | none =>
      match Numeral.readReal body with
      | some x => .ok (.real x)
      | none => .error (.invalidValue text)

/-- The type and the content of a value. -/
def outline : Value → Outline
  | .integer i => .wrapped "Integer" (.leaf (toString i.toInt))
  | .real x => .wrapped "Real" (.leaf (Layout.scaled x))
  | .boolean b => .wrapped "Boolean" (.leaf (boolText b))

end Value

end Formula
