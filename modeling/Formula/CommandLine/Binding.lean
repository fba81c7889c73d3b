import Formula.Text.Blank
import Formula.Value.Text

/-!
# Bindings on the command line

A variable is bound by `NAME=VALUE` and declared by `NAME:TYPE`.  The first mark separates the two
parts; blanks around the name are left out, and so are those around the value or type.
-/

namespace Formula.CommandLine

/-- The parts of a text before and behind the first `mark`, if it has one. -/
def splitAtFirst (mark : Char) (text : String) : Option (String × String) :=
  match text.toList.dropWhile (· != mark) with
  | [] => none
  | _ :: behind => some (String.ofList (text.toList.takeWhile (· != mark)), String.ofList behind)

/-- Reads `NAME=VALUE`. -/
def readBinding (text : String) : Option (String × Value) :=
  match splitAtFirst '=' text with
  | none => none
  | some (name, value) =>
    match Value.read value with
    | .ok value => some (Blank.trim name, value)
    | .error _ => none

/-- Reads `NAME:TYPE`. -/
def readDeclaration (text : String) : Option (String × ValueType) :=
  match splitAtFirst ':' text with
  | none => none
  | some (name, type) =>
    match ValueType.read (Blank.trim type) with
    | .ok type => some (Blank.trim name, type)
    | .error _ => none

end Formula.CommandLine
