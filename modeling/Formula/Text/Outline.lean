/-!
# Outlines of structured values

An `Outline` is the shape of a value as it is shown to a reader who wants to see every part of it:
named records with named fields down to the leaves.  `Outline.oneLine` writes it on one line and
`Outline.indented` writes every part on a line of its own.
-/

namespace Formula

/-- A value as a tree of named parts. -/
inductive Outline where
  /-- A part without parts of its own. -/
  | leaf (text : String)
  /-- A name around one part. -/
  | wrapped (name : String) (inner : Outline)
  /-- A name with named fields. -/
  | record (name : String) (fields : List (String × Outline))

namespace Outline

mutual

/-- An outline on one line. -/
def oneLine : Outline → String
  | .leaf text => text
  | .wrapped name inner => name ++ "(" ++ inner.oneLine ++ ")"
  | .record name fields => name ++ " \x7b " ++ oneLineFields fields ++ " \x7d"

/-- Fields on one line. -/
def oneLineFields : List (String × Outline) → String
  | [] => ""
  | [(name, value)] => name ++ ": " ++ value.oneLine
  | (name, value) :: rest => name ++ ": " ++ value.oneLine ++ ", " ++ oneLineFields rest

end

/-- The start of a line `level` steps in. -/
def margin (level : Nat) : String :=
  String.ofList (List.replicate (4 * level) ' ')

mutual

/-- Appends an outline with one part per line to a text whose last line stands `level` steps in. -/
def indentedOnto (level : Nat) (written : String) : Outline → String
  | .leaf text => written ++ text
  | .wrapped name inner =>
    inner.indentedOnto (level + 1) (written ++ name ++ "(\n" ++ margin (level + 1)) ++
      ",\n" ++ margin level ++ ")"
  | .record name fields =>
    indentedFieldsOnto (level + 1) (written ++ name ++ " \x7b\n") fields ++ margin level ++ "\x7d"

/-- Appends fields, each of which starts on a line of its own, to a text that ends with a line. -/
def indentedFieldsOnto (level : Nat) (written : String) : List (String × Outline) → String
  | [] => written
  | (name, value) :: rest =>
    let field := value.indentedOnto level (written ++ margin level ++ name ++ ": ")
    indentedFieldsOnto level (field ++ ",\n") rest

end

/-- An outline with one part per line, without a line end after the last. -/
def indented (outline : Outline) : String :=
  outline.indentedOnto 0 ""

end Outline

end Formula
