import Formula.Mismatch

/-!
# Why an expression has no type
-/

namespace Formula

/-- Why an expression has no type. -/
inductive TypeError where
  | mismatch (mismatch : Mismatch)
  | undeclaredVariable (name : String)
  | incompatibleBranches (whenTrue whenFalse : ValueType)
  | depthLimitExceeded (limit : Nat)
deriving DecidableEq

namespace TypeError

/-- The message of a type error. -/
def message : TypeError → String
  | .mismatch m => m.message
  | .undeclaredVariable name => "Variable " ++ name ++ " has no declared type"
  | .incompatibleBranches whenTrue whenFalse =>
    "Conditional branches have incompatible types " ++ whenTrue.name ++ " and " ++ whenFalse.name
  | .depthLimitExceeded limit =>
    "Expression exceeds the maximum checking depth of " ++ toString limit

end TypeError

end Formula
