import Mathlib

/-! # Names shared by the provisioning modules

`src/provision/types.ts` and the name rules of `src/provision/manifest.ts`. -/

namespace CliProxy.Provision

/-- `type/name`, the key of an item in the manifest and in the lockfile. -/
structure Key where
  type : String
  name : String
  deriving DecidableEq, Repr

instance : ToString Key := ⟨fun key => s!"{key.type}/{key.name}"⟩

def isLowerAlnum (c : Char) : Bool := ('a' ≤ c && c ≤ 'z') || ('0' ≤ c && c ≤ '9')

/-- `NAME_PATTERN`, `/^[a-z0-9][a-z0-9_-]{0,63}$/`. -/
def isValidItemName (name : String) : Bool :=
  match name.toList with
  | [] => false
  | c :: rest =>
    isLowerAlnum c && decide (rest.length ≤ 63) &&
      rest.all fun c => isLowerAlnum c || c == '_' || c == '-'

example : isValidItemName "code-review_2" = true := by decide

example : isValidItemName "Code" = false := by decide

end CliProxy.Provision
