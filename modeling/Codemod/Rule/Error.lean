import Codemod.Name.Check
import Codemod.Tree.DeclKind

/-!
Why a rule cannot be made or applied.
-/

set_option autoImplicit false

namespace Codemod

open Codemod.Tree (DeclKind)

inductive RuleError where
  /-- A name is none. -/
  | invalidIdentifier (name : String) (flaw : Name.Flaw)
  /-- The old and the new name are the same. -/
  | sameName (name : String)
  /-- A declaration of the new name is in the way. -/
  | nameCollision (old new : String) (kind : DeclKind) (line : Nat)
  /-- The rule says so itself. -/
  | failed (message : String)
deriving DecidableEq

def RuleError.message : RuleError → String
  | invalidIdentifier name flaw => s!"'{name}' is not a valid identifier: {flaw.message}"
  | sameName name => s!"cannot rename '{name}' to itself"
  | nameCollision old new kind line =>
      s!"renaming '{old}' to '{new}' collides with {kind.name} '{new}' declared at line {line}"
  | failed message => message

end Codemod
