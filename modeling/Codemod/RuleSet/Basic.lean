import Codemod.Rule.Pipeline

/-!
Rule sets: renamings as an author writes them down, each under an id of its own.
-/

set_option autoImplicit false

namespace Codemod

open Codemod.Tree (DeclKind)

inductive RuleType where
  /-- Of every identifier. -/
  | renameIdent
  /-- Of declarations at the level of items. -/
  | renameDecl
deriving DecidableEq, Repr

namespace RuleType

def name : RuleType → String
  | renameIdent => "rename-ident"
  | renameDecl => "rename-decl"

def ofName? : String → Option RuleType
  | "rename-ident" => some renameIdent
  | "rename-decl" => some renameDecl
  | _ => none

theorem ofName?_name (type : RuleType) : ofName? type.name = some type := by
  cases type <;> rfl

end RuleType

structure RuleEntry where
  id : String
  type : RuleType
  old : String
  new : String
  /-- The kind of declarations to rename, as it is written. -/
  kind : Option String
deriving DecidableEq, Repr

namespace RuleEntry

def reach (entry : RuleEntry) : Reach :=
  match entry.type with
  | .renameIdent => .everywhere
  | .renameDecl => .declarations (entry.kind.bind DeclKind.ofName?)

def toRenaming (entry : RuleEntry) : Except RuleError Renaming :=
  (Renaming.make entry.old entry.new entry.reach).map fun rule => rule.named entry.id

end RuleEntry

structure RuleSet where
  name : String
  description : Option String
  entries : List RuleEntry
deriving DecidableEq, Repr

namespace RuleSet

/-- The renamings of all entries, in order. -/
def pipeline (rules : RuleSet) : Except RuleError Pipeline :=
  rules.entries.mapM fun entry => entry.toRenaming.map Rule.rename

end RuleSet

end Codemod
