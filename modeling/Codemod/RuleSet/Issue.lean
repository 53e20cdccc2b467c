import Codemod.RuleSet.Basic
import Codemod.Text.Blank

/-!
What may be wrong with a rule set. All issues are reported, entry by entry, and each entry is
judged by itself but for its id, which no entry before it may have.
-/

set_option autoImplicit false

namespace Codemod

open Codemod.Tree (DeclKind)

/-- The parts of an entry that may not be blank. -/
inductive EntryField where
  | id
  | old
  | new
deriving DecidableEq, Repr

def EntryField.name : EntryField → String
  | id => "id"
  | old => "from"
  | new => "to"

/-- Why an entry makes no sense. -/
inductive Misfit where
  /-- One of its names is none. -/
  | invalidName (error : RuleError)
  /-- It renames a name to itself. -/
  | sameName (name : String)
  /-- It asks for a kind of declaration but renames all identifiers. -/
  | misplacedKind
  /-- It asks for a kind of declaration that does not exist. -/
  | unknownKind (kind : String)
deriving DecidableEq

def Misfit.message : Misfit → String
  | invalidName error => error.message
  | sameName name => s!"'from' and 'to' are both '{name}'"
  | misplacedKind => "'kind' only applies to rename-decl rules"
  | unknownKind kind => s!"unknown declaration kind '{kind}'"

/-- An issue of a rule set. Entries are named by their id unless it is blank. -/
inductive Issue where
  | noEntries
  | missing (rule : Option String) (field : EntryField)
  | duplicateId (rule : String)
  | misfit (rule : Option String) (why : Misfit)
deriving DecidableEq

def Issue.message : Issue → String
  | noEntries => "rule config contains no rules"
  | missing (some rule) field => s!"rule '{rule}' missing required field '{field.name}'"
  | missing none field => s!"rule missing required field '{field.name}'"
  | duplicateId rule => s!"rule id '{rule}' is used more than once"
  | misfit (some rule) why => s!"rule '{rule}' has invalid configuration: {why.message}"
  | misfit none why => s!"invalid rule configuration: {why.message}"

def isBlank (text : String) : Bool := (Text.trim text).isEmpty

namespace RuleEntry

def label (entry : RuleEntry) : Option String :=
  if isBlank entry.id then none else some entry.id

def idIssues (earlier : List String) (entry : RuleEntry) : List Issue :=
  if isBlank entry.id then [.missing none .id]
  else if earlier.contains entry.id then [.duplicateId entry.id]
  else []

def nameIssues (entry : RuleEntry) (field : EntryField) (text : String) : List Issue :=
  if isBlank text then [.missing entry.label field]
  else
    match Renaming.checkName text with
    | .ok () => []
    | .error error => [.misfit entry.label (.invalidName error)]

def sameNameIssues (entry : RuleEntry) : List Issue :=
  if entry.old ≠ "" ∧ entry.old = entry.new then
    [.misfit entry.label (.sameName entry.old)]
  else []

def kindIssues (entry : RuleEntry) : List Issue :=
  match entry.type, entry.kind with
  | .renameIdent, some _ => [.misfit entry.label .misplacedKind]
  | .renameDecl, some kind =>
      if (DeclKind.ofName? kind).isNone then [.misfit entry.label (.unknownKind kind)] else []
  | _, none => []

/-- All issues of an entry, given the ids before it. -/
def issues (earlier : List String) (entry : RuleEntry) : List Issue :=
  entry.idIssues earlier ++ entry.nameIssues .old entry.old ++ entry.nameIssues .new entry.new ++
    entry.sameNameIssues ++ entry.kindIssues

end RuleEntry

def entryIssues : (earlier : List String) → List RuleEntry → List Issue
  | _, [] => []
  | earlier, entry :: rest =>
      entry.issues earlier ++ entryIssues (earlier ++ [entry.id]) rest

def RuleSet.issues (rules : RuleSet) : List Issue :=
  (if rules.entries.isEmpty then [.noEntries] else []) ++ entryIssues [] rules.entries

end Codemod
