import Codemod.RuleSet.Basic
import Codemod.Text.Shortest
import Codemod.Toml.Document

/-!
Rule sets as TOML documents.

A document has a table `meta` and an array `rules`. Where a table with fixed entries is expected,
an array of their values in order will do. Entries nobody asks for are passed over, and of several
faults the first in the document is told.
-/

set_option autoImplicit false

namespace Codemod.RuleSet

open Codemod.Toml (Fault Span Value)

/-! ### Values that do not fit -/

def describe : Value → String
  | .string text => s!"string {Text.quote text}"
  | .integer value => s!"integer `{value}`"
  | .float value => s!"floating point `{Text.shortest value}`"
  | .boolean value => s!"boolean `{value}`"
  | .array _ => "sequence"
  | .table _ => "map"
  | .datetime => "map"

def mismatch {α : Type} (expected : String) (span : Span) (value : Value) : Except Fault α :=
  .error ⟨span, s!"invalid type: {describe value}, expected {expected}"⟩

def decodeText : Span × Value → Except Fault String
  | (_, .string text) => .ok text
  | (span, value) => mismatch "a string" span value

/-- The entries of a table with the given names, or of an array in their order. A date or time
counts as a table without any of them. -/
def decodeFields (names : List String) (expected : String) :
    Span × Value → Except Fault (List (String × Span × Value))
  | (_, .table entries) => .ok entries
  | (_, .array items) => .ok (names.zip items)
  | (_, .datetime) => .ok []
  | (span, value) => mismatch expected span value

/-! ### The head of a rule set -/

def addHeadField (head : String × Option String) (entry : String × Span × Value) :
    Except Fault (String × Option String) :=
  match entry.1 with
  | "name" => do return (← decodeText entry.2, head.2)
  | "description" => do return (head.1, some (← decodeText entry.2))
  | _ => .ok head

def decodeHead (value : Span × Value) : Except Fault (String × Option String) := do
  let entries ← decodeFields ["name", "description"] "struct Metadata" value
  entries.foldlM addHeadField ("", none)

/-! ### Entries -/

def typeNamed (span : Span) (text : String) : Except Fault RuleType :=
  match RuleType.ofName? text with
  | some type => .ok type
  | none =>
      .error ⟨span,
        s!"unknown variant `{text}`, expected `{RuleType.renameIdent.name}` or " ++
          s!"`{RuleType.renameDecl.name}`"⟩

def expectEmpty : Span × Value → Except Fault Unit
  | (_, .array []) => .ok ()
  | (_, .table []) => .ok ()
  | (span, .array _) => .error ⟨span, "expected empty table"⟩
  | (span, .table _) => .error ⟨span, "expected empty table"⟩
  | (span, value) => .error ⟨span, s!"expected table, found {value.typeName}"⟩

/-- A type, as a text or as the only key of a table. -/
def decodeType : Span × Value → Except Fault RuleType
  | (span, .string text) => typeNamed span text
  | (_, .table [(key, span, content)]) => do
      let type ← typeNamed span key
      expectEmpty (span, content)
      return type
  | (span, .table []) => .error ⟨span, "wanted exactly 1 element, found 0 elements"⟩
  | (span, .table _) => .error ⟨span, "wanted exactly 1 element, more than 1 element"⟩
  | (span, _) => .error ⟨span, "wanted string or table"⟩

structure Draft where
  id : Option String := none
  type : Option RuleType := none
  old : Option String := none
  new : Option String := none
  kind : Option String := none

def addEntryField (draft : Draft) (entry : String × Span × Value) : Except Fault Draft :=
  match entry.1 with
  | "id" => do return { draft with id := some (← decodeText entry.2) }
  | "type" => do return { draft with type := some (← decodeType entry.2) }
  | "from" => do return { draft with old := some (← decodeText entry.2) }
  | "to" => do return { draft with new := some (← decodeText entry.2) }
  | "kind" => do return { draft with kind := some (← decodeText entry.2) }
  | _ => .ok draft

def incomplete {α : Type} (span : Span) (value : Value) (field : String) : Except Fault α :=
  match value with
  | .array items =>
      .error ⟨span,
        s!"invalid length {items.length}, expected struct RuleDefinition with 5 elements"⟩
  | _ => .error ⟨span, s!"missing field `{field}`"⟩

def decodeEntry (item : Span × Value) : Except Fault RuleEntry := do
  let entries ←
    decodeFields ["id", "type", "from", "to", "kind"] "struct RuleDefinition" item
  let draft ← entries.foldlM addEntryField {}
  match draft.id, draft.type, draft.old, draft.new with
  | none, _, _, _ => incomplete item.1 item.2 "id"
  | _, none, _, _ => incomplete item.1 item.2 "type"
  | _, _, none, _ => incomplete item.1 item.2 "from"
  | _, _, _, none => incomplete item.1 item.2 "to"
  | some id, some type, some old, some new => return ⟨id, type, old, new, draft.kind⟩

def decodeEntries : Span × Value → Except Fault (List RuleEntry)
  | (_, .array items) => items.mapM decodeEntry
  | (span, value) => mismatch "a sequence" span value

/-! ### Documents -/

def addPart (rules : RuleSet) (entry : String × Span × Value) : Except Fault RuleSet :=
  match entry.1 with
  | "meta" => do
      let (name, description) ← decodeHead entry.2
      return { rules with name := name, description := description }
  | "rules" => do return { rules with entries := ← decodeEntries entry.2 }
  | _ => .ok rules

def ofToml (source : String) : Except Fault RuleSet := do
  let entries ← Toml.readDocument source
  entries.foldlM addPart ⟨"", none, []⟩

end Codemod.RuleSet
