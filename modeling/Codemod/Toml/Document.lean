import Codemod.Toml.Statement

/-!
Documents: the table that the lines of a document make up.

A header opens a table once; tables it passes on the way are made as needed and may still be
opened by a header of their own. Dotted keys make tables that only dotted keys of the same table
may extend. Every opened element of an array of tables is the one that headers below it pass
through.
-/

set_option autoImplicit false

namespace Codemod.Toml

inductive Origin where
  /-- On the way to another table. -/
  | passed
  /-- By a dotted key. -/
  | dotted
  /-- By a header of its own. -/
  | opened
deriving DecidableEq, Repr

inductive Item where
  | value (span : Span) (value : Value)
  | table (origin : Origin) (span : Span) (entries : List (String × Item))
  | elements (span : Span) (tables : List (Span × List (String × Item)))

/-- The entries of a table, in the order in which they were first mentioned. -/
abbrev Entries := List (String × Item)

namespace Entries

def item? (entries : Entries) (name : String) : Option Item :=
  (List.find? (fun entry => entry.1 == name) entries).map Prod.snd

def replace (entries : Entries) (name : String) (item : Item) : Entries :=
  entries.map fun entry => if entry.1 == name then (name, item) else entry

def remove (entries : Entries) (name : String) : Entries :=
  entries.filter fun entry => entry.1 != name

def add (entries : Entries) (name : String) (item : Item) : Entries :=
  entries ++ [(name, item)]

end Entries

def duplicate {α : Type} (key : Key) : Except Fault α := .error ⟨key.span, "duplicate key"⟩

def notExtensible {α : Type} (key : Key) (value : Value) : Except Fault α :=
  .error ⟨key.span, s!"cannot extend value of type {value.typeName} with a dotted key"⟩

def descend (change : Entries → Except Fault Entries) : List Key → Entries → Except Fault Entries
  | [], entries => change entries
  | key :: rest, entries =>
      match entries.item? key.name with
      | none => do
          let inner ← descend change rest []
          return entries.add key.name (.table .passed key.span inner)
      | some (.table origin span inner) => do
          let inner ← descend change rest inner
          return entries.replace key.name (.table origin span inner)
      | some (.elements span tables) =>
          match tables.getLast? with
          | none => duplicate key
          | some (lastSpan, last) => do
              let last ← descend change rest last
              return entries.replace key.name
                (.elements span (tables.dropLast ++ [(lastSpan, last)]))
      | some (.value _ value) => notExtensible key value

def openTable (key : Key) (span : Span) (entries : Entries) : Except Fault Entries :=
  match entries.item? key.name with
  | none => .ok (entries.add key.name (.table .opened span []))
  | some (.table .passed _ inner) =>
      .ok ((entries.remove key.name).add key.name (.table .opened span inner))
  | some _ => duplicate key

def openElement (key : Key) (span : Span) (entries : Entries) : Except Fault Entries :=
  match entries.item? key.name with
  | none => .ok (entries.add key.name (.elements span [(span, [])]))
  | some (.elements whole tables) =>
      .ok (entries.replace key.name (.elements whole (tables ++ [(span, [])])))
  | some _ => duplicate key

/-- Put a value under a dotted key. -/
def assign (span : Span) (value : Value) : List Key → Entries → Except Fault Entries
  | [], entries => .ok entries
  | [key], entries =>
      match entries.item? key.name with
      | none => .ok (entries.add key.name (.value span value))
      | some _ => duplicate key
  | key :: rest, entries =>
      match entries.item? key.name with
      | none => do
          let inner ← assign span value rest []
          return entries.add key.name (.table .dotted key.span inner)
      | some (.table .opened _ _) => duplicate key
      | some (.table origin whole inner) => do
          let inner ← assign span value rest inner
          return entries.replace key.name (.table origin whole inner)
      | some (.elements _ _) => duplicate key
      | some (.value _ existing) => notExtensible key existing

def extend (stop : Nat) : List Key → Entries → Entries
  | [], entries => entries
  | key :: rest, entries =>
      match entries.item? key.name with
      | some (.table origin span inner) =>
          let whole := if rest.isEmpty then ⟨span.start, stop⟩ else span
          entries.replace key.name (.table origin whole (extend stop rest inner))
      | some (.elements span tables) =>
          match tables.getLast? with
          | none => entries
          | some (lastSpan, last) =>
              let whole := if rest.isEmpty then ⟨lastSpan.start, stop⟩ else lastSpan
              entries.replace key.name
                (.elements span (tables.dropLast ++ [(whole, extend stop rest last)]))
      | _ => entries

structure Building where
  entries : Entries
  current : List Key

def addStatement (building : Building) : Statement → Except Fault Building
  | .table path span =>
      match path.getLast? with
      | none => .ok building
      | some key => do
          let entries ← descend (openTable key span) path.dropLast building.entries
          return ⟨entries, path⟩
  | .element path span =>
      match path.getLast? with
      | none => .ok building
      | some key => do
          let entries ← descend (openElement key span) path.dropLast building.entries
          return ⟨entries, path⟩
  | .pair path span value => do
      let entries ← descend (assign span value path) building.current building.entries
      return { building with entries := extend span.stop building.current entries }

def spanOfTables (span : Span) (tables : List (Span × List (String × Item))) : Span :=
  match tables.head?, tables.getLast? with
  | some first, some last => ⟨first.1.start, last.1.stop⟩
  | _, _ => span

mutual

def Item.finish : Item → Span × Value
  | .value span value => (span, value)
  | .table _ span entries => (span, .table (finishEntries entries))
  | .elements span tables => (spanOfTables span tables, .array (finishTables tables))

def finishEntries : List (String × Item) → List (String × Span × Value)
  | [] => []
  | (name, item) :: rest => (name, Item.finish item) :: finishEntries rest

def finishTables : List (Span × List (String × Item)) → List (Span × Value)
  | [] => []
  | (span, entries) :: rest => (span, .table (finishEntries entries)) :: finishTables rest

end

def readDocument (source : String) : Except Fault (List (String × Span × Value)) := do
  let lines ← readStatements source
  let building ← lines.foldlM addStatement ⟨[], []⟩
  return finishEntries building.entries

/-! ### Telling where -/

/-- The number of characters of the line up to an offset, and the line's number, both counted
from zero. An offset at the very end counts one column behind the last character. -/
def locate (source : String) (offset : Nat) : Nat × Nat :=
  let bytes := source.utf8ByteSize
  if bytes = 0 then (0, offset)
  else
    let rec go : List Char → Nat → Nat → Nat → Nat × Nat
      | [], _, line, column => (line, column)
      | c :: rest, left, line, column =>
          if left < c.utf8Size then (line, column)
          else if c = '\n' ∧ (c.utf8Size < left ∨ !rest.isEmpty) then
            go rest (left - c.utf8Size) (line + 1) 0
          else go rest (left - c.utf8Size) line (column + 1)
    go source.toList offset 0 0

def lineAt (source : String) (line : Nat) : String :=
  ((source.splitOn "\n")[line]?).getD ""

/-- The report of a fault: its place, the line it stands on with marks below, and what is
wrong. -/
def Fault.report (fault : Fault) (source : String) : String :=
  let (line, column) := locate source fault.span.start
  let content := lineAt source line
  let number := toString (line + 1)
  let gutter := String.ofList (List.replicate (number.length + 1) ' ')
  let marks :=
    max 1 (min fault.span.stop (fault.span.start + content.utf8ByteSize) - fault.span.start)
  s!"TOML parse error at line {number}, column {column + 1}\n" ++
    gutter ++ "|\n" ++
    number ++ " | " ++ content ++ "\n" ++
    gutter ++ "|" ++ String.ofList (List.replicate (column + 1) ' ') ++
    String.ofList (List.replicate marks '^') ++ "\n" ++
    fault.message ++ "\n"

end Codemod.Toml
