import Codemod.Toml.Text

/-!
The lines of a document: headers of tables, and values under dotted keys.
-/

set_option autoImplicit false

namespace Codemod.Toml

open Reader

/-! ### Blanks -/

def blanks : Reader Unit := do
  let cursor ← get
  skip (cursor.rest.takeWhile fun c => c == ' ' || c == '\t').length

def comment : Reader Unit := do
  let cursor ← get
  match cursor.rest with
  | '#' :: _ => do
      skip (cursor.rest.takeWhile isVisible).length
      let after ← get
      match after.rest with
      | [] => return ()
      | '\n' :: _ => return ()
      | '\r' :: '\n' :: _ => return ()
      | _ =>
          fail after.offset (after.offset + 1)
            "invalid comment character, expected printable characters"
  | _ => return ()

def lineEnd? : Reader Bool := do
  let cursor ← get
  match cursor.rest with
  | '\n' :: _ => do
      skip 1
      return true
  | '\r' :: '\n' :: _ => do
      skip 2
      return true
  | '\r' :: _ =>
      fail cursor.offset (cursor.offset + 1)
        "carriage return must be followed by newline, expected newline"
  | _ => return false

def openSpace : Nat → Reader Unit
  | 0 => return ()
  | bound + 1 => do
      blanks
      comment
      if ← lineEnd? then openSpace bound else return ()

/-! ### Keys -/

/-- Characters of keys without quotes. -/
def isBare (c : Char) : Bool := c.isAlphanum || c == '_' || c == '-'

def simpleKey : Reader Key := do
  let start ← get
  match ← quoted? false with
  | some name =>
      let stop ← get
      return ⟨name, ⟨start.offset, stop.offset⟩⟩
  | none =>
      let letters := start.rest.takeWhile isBare
      if letters.isEmpty then
        failHere "unquoted keys cannot be empty, expected letters, numbers, `-`, `_`"
      else
        skip letters.length
        let stop ← get
        return ⟨String.ofList letters, ⟨start.offset, stop.offset⟩⟩

def dottedKey : Nat → Reader (List Key)
  | 0 => return []
  | bound + 1 => do
      blanks
      let first ← simpleKey
      blanks
      if ← startsWith "." then
        skip 1
        let rest ← dottedKey bound
        return first :: rest
      else return [first]

/-! ### Values -/

def endsScalar (c : Char) : Bool :=
  c == ' ' || c == '\t' || c == '\n' || c == '\r' || c == ',' || c == ']' || c == '\x7d' ||
    c == '#' || c == '"' || c == '\'' || c == '[' || c == '\x7b' || c == '='

/-- A value without quotes. A date may be parted from its time by a space. -/
def scalar : Reader Value := do
  let start ← get
  let first := start.rest.takeWhile fun c => !endsScalar c
  let behind := start.rest.drop first.length
  let text := match date? first, behind with
    | some [], ' ' :: next :: _ =>
        if next.isDigit then
          first ++ ' ' :: (behind.drop 1).takeWhile fun c => !endsScalar c
        else first
    | _, _ => first
  match scalarOf text with
  | .ok value =>
      skip text.length
      return value
  | .error message =>
      fail start.offset (start.skip text.length).offset message

/-- The path of a key put into a table, if nothing stands there yet. Tables made by dotted keys
may be extended, other values may not. -/
def insertInline (path : List Key) (span : Span) (value : Value)
    (entries : List (String × Span × Value)) (dotted : List (List String)) (above : List String) :
    Except Fault (List (String × Span × Value)) :=
  match path with
  | [] => .ok entries
  | [key] =>
      if entries.any fun entry => entry.1 == key.name then .error ⟨key.span, "duplicate key"⟩
      else .ok (entries ++ [(key.name, span, value)])
  | key :: rest =>
      match entries.find? fun entry => entry.1 == key.name with
      | none => do
          let inner ← insertInline rest span value [] dotted (above ++ [key.name])
          return entries ++ [(key.name, key.span, .table inner)]
      | some (_, _, .table inner) =>
          if dotted.contains (above ++ [key.name]) then do
            let inner ← insertInline rest span value inner dotted (above ++ [key.name])
            return entries.map fun entry =>
              if entry.1 == key.name then (entry.1, entry.2.1, .table inner) else entry
          else .error ⟨key.span, "duplicate key"⟩
      | some (_, _, other) =>
          .error ⟨key.span, s!"cannot extend value of type {other.typeName} with a dotted key"⟩

def dottedPaths (path : List Key) : List (List String) :=
  let names := path.map Key.name
  (List.range (names.length - 1)).map fun count => names.take (count + 1)

/-- How many brackets and braces may stand around one another. -/
def maxNesting : Nat := 80

def nestingMessage : String := "cannot recurse further; max recursion depth met"

mutual

/-- A value with its bytes, with less than `depth` brackets and braces around one another. -/
def value : (depth : Nat) → Reader (Span × Value)
  | 0 => failHere nestingMessage
  | depth + 1 => do
      let start ← get
      let spanned (reader : Reader Value) : Reader (Span × Value) := do
        let found ← reader
        let stop ← get
        return (⟨start.offset, stop.offset⟩, found)
      let opensDeeper := depth = 0 ∧ (start.rest.head? = some '[' ∨ start.rest.head? = some '\x7b')
      if opensDeeper then fail start.offset (start.offset + 1) nestingMessage
      else
        match start.rest with
        | '[' :: _ => spanned do
            skip 1
            let items ← arrayItems depth start.rest.length
            return .array items
        | '\x7b' :: _ => spanned do
            skip 1
            let entries ← inlineEntries depth start.rest.length [] []
            return .table entries
        | _ => spanned do
            match ← quoted? true with
            | some text => return .string text
            | none => scalar

def arrayItems : (depth bound : Nat) → Reader (List (Span × Value))
  | _, 0 => failHere "unclosed array, expected `]`"
  | depth, bound + 1 => do
      openSpace bound
      let cursor ← get
      match cursor.rest with
      | ']' :: _ => do
          skip 1
          return []
      | [] => failHere "unclosed array, expected `]`"
      | ',' :: _ => fail cursor.offset (cursor.offset + 1) "extra comma in array, expected value"
      | _ => do
          let item ← value depth
          openSpace bound
          let after ← get
          match after.rest with
          | ',' :: _ => do
              skip 1
              let rest ← arrayItems depth bound
              return item :: rest
          | ']' :: _ => do
              skip 1
              return [item]
          | [] => failHere "unclosed array, expected `]`"
          | _ => failHere "missing comma between array elements, expected `,`"

def inlineEntries : (depth bound : Nat) → List (String × Span × Value) → List (List String) →
    Reader (List (String × Span × Value))
  | _, 0, _, _ => failHere "unclosed inline table, expected `\x7d`"
  | depth, bound + 1, entries, dotted => do
      openSpace bound
      let cursor ← get
      match cursor.rest with
      | '\x7d' :: _ => do
          skip 1
          return entries
      | [] => failHere "unclosed inline table, expected `\x7d`"
      | ',' :: _ =>
          fail cursor.offset (cursor.offset + 1) "extra comma in inline table, expected key"
      | _ => do
          let path ← dottedKey bound
          openSpace bound
          if !(← startsWith "=") then failHere "key with no value, expected `=`"
          skip 1
          openSpace bound
          let (span, found) ← value depth
          let longer ← liftM (insertInline path span found entries dotted [])
          let dotted := dottedPaths path ++ dotted
          openSpace bound
          let after ← get
          match after.rest with
          | ',' :: _ => do
              skip 1
              inlineEntries depth bound longer dotted
          | '\x7d' :: _ => do
              skip 1
              return longer
          | [] => failHere "unclosed inline table, expected `\x7d`"
          | _ => failHere "missing comma between inline table elements, expected `,`"

end

/-! ### Lines -/

def statementEnd : Reader Unit := do
  blanks
  comment
  let cursor ← get
  if cursor.rest.isEmpty then return ()
  else if ← lineEnd? then return ()
  else failHere "unexpected key or value, expected newline, `#`"

def header : Reader Statement := do
  let start ← get
  let isElement ← startsWith "[["
  skip (if isElement then 2 else 1)
  let path ← dottedKey start.rest.length
  let closing := if isElement then "]]" else "]"
  if ← startsWith closing then
    skip closing.length
    let stop ← get
    let span : Span := ⟨start.offset, stop.offset⟩
    return if isElement then .element path span else .table path span
  else
    failHere (if isElement then "unclosed array table, expected `]]`"
      else "unclosed table, expected `]`")

def pair : Reader Statement := do
  let start ← get
  let path ← dottedKey start.rest.length
  if !(← startsWith "=") then failHere "key with no value, expected `=`"
  else
    skip 1
    blanks
    let (span, found) ← value (maxNesting + 1)
    return .pair path span found

def statements : Nat → Reader (List Statement)
  | 0 => return []
  | bound + 1 => do
      openSpace (bound + 1)
      let cursor ← get
      match cursor.rest with
      | [] => return []
      | c :: _ => do
          let first ← if c == '[' then header else pair
          statementEnd
          let rest ← statements bound
          return first :: rest

/-- The lines of a document. A byte order mark in front is no part of it. -/
def readStatements (source : String) : Except Fault (List Statement) :=
  let text := source.toList
  let cursor : Cursor := match text with
    | '\uFEFF' :: rest => ⟨rest, 3⟩
    | _ => ⟨text, 0⟩
  (statements (text.length + 1)).run' cursor

end Codemod.Toml
