import Codemod.Toml.Scalar

/-!
Quoted texts of a document.

A reading walks the characters with the offset of the next one. Texts on one line end at the line
end even if their quote is missing; texts over several lines end only at three quotes.
-/

set_option autoImplicit false

namespace Codemod.Toml

structure Cursor where
  rest : List Char
  offset : Nat

def Cursor.skip (cursor : Cursor) (count : Nat) : Cursor :=
  ⟨cursor.rest.drop count,
    (cursor.rest.take count).foldl (fun offset c => offset + c.utf8Size) cursor.offset⟩

abbrev Reader := StateT Cursor (Except Fault)

namespace Reader

def fail {α : Type} (start stop : Nat) (message : String) : Reader α :=
  fun _ => .error ⟨⟨start, stop⟩, message⟩

def failHere {α : Type} (message : String) : Reader α :=
  fun cursor => .error ⟨⟨cursor.offset, cursor.offset⟩, message⟩

def skip (count : Nat) : Reader Unit :=
  fun cursor => .ok ((), cursor.skip count)

def startsWith (text : String) : Reader Bool :=
  fun cursor => .ok (text.toList.isPrefixOf cursor.rest, cursor)

end Reader

open Reader

/-- Whether a character may stand in a text or a comment: anything but control characters, the
tab apart. -/
def isVisible (c : Char) : Bool :=
  c == '\t' || (' ' ≤ c && c != '\x7f')

/-! ### Escapes -/

def escapeMessage : String :=
  "missing escaped value, expected `b`, `e`, `f`, `n`, `r`, `\\`, `\"`, `x`, `u`, `U`"

def codePoint (count : Nat) : Reader Char := do
  let cursor ← get
  let digits := cursor.rest.take count
  let value := numberOf 16 digits
  if digits.length = count ∧ digits.all isHex then
    if value.isValidChar then
      skip count
      return Char.ofNat value
    else
      fail cursor.offset (cursor.offset + count)
        "value is out of range, expected unicode hexadecimal value"
  else
    fail cursor.offset cursor.offset
      "too few unicode value digits, expected unicode hexadecimal value"

def escape : Reader Char := do
  let cursor ← get
  let simple (c : Char) : Reader Char := do
    skip 1
    return c
  match cursor.rest with
  | 'b' :: _ => simple '\x08'
  | 't' :: _ => simple '\t'
  | 'n' :: _ => simple '\n'
  | 'f' :: _ => simple '\x0c'
  | 'r' :: _ => simple '\r'
  | 'e' :: _ => simple '\x1b'
  | '"' :: _ => simple '"'
  | '\\' :: _ => simple '\\'
  | 'x' :: _ => do
      skip 1
      codePoint 2
  | 'u' :: _ => do
      skip 1
      codePoint 4
  | 'U' :: _ => do
      skip 1
      codePoint 8
  | _ => failHere escapeMessage

/-! ### Texts on one line -/

def basicBody : Nat → Reader (List Char)
  | 0 => failHere "invalid basic string, expected `\"`"
  | bound + 1 => do
      let cursor ← get
      match cursor.rest with
      | '"' :: _ => do
          skip 1
          return []
      | '\\' :: _ => do
          skip 1
          let c ← escape
          let rest ← basicBody bound
          return c :: rest
      | c :: _ =>
          if isVisible c then do
            skip 1
            let rest ← basicBody bound
            return c :: rest
          else if c == '\n' || c == '\r' then failHere "invalid basic string, expected `\"`"
          else
            fail cursor.offset (cursor.offset + 1)
              "invalid basic string, expected non-double-quote visible characters, `\\`"
      | [] => failHere "invalid basic string, expected `\"`"

def literalBody : Nat → Reader (List Char)
  | 0 => failHere "invalid literal string, expected `'`"
  | bound + 1 => do
      let cursor ← get
      match cursor.rest with
      | '\'' :: _ => do
          skip 1
          return []
      | c :: _ =>
          if isVisible c then do
            skip 1
            let rest ← literalBody bound
            return c :: rest
          else if c == '\n' || c == '\r' then failHere "invalid literal string, expected `'`"
          else
            fail cursor.offset (cursor.offset + 1)
              "invalid literal string, expected non-single-quote visible characters"
      | [] => failHere "invalid literal string, expected `'`"

/-! ### Texts over several lines -/

def firstLineEnd : Reader Unit := do
  let cursor ← get
  match cursor.rest with
  | '\n' :: _ => skip 1
  | '\r' :: '\n' :: _ => skip 2
  | _ => return ()

/-- The number of characters a backslash at the end of a line passes over, if it stands at one. -/
def foldedLength? (text : List Char) : Option Nat :=
  let blank (c : Char) : Bool := c == ' ' || c == '\t'
  let passed := text.takeWhile fun c => blank c || c == '\n' || c == '\r'
  if (text.dropWhile blank).head?.any fun c => c == '\n' || c == '\r' then some passed.length
  else none

def closingQuotes (quote : Char) (text : List Char) : Nat :=
  min 2 ((text.takeWhile (· == quote)).length - 3)

def multilineBody (quote : Char) (escapes : Bool) (unclosed : String) :
    Nat → Reader (List Char)
  | 0 => failHere unclosed
  | bound + 1 => do
      let cursor ← get
      if [quote, quote, quote].isPrefixOf cursor.rest then
        let extra := closingQuotes quote cursor.rest
        skip (extra + 3)
        return List.replicate extra quote
      else
        match cursor.rest with
        | [] => failHere unclosed
        | '\r' :: '\n' :: _ => do
            skip 2
            let rest ← multilineBody quote escapes unclosed bound
            return '\r' :: '\n' :: rest
        | c :: tail =>
            if c == '\\' && escapes then
              match foldedLength? tail with
              | some length => do
                  skip (length + 1)
                  multilineBody quote escapes unclosed bound
              | none => do
                  skip 1
                  let escaped ← escape
                  let rest ← multilineBody quote escapes unclosed bound
                  return escaped :: rest
            else if isVisible c || c == '\n' then do
              skip 1
              let rest ← multilineBody quote escapes unclosed bound
              return c :: rest
            else fail cursor.offset (cursor.offset + 1) unclosed

/-- A quoted text, if one stands here; the flag admits texts over several lines. -/
def quoted? (multiline : Bool) : Reader (Option String) := do
  let cursor ← get
  let bound := cursor.rest.length + 1
  let finish (opening : Nat) (body : Reader (List Char)) : Reader (Option String) := do
    skip opening
    let text ← body
    return some (String.ofList text)
  let several (quote : Char) (escapes : Bool) (unclosed : String) : Reader (List Char) := do
    firstLineEnd
    multilineBody quote escapes unclosed bound
  match cursor.rest with
  | '"' :: '"' :: '"' :: _ =>
      if multiline then
        finish 3 (several '"' true "invalid multi-line basic string, expected `\"\"\"`")
      else finish 1 (basicBody bound)
  | '"' :: _ => finish 1 (basicBody bound)
  | '\'' :: '\'' :: '\'' :: _ =>
      if multiline then
        finish 3 (several '\'' false "invalid multi-line literal string, expected `'''`")
      else finish 1 (literalBody bound)
  | '\'' :: _ => finish 1 (literalBody bound)
  | _ => return none

end Codemod.Toml
