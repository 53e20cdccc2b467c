import Codemod.Grammar.Word

/-!
Literals.

Numbers are the longest match: a number is floating if a fraction or an exponent follows its
digits, and a dot counts as a fraction unless a letter or a second dot follows. Strings are a
quote, pieces of text and escapes, and a quote. The marks around a raw string are part of the
literal but no tokens of their own, and neither are the blanks its text starts with. Of the hashes
around a raw string only the number modulo 256 counts.
-/

set_option autoImplicit false

namespace Codemod.Grammar

/-! ### Numbers -/

def isDecimalDigit (c : Char) : Bool := '0' ≤ c && c ≤ '9'

def isHexDigit (c : Char) : Bool :=
  isDecimalDigit c || ('a' ≤ c && c ≤ 'f') || ('A' ≤ c && c ≤ 'F')

def isNumberChar (c : Char) : Bool := isDecimalDigit c || c == '_'

def numberSuffixes : List String :=
  ["u8", "i8", "u16", "i16", "u32", "i32", "u64", "i64", "u128", "i128", "isize", "usize",
    "f32", "f64"]

def suffixLength (text : List Char) : Nat :=
  match numberSuffixes.find? fun suffix => suffix.toList.isPrefixOf text with
  | some suffix => suffix.length
  | none => 0

def integerBodyLength (text : List Char) : Nat :=
  let based (test : Char → Bool) (digits : List Char) : Nat :=
    match (digits.takeWhile fun c => test c || c == '_').length with
    | 0 => 1
    | length => length + 2
  match text with
  | '0' :: 'x' :: digits => based isHexDigit digits
  | '0' :: 'b' :: digits => based (fun c => c == '0' || c == '1') digits
  | '0' :: 'o' :: digits => based (fun c => '0' ≤ c && c ≤ '7') digits
  | c :: rest => if isDecimalDigit c then 1 + (rest.takeWhile isNumberChar).length else 0
  | [] => 0

def integerLength (text : List Char) : Nat :=
  match integerBodyLength text with
  | 0 => 0
  | length => length + suffixLength (text.drop length)

/-- The length of an exponent, and whether its mark is there at all. A mark without digits
counts as an exponent of length zero. -/
def exponentLength (text : List Char) : Nat × Bool :=
  match text with
  | mark :: rest =>
      if mark == 'e' || mark == 'E' then
        let sign := match rest with
          | c :: _ => if c == '+' || c == '-' then 1 else 0
          | [] => 0
        match ((rest.drop sign).takeWhile isNumberChar).length with
        | 0 => (0, true)
        | digits => (1 + sign + digits, true)
      else (0, false)
  | [] => (0, false)

def floatSuffixLength (text : List Char) : Nat :=
  match text with
  | c :: rest =>
      if c == 'u' || c == 'i' || c == 'f' then
        match (rest.takeWhile isDecimalDigit).length with
        | 0 => 0
        | digits => 1 + digits
      else 0
  | [] => 0

/-- The length of the fraction, its dot included, or nothing if the dot belongs elsewhere. -/
def fractionLength (text : List Char) : Option Nat :=
  match text with
  | '.' :: rest =>
      match rest with
      | c :: _ => if c.isAlpha || c == '.' then none
          else some (1 + (rest.takeWhile isNumberChar).length)
      | [] => some 1
  | _ => some 0

def floatLength (text : List Char) : Nat :=
  match text with
  | c :: rest =>
      if isDecimalDigit c then
        let whole := 1 + (rest.takeWhile isNumberChar).length
        match fractionLength (text.drop whole) with
        | none => 0
        | some fraction =>
            let mantissa := whole + fraction
            let exponent := exponentLength (text.drop mantissa)
            if fraction == 0 && !exponent.2 then 0
            else if exponent.2 && exponent.1 == 0 then mantissa
            else
              let number := mantissa + exponent.1
              number + floatSuffixLength (text.drop number)
      else 0
  | [] => 0

/-! ### Characters and strings -/

def escapeLength (text : List Char) : Nat :=
  match text with
  | '\\' :: 'x' :: a :: b :: _ => if isHexDigit a && isHexDigit b then 4 else 0
  | '\\' :: 'x' :: _ => 0
  | '\\' :: 'u' :: rest =>
      match rest with
      | c :: digits =>
          if c == '\x7b' then
            let count := (digits.takeWhile isHexDigit).length
            match digits.drop count with
            | close :: _ => if count != 0 && close == '\x7d' then count + 4 else 0
            | [] => 0
          else if (rest.takeWhile isHexDigit).length ≥ 4 then 6 else 0
      | [] => 0
  | '\\' :: c :: _ => if isNul c then 0 else 2
  | _ => 0

def charLength (text : List Char) : Nat :=
  let opened := match text with
    | 'b' :: '\'' :: _ => 2
    | '\'' :: _ => 1
    | _ => 0
  if opened == 0 then 0
  else
    let body := text.drop opened
    let closedAfter (count : Nat) : Nat :=
      match body.drop count with
      | '\'' :: _ => opened + count + 1
      | _ => 0
    match body with
    | '\'' :: _ => opened + 1
    | '\\' :: _ =>
        match escapeLength body with
        | 0 => 0
        | count => closedAfter count
    | c :: _ => if isNul c then 0 else closedAfter 1
    | [] => 0

def quoteLength (text : List Char) : Nat :=
  match text with
  | '"' :: _ => 1
  | 'b' :: '"' :: _ => 2
  | 'c' :: '"' :: _ => 2
  | _ => 0

/-- The number of hashes that close a raw string and the length of its opening, if there is one. -/
def rawOpening (text : List Char) : Option (Nat × Nat) :=
  let start := match text with
    | 'r' :: _ => 1
    | 'b' :: 'r' :: _ => 2
    | 'c' :: 'r' :: _ => 2
    | _ => 0
  if start == 0 then none
  else
    let hashes := ((text.drop start).takeWhile (· == '#')).length
    match text.drop (start + hashes) with
    | '"' :: _ => some (hashes % 256, start + hashes + 1)
    | _ => none

def rawContentLength (hashes : Nat) : List Char → Option Nat
  | [] => none
  | c :: rest =>
      if c == '"' && (rest.take hashes).length == hashes && (rest.take hashes).all (· == '#') then
        some 0
      else (rawContentLength hashes rest).map (· + 1)

def startsLiteral (text : List Char) : Bool :=
  match text with
  | [] => false
  | c :: _ =>
      isDecimalDigit c || charLength text != 0 || quoteLength text != 0 ||
        (rawOpening text).isSome

namespace Reader

def integer : Reader Forest :=
  fun input =>
    match integerLength input.rest with
    | 0 => .stuck (.ofInput input)
    | length => take "integer_literal" length input

def number : Reader Forest :=
  fun input =>
    match floatLength input.rest with
    | 0 => integer input
    | length => take "float_literal" length input

def stringPieces : Nat → Input → Option (Forest × Input)
  | 0, _ => none
  | bound + 1, input =>
      match input.rest with
      | [] => none
      | '"' :: _ =>
          let after := input.advance 1
          some ([tokenNode "\"" input after], after)
      | '\\' :: _ =>
          match escapeLength input.rest with
          | 0 => none
          | length =>
              let after := input.advance length
              (stringPieces bound after).map fun (pieces, final) =>
                (tokenNode "escape_sequence" input after :: pieces, final)
      | _ :: _ =>
          let after := input.advanceWhile fun c => c != '"' && c != '\\'
          (stringPieces bound after).map fun (pieces, final) =>
            (tokenNode "string_content" input after :: pieces, final)

def leave (tree : Cst) (after : Input) : Reader Forest :=
  fun input =>
    match settle { after with comments := [], lastStop := after.offset } with
    | none => .stuck ⟨after.offset, after.offset⟩
    | some next => .done (input.comments ++ [tree]) next ⟨0, 0⟩

def string : Reader Forest :=
  fun input =>
    match quoteLength input.rest with
    | 0 => .stuck (.ofInput input)
    | length =>
        let opened := input.advance length
        match stringPieces (opened.left + 1) opened with
        | none => .stuck ⟨input.offset + length, input.offset + length⟩
        | some (pieces, after) =>
            leave (.node "string_literal" none input.offset after.offset
              (tokenNode "\"" input opened :: pieces)) after input

def rawString : Reader Forest :=
  fun input =>
    match rawOpening input.rest with
    | none => .stuck (.ofInput input)
    | some (hashes, length) =>
        let opened := input.advance length
        let start := opened.advanceWhile isBlank
        match rawContentLength hashes start.rest with
        | none => .stuck ⟨opened.offset, opened.offset⟩
        | some count =>
            let content := start.advance count
            let after := content.advance (hashes + 1)
            leave (.node "raw_string_literal" none input.offset after.offset
              [tokenNode "string_content" start content]) after input

def literal : Reader Forest :=
  fun input =>
    if (rawOpening input.rest).isSome then rawString input
    else if charLength input.rest != 0 then take "char_literal" (charLength input.rest) input
    else if quoteLength input.rest != 0 then string input
    else match input.word with
      | "true" => node "boolean_literal" (keyword "true") input
      | "false" => node "boolean_literal" (keyword "false") input
      | _ => number input

def negativeLiteral : Reader Forest :=
  node "negative_literal" (followedBy (mark "-") number)

def quotedName (kind : String) : Reader Forest :=
  node kind (followedBy (mark "'") (nameAs "identifier" []))

def lifetime : Reader Forest := quotedName "lifetime"

def label : Reader Forest := quotedName "label"

end Reader

end Codemod.Grammar
