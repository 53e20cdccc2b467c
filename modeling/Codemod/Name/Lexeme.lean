import Codemod.Text.Blank
import Codemod.Text.IdentifierChar

/-!
The tokens a text falls into when it is read for a name.

Tokens are told apart only as far as names need: identifiers, and everything else. Each function
below returns the text behind the token it is named for, or nothing if the text does not start
with one. Literals carry an optional suffix. A quote that opens neither a character nor a
lifetime, a literal or comment that never closes, and a character no token starts with make the
whole text unreadable.
-/

set_option autoImplicit false

namespace Codemod.Name

open Codemod.Text (isIdentifierContinue isIdentifierStart isWhite)

abbrev Rest := Option (List Char)

def startsWord (c : Char) : Bool := c == '_' || isIdentifierStart c

def either (first second : Rest) : Rest :=
  match first with
  | some rest => some rest
  | none => second

def behind : List Char → List Char → Rest
  | [], text => some text
  | _ :: _, [] => none
  | expected :: more, c :: rest => if expected = c then behind more rest else none

/-! ### Words -/

def word : List Char → Option (List Char × List Char)
  | [] => none
  | c :: rest =>
      if startsWord c then
        some (c :: rest.takeWhile isIdentifierContinue, rest.dropWhile isIdentifierContinue)
      else none

/-- Words that cannot be written raw. -/
def neverRaw : List (List Char) :=
  [['_'], ['s', 'u', 'p', 'e', 'r'], ['s', 'e', 'l', 'f'], ['S', 'e', 'l', 'f'],
    ['c', 'r', 'a', 't', 'e']]

def rawOrPlainWord : List Char → Option (List Char × List Char)
  | 'r' :: '#' :: rest =>
      match word rest with
      | some (letters, behind) =>
          if neverRaw.contains letters then none else some ('r' :: '#' :: letters, behind)
      | none => none
  | text => word text

def literalOpeners : List (List Char) :=
  [['r', '"'], ['r', '#', '"'], ['r', '#', '#'], ['b', '"'], ['b', '\''], ['b', 'r', '"'],
    ['b', 'r', '#'], ['c', '"'], ['c', 'r', '"'], ['c', 'r', '#']]

def identifier (text : List Char) : Option (List Char × List Char) :=
  if literalOpeners.any fun opener => opener.isPrefixOf text then none else rawOrPlainWord text

def behindSuffix (text : List Char) : List Char :=
  match word text with
  | some (_, rest) => rest
  | none => text

/-! ### Blanks and comments -/

def separates (c : Char) : Bool := isWhite c || c == '\u200e' || c == '\u200f'

def fromLineEnd : List Char → List Char
  | [] => []
  | '\n' :: rest => '\n' :: rest
  | '\r' :: '\n' :: rest => '\n' :: rest
  | _ :: rest => fromLineEnd rest

/-- The line a text starts with. The carriage return in front of a line feed ends it too. -/
def firstLine : List Char → List Char
  | [] => []
  | '\n' :: _ => []
  | '\r' :: '\n' :: _ => []
  | c :: rest => c :: firstLine rest

/-- The text behind a block comment, `depth` of which are open. -/
def behindBlock : Nat → List Char → Rest
  | _, [] => none
  | depth, '/' :: '*' :: rest => behindBlock (depth + 1) rest
  | depth, '*' :: '/' :: rest =>
      match depth with
      | 0 => some rest
      | 1 => some rest
      | depth + 2 => behindBlock (depth + 1) rest
  | depth, _ :: rest => behindBlock depth rest

/-- The text behind the comment it starts with. Documentation is no comment here. -/
def comment? : List Char → Rest
  | '/' :: '/' :: '/' :: '/' :: rest => some (fromLineEnd rest)
  | '/' :: '/' :: '/' :: _ => none
  | '/' :: '/' :: '!' :: _ => none
  | '/' :: '/' :: rest => some (fromLineEnd rest)
  | '/' :: '*' :: '*' :: '/' :: rest => some rest
  | '/' :: '*' :: '*' :: '*' :: rest => behindBlock 1 ('*' :: '*' :: rest)
  | '/' :: '*' :: '*' :: _ => none
  | '/' :: '*' :: '!' :: _ => none
  | '/' :: '*' :: rest => behindBlock 1 rest
  | _ => none

def skipBlanks : Nat → List Char → List Char
  | 0, text => text
  | bound + 1, text =>
      match comment? text with
      | some rest => skipBlanks bound rest
      | none =>
          match text with
          | c :: rest => if separates c then skipBlanks bound rest else text
          | [] => []

/-- Whether a carriage return stands without a line feed behind it. -/
def hasBareReturn : List Char → Bool
  | [] => false
  | '\r' :: '\n' :: rest => hasBareReturn rest
  | '\r' :: _ => true
  | _ :: rest => hasBareReturn rest

def documentation? (text : List Char) : Rest :=
  let line (body : List Char) : Rest :=
    if hasBareReturn (firstLine body) then none else some (fromLineEnd body)
  let block (body : List Char) : Rest :=
    match behindBlock 1 body with
    | none => none
    | some rest =>
        if hasBareReturn (body.take (body.length - rest.length)) then none else some rest
  match text with
  | '/' :: '/' :: '!' :: rest => line rest
  | '/' :: '*' :: '!' :: rest => block ('!' :: rest)
  | '/' :: '/' :: '/' :: '/' :: _ => none
  | '/' :: '/' :: '/' :: rest => line rest
  | '/' :: '*' :: '*' :: '*' :: _ => none
  | '/' :: '*' :: '*' :: rest => block ('*' :: rest)
  | _ => none

/-! ### Escapes -/

def isAscii (c : Char) : Bool := c.val < 128

def isOctal (c : Char) : Bool := '0' ≤ c && c ≤ '7'

def isHex (c : Char) : Bool :=
  c.isDigit || ('a' ≤ c && c ≤ 'f') || ('A' ≤ c && c ≤ 'F')

def hexValue (c : Char) : Nat :=
  if c.isDigit then c.toNat - '0'.toNat
  else if 'a' ≤ c && c ≤ 'f' then c.toNat - 'a'.toNat + 10
  else c.toNat - 'A'.toNat + 10

/-- The text behind two digits that satisfy the tests and are not both zero unless `zero`. -/
def twoDigits (first second : Char → Bool) (zero : Bool) : List Char → Rest
  | high :: low :: rest =>
      if first high && second low && (zero || high != '0' || low != '0') then some rest else none
  | _ => none

/-- The text behind a code point in braces, and the code point. -/
def codePoint : (count value : Nat) → List Char → Option (Nat × List Char)
  | _, _, [] => none
  | count, value, c :: rest =>
      if isHex c then
        if count = 6 then none else codePoint (count + 1) (16 * value + hexValue c) rest
      else if c == '_' && count != 0 then codePoint count value rest
      else if c == '\x7d' && count != 0 && value.isValidChar then some (value, rest)
      else none

inductive EscapeSet where
  | character
  | byte
  | terminated
deriving DecidableEq

def escape (set : EscapeSet) : List Char → Rest
  | 'x' :: rest =>
      match set with
      | .character => twoDigits isOctal isHex true rest
      | .byte => twoDigits isHex isHex true rest
      | .terminated => twoDigits isHex isHex false rest
  | 'u' :: '\x7b' :: rest =>
      match set, codePoint 0 0 rest with
      | .character, some (_, behind) => some behind
      | .terminated, some (value, behind) => if value = 0 then none else some behind
      | _, _ => none
  | '0' :: rest => if set = .terminated then none else some rest
  | c :: rest => if ['n', 'r', 't', '\\', '\'', '"'].contains c then some rest else none
  | [] => none

/-! ### Literals -/

/-- The blanks a line continuation passes over. A carriage return needs its line feed. -/
def continuation : List Char → Rest
  | '\r' :: '\n' :: rest => continuation rest
  | '\r' :: _ => none
  | c :: rest => if c == ' ' || c == '\t' || c == '\n' then continuation rest else some (c :: rest)
  | [] => none

def stringBody (set : EscapeSet) : Nat → List Char → Rest
  | 0, _ => none
  | bound + 1, text =>
      match text with
      | [] => none
      | '"' :: rest => some (behindSuffix rest)
      | '\r' :: '\n' :: rest => stringBody set bound rest
      | '\r' :: _ => none
      | '\\' :: '\n' :: rest => (continuation rest).bind (stringBody set bound)
      | '\\' :: '\r' :: '\n' :: rest => (continuation rest).bind (stringBody set bound)
      | '\\' :: '\r' :: _ => none
      | '\\' :: rest => (escape set rest).bind (stringBody set bound)
      | c :: rest =>
          if (set = .byte && !isAscii c) || (set = .terminated && c.toNat = 0) then none
          else stringBody set bound rest

/-- The text behind the closing quote of a raw string with so many hashes. -/
def rawBody (admits : Char → Bool) (hashes : Nat) : List Char → Rest
  | [] => none
  | '"' :: rest =>
      match behind (List.replicate hashes '#') rest with
      | some final => some (behindSuffix final)
      | none => rawBody admits hashes rest
  | '\r' :: '\n' :: rest => rawBody admits hashes rest
  | '\r' :: _ => none
  | c :: rest => if admits c then rawBody admits hashes rest else none

def rawString (admits : Char → Bool) (text : List Char) : Rest :=
  let hashes := (text.takeWhile (· == '#')).length
  match text.drop hashes with
  | '"' :: rest => if hashes ≤ 255 then rawBody admits hashes rest else none
  | _ => none

/-- The text behind a quoted character, from behind its opening quote on. A byte is ASCII unless an
escape spells it. -/
def quoted (set : EscapeSet) (text : List Char) : Rest :=
  let content : Rest := match text with
    | '\\' :: rest => escape set rest
    | c :: rest => if set = .byte && !isAscii c then none else some rest
    | [] => none
  match content with
  | some ('\'' :: rest) => some (behindSuffix rest)
  | _ => none

def textLiteral (text : List Char) : Rest :=
  match text with
  | '"' :: rest => stringBody .character rest.length rest
  | 'r' :: rest => rawString (fun _ => true) rest
  | 'b' :: '"' :: rest => stringBody .byte rest.length rest
  | 'b' :: 'r' :: rest => rawString isAscii rest
  | 'b' :: '\'' :: rest => quoted .byte rest
  | 'c' :: '"' :: rest => stringBody .terminated rest.length rest
  | 'c' :: 'r' :: rest => rawString (fun c => c.toNat != 0) rest
  | '\'' :: rest => quoted .character rest
  | _ => none

def wordEnds (text : List Char) : Rest :=
  match text with
  | c :: _ => if isIdentifierContinue c then none else some text
  | [] => some []

def exponent? (text : List Char) : Rest :=
  let digit (c : Char) : Bool := c.isDigit || c == '_'
  let mantissa := text.dropWhile (· == '_')
  let signed := match mantissa with
    | '+' :: rest => rest
    | '-' :: rest => rest
    | _ => mantissa
  let read := signed.takeWhile digit
  if read.any Char.isDigit then some (signed.dropWhile digit) else none

def fractionDigits (text : List Char) : Rest :=
  let digit (c : Char) : Bool := c.isDigit || c == '_'
  let exponentOr (otherwise : Rest) (rest : List Char) : Rest :=
    match rest with
    | 'e' :: more => either (exponent? more) otherwise
    | 'E' :: more => either (exponent? more) otherwise
    | _ => otherwise
  match text with
  | first :: _ =>
      if first.isDigit then
        match text.dropWhile digit with
        | '.' :: '.' :: _ => none
        | '.' :: rest =>
            if rest.head?.any startsWord then none
            else
              let behind := rest.dropWhile digit
              exponentOr (some behind) behind
        | rest => exponentOr none rest
      else none
  | [] => none

def integerDigits (text : List Char) : Rest :=
  let based (digit stray : Char → Bool) (body : List Char) : Rest :=
    let read := body.takeWhile fun c => digit c || c == '_'
    let rest := body.dropWhile fun c => digit c || c == '_'
    if read.all (· == '_') || rest.head?.any stray then none else some rest
  match text with
  | '0' :: 'x' :: rest => based isHex (fun _ => false) rest
  | '0' :: 'o' :: rest => based isOctal Char.isDigit rest
  | '0' :: 'b' :: rest => based (fun c => c == '0' || c == '1') Char.isDigit rest
  | '_' :: _ => none
  | _ => based Char.isDigit (fun _ => false) text

def numberLiteral (text : List Char) : Rest :=
  let ended (digits : Rest) : Rest := digits.bind fun rest => wordEnds (behindSuffix rest)
  either (ended (fractionDigits text)) (ended (integerDigits text))

/-! ### Marks -/

def marks : List Char := "~!@#$%^&*-=+|;:,<.>/?".toList

/-- The text behind a mark. The quote of a lifetime is one. -/
def mark : List Char → Rest
  | '/' :: '/' :: _ => none
  | '/' :: '*' :: _ => none
  | '\'' :: rest =>
      match rawOrPlainWord rest with
      | some (letters, behind) =>
          if behind.head? == some '\'' ||
              (behind.head? == some '#' && !(['r', '#'].isPrefixOf letters)) then none
          else some rest
      | none => none
  | c :: rest => if marks.contains c then some rest else none
  | [] => none

/-! ### Token streams -/

inductive Lexeme where
  | identifier (letters : List Char)
  | other
deriving DecidableEq

def closerOf : Char → Option Char
  | '(' => some ')'
  | '[' => some ']'
  | '\x7b' => some '\x7d'
  | _ => none

def leaf (text : List Char) : Option (Lexeme × List Char) :=
  match either (textLiteral text) (either (numberLiteral text) (mark text)) with
  | some rest => some (.other, rest)
  | none =>
      match identifier text with
      | some (letters, rest) => some (.identifier letters, rest)
      | none => none

/-- The tokens of a text, at most `bound` of them, with the given brackets open. A text is
readable only if its brackets match. -/
def lexemesWithin : Nat → List Char → List Char → Option (List Lexeme)
  | 0, _, _ => none
  | bound + 1, closers, text =>
      let text := skipBlanks text.length text
      match documentation? text with
      | some rest => (lexemesWithin bound closers rest).map (.other :: ·)
      | none =>
          match text with
          | [] => if closers.isEmpty then some [] else none
          | c :: rest =>
              match closerOf c with
              | some closer => (lexemesWithin bound (closer :: closers) rest).map (.other :: ·)
              | none =>
                  if c == ')' || c == ']' || c == '\x7d' then
                    match closers with
                    | closer :: outer =>
                        if closer = c then (lexemesWithin bound outer rest).map (.other :: ·)
                        else none
                    | [] => none
                  else
                    match leaf text with
                    | some (lexeme, behind) =>
                        (lexemesWithin bound closers behind).map (lexeme :: ·)
                    | none => none

/-- The tokens of a text, if it can be read. A byte order mark in front is no part of it. -/
def lexemes (text : List Char) : Option (List Lexeme) :=
  let body := match text with
    | '\uFEFF' :: rest => rest
    | _ => text
  lexemesWithin (body.length + 1) [] body

end Codemod.Name
