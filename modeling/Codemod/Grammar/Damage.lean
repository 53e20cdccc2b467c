import Codemod.Grammar.SourceFile

/-!
Where a file that cannot be read is damaged.

A reader that goes on behind an error leaves damaged nodes in its tree. The grammar does not say which
nodes these are: it depends on what such a reader prefers to leave out or to suppose. Here it is
estimated. The estimate decides nothing but the place and the count that an error tells, never whether
there is an error.

A file is mended at the token its reading is stuck at: by leaving out that token, possibly with
some before or behind it, or by supposing a token right behind the last one that fitted. Each
mend has a price, and the cheapest one that makes the file readable tells where the damage is.
If even that is dear, the file may be damaged in several places, and the rest is mended by itself.
-/

set_option autoImplicit false

namespace Codemod.Grammar

open Reader

/-- A damaged node: text that does not fit, or a token that is not there and has no text. -/
structure Damage where
  start : Nat
  stop : Nat
deriving DecidableEq

/-- Damage in front of more of it. Where the two touch, they are one node. -/
def Damage.before (damage : Damage) : List Damage → List Damage
  | [] => [damage]
  | next :: rest => if next.start ≤ damage.stop then damage :: rest else damage :: next :: rest

/-! ### Tokens of any text -/

structure Lexeme where
  start : Nat
  stop : Nat
  text : List Char

def lexemeEnd (input : Input) : Nat :=
  match plainToken input with
  | .done _ next _ => next.lastStop
  | .stuck _ => (input.advance 1).offset

def Input.advanceTo (offset : Nat) : Nat → Input → Input
  | 0, input => input
  | bound + 1, input =>
      if input.offset < offset then Input.advanceTo offset bound (input.advance 1) else input

/-- The tokens of a text. A comment that never closes is cut into single characters. -/
def lexemesFrom : Nat → Input → List Lexeme
  | 0, _ => []
  | bound + 1, input =>
      let next := (settle input).getD (input.advanceWhile isBlank)
      if next.isEnd then []
      else
        let stop := lexemeEnd next
        let rest := next.advanceTo stop next.left
        ⟨next.offset, stop, next.rest.take (next.left - rest.left)⟩ :: lexemesFrom bound rest

def lexemes (source : String) : List Lexeme :=
  let input := Input.ofSource source
  lexemesFrom (input.left + 1) input

/-! ### Mends -/

structure Mend where
  /-- What it costs. -/
  price : Nat
  /-- The bytes it leaves out; none if it supposes a token. -/
  damage : Damage
  /-- The token it supposes. -/
  supposed : String

namespace Mend

/-- The price of any mend, of each token it touches, and of a token supposed. -/
def basePrice : Nat := 500
def tokenPrice : Nat := 100
def supposedPrice : Nat := 110

/-- Blanks for the bytes of the text between the two offsets. -/
def blankOut (start stop : Nat) : Nat → List Char → List Char
  | _, [] => []
  | offset, c :: rest =>
      let tail := blankOut start stop (offset + c.utf8Size) rest
      if start ≤ offset && offset < stop then List.replicate c.utf8Size ' ' ++ tail else c :: tail

def putIn (at_ : Nat) (text : List Char) : Nat → List Char → List Char
  | offset, [] => if offset ≤ at_ then text else []
  | offset, c :: rest =>
      if offset = at_ then text ++ c :: rest else c :: putIn at_ text (offset + c.utf8Size) rest

def apply (mend : Mend) (source : String) : String :=
  if mend.supposed.isEmpty then
    String.ofList (blankOut mend.damage.start mend.damage.stop 0 source.toList)
  else
    String.ofList (putIn mend.damage.start (' ' :: mend.supposed.toList ++ [' ']) 0 source.toList)

def supposable : List String :=
  [";", ")", "]", "\x7d", ">", "x", ",", ":", "=", "=>", "\x7b", "(", "[", "|", "in", "'"]

/-- Whether two tokens are the same mark, so that one of them is one too many. -/
def isRepeated (first second : Lexeme) : Bool :=
  first.text == second.text && tokenMarks.contains (String.ofList first.text)

def reach : Nat := 24

/-- The mends of a file that is stuck at the given place, cheapest first. -/
def candidates (tokens : List Lexeme) (stuck : Stop) : List Mend :=
  let before := (tokens.filter fun token => token.stop ≤ stuck.lastStop).reverse
  let behind := tokens.filter fun token => stuck.lastStop < token.stop
  let supposed := supposable.map fun text =>
    (⟨basePrice + supposedPrice, ⟨stuck.lastStop, stuck.lastStop⟩, text⟩ : Mend)
  let dropped (count : Nat) : Option Lexeme := (behind.take count).getLast?
  let repeated : List Mend :=
    match before.head?, behind.head? with
    | some first, some second =>
        if isRepeated first second then
          [⟨basePrice + tokenPrice + (first.stop - first.start), ⟨first.start, first.stop⟩, ""⟩]
        else []
    | _, _ => []
  let cut (kept count : Nat) : Option Mend :=
    let first? := if kept = 0 then behind.head? else (before.take kept).getLast?
    let last? := if count = 0 then before.head? else dropped count
    match first?, last? with
    | some first, some last =>
        if first.start < last.stop then
          let touched := min kept before.length + min count behind.length +
            (if kept = 0 then 0 else 1)
          some ⟨basePrice + tokenPrice * touched + (last.stop - first.start),
            ⟨first.start, last.stop⟩, ""⟩
        else none
    | _, _ => none
  let counts := (List.range 6) ++ [behind.length]
  let kepts := (List.range reach) ++ [before.length]
  let cuts := kepts.flatMap fun kept => counts.filterMap fun count => cut kept count
  (repeated ++ supposed ++ cuts).mergeSort fun first second => first.price ≤ second.price

end Mend

def isReadable (source : String) : Bool :=
  match readFile source with
  | .done _ _ _ => true
  | .stuck _ => false

def severalPrice : Nat := 1200

/-- The price of mending a file at `limit` places at most, and its damage. -/
def mendWithin : Nat → String → Option (Nat × List Damage)
  | 0, _ => none
  | limit + 1, source =>
      match readFile source with
      | .done _ _ _ => some (0, [])
      | .stuck stuck =>
          let tokens := lexemes source
          let single := (Mend.candidates tokens stuck).find? fun mend =>
            isReadable (mend.apply source)
          let whole : Option (Nat × List Damage) :=
            single.map fun mend => (mend.price, [mend.damage])
          match tokens.find? fun token => stuck.lastStop < token.stop with
          | none => whole
          | some token =>
              if whole.all fun found => severalPrice < found.1 then
                let mend : Mend :=
                  ⟨Mend.basePrice + Mend.tokenPrice + (token.stop - token.start),
                    ⟨token.start, token.stop⟩, ""⟩
                match mendWithin limit (mend.apply source) with
                | none => whole
                | some (price, damaged) =>
                    if whole.all fun found => mend.price + price < found.1 then
                      some (mend.price + price, mend.damage.before damaged)
                    else whole
              else whole

/-- The damaged nodes of a file that cannot be read, in their order. There are none to tell if too much
is wrong. -/
def damageOf (source : String) : List Damage := ((mendWithin 4 source).map Prod.snd).getD []

end Codemod.Grammar
