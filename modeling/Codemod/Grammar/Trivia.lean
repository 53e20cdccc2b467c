import Codemod.Grammar.Reader

/-!
Blanks and comments, which may stand in front of every token.

Blanks are the six ASCII white-space characters. A line comment that opens with `///` or `//!`
is a documentation comment and owns its line end; one that opens with four slashes is an
ordinary comment again. Block comments nest, and those that open with one extra star or with
an exclamation mark document something. A block comment that never closes makes every reading
stuck where it opens. No character class but the text of documentation admits the character with
the number zero, so it ends an ordinary line comment and nothing can be read from there on.
-/

set_option autoImplicit false

namespace Codemod.Grammar

def isBlank (c : Char) : Bool :=
  c == ' ' || c == '\n' || c == '\t' || c == '\r' || c == '\x0b' || c == '\x0c'

def isNul (c : Char) : Bool := c.toNat == 0

def isLineText (c : Char) : Bool := c != '\n' && !isNul c

namespace Input

def advance : Nat → Input → Input
  | 0, input => input
  | count + 1, input =>
      match input.rest with
      | [] => input
      | c :: rest =>
          advance count { input with
            rest := rest, left := input.left - 1, offset := input.offset + c.utf8Size }

def advanceWhile (test : Char → Bool) (input : Input) : Input :=
  input.advance (input.rest.takeWhile test).length

end Input

def tokenNode (kind : String) (before after : Input) : Cst :=
  .node kind none before.offset after.offset []

/-! ### Line comments -/

/-- What follows the four slashes of an ordinary comment. A line that holds nothing more than
a comment opener opens that comment inside this one. -/
def plainCommentTail (blockComment : Input → Input → Option (Cst × Input)) :
    Nat → Input → Option (Forest × Input)
  | 0, input => some ([], input.advanceWhile isLineText)
  | bound + 1, input =>
      let line := input.rest.takeWhile isLineText
      let lineEnd := input.advance line.length
      let opener := line.dropWhile isBlank
      if opener = ['/', '/'] then
        some ([.node "line_comment" none input.offset lineEnd.offset
          [tokenNode "//" input lineEnd]], lineEnd)
      else if opener = ['/', '*'] then
        match blockComment input lineEnd with
        | none => none
        | some (inner, rest) =>
            match plainCommentTail blockComment bound rest with
            | none => none
            | some (later, final) => some (inner :: later, final)
      else some ([], lineEnd)

/-- Documentation after a marker that is one character long, up to and with the line end. -/
def lineDocumentation (side text : String) (input : Input) : Forest × Input :=
  let marked := input.advance 1
  let final := (marked.advanceWhile (· != '\n')).advance 1
  ([.node (side ++ "_doc_comment_marker") (some side) input.offset marked.offset
      [tokenNode text input marked],
    (tokenNode "doc_comment" marked final).withField "doc"], final)

/-! ### Block comments -/

/-- What a character counts as inside a block comment: only the last byte of its number is looked
at, so that a character far from ASCII may open, close or document a comment. -/
def lastByte (c : Char) : Char := Char.ofNat (c.toNat % 256)

inductive BlockMode where
  | plain
  | afterSlash
  | afterStar

/-- The number of characters in front of the star that closes the comment, counted from
`count`. `depth` is the number of comments open, `last` the best end seen so far. -/
def blockContentLength : BlockMode → (depth count last : Nat) → List Char → Nat
  | _, _, _, last, [] => last
  | mode, depth, count, last, next :: rest =>
      let c := lastByte next
      let last' := match mode with
        | .plain => count
        | .afterSlash => last
        | .afterStar => if c == '*' then count else last
      let depth' := match mode with
        | .plain => depth
        | .afterSlash => if c == '*' then depth + 1 else depth
        | .afterStar => if c == '/' then depth - 1 else depth
      let mode' := match mode with
        | .plain => if c == '/' then BlockMode.afterSlash
            else if c == '*' then BlockMode.afterStar else BlockMode.plain
        | .afterSlash => BlockMode.plain
        | .afterStar => if c == '*' then BlockMode.afterStar else BlockMode.plain
      if depth' = 0 then last'
      else blockContentLength mode' depth' (count + 1)
        (if c == '/' then count + 1 else last') rest

def blockContent (input : Input) : Option Input :=
  match input.rest with
  | [] => some input
  | first :: rest =>
      match lastByte first with
      | '*' =>
          if rest.head? == some '/' then none
          else some (input.advance (blockContentLength .afterStar 1 1 1 rest))
      | '/' => some (input.advance (blockContentLength .afterSlash 1 1 1 rest))
      | _ => some (input.advance (blockContentLength .plain 1 1 1 rest))

def blockBody (input : Input) : Forest × Input :=
  let documented (side : String) : Forest × Input :=
    let marked := input.advance 1
    let marker := (tokenNode (side ++ "_doc_comment_marker") input marked).withField side
    match blockContent marked with
    | none => ([marker], marked)
    | some final => ([marker, (tokenNode "doc_comment" marked final).withField "doc"], final)
  let undocumented : Forest × Input := ([], (blockContent input).getD input)
  match input.rest with
  | [] => undocumented
  | first :: rest =>
      match lastByte first, rest.head? with
      | '!', _ => documented "inner"
      | '*', some '/' => ([], input)
      | '*', some '*' => undocumented
      | '*', _ => documented "outer"
      | _, _ => undocumented

def blockComment (before opened : Input) : Option (Cst × Input) :=
  let (body, content) := blockBody opened
  match content.rest with
  | '*' :: '/' :: _ =>
      let final := content.advance 2
      some (.node "block_comment" none before.offset final.offset
        (tokenNode "/*" before opened :: body ++ [tokenNode "*/" content final]), final)
  | _ => none

def lineComment (input : Input) : Option (Cst × Input) :=
  let opened := input.advance 2
  let finish (tail : Forest × Input) : Option (Cst × Input) :=
    some (.node "line_comment" none input.offset tail.2.offset
      (tokenNode "//" input opened :: tail.1), tail.2)
  match opened.rest with
  | '/' :: '/' :: _ =>
      match plainCommentTail blockComment opened.left (opened.advance 2) with
      | none => none
      | some tail => finish tail
  | '/' :: _ => finish (lineDocumentation "outer" "/" opened)
  | '!' :: _ => finish (lineDocumentation "inner" "!" opened)
  | _ => finish ([], opened.advanceWhile isLineText)

/-! ### Standing at a token -/

def settleWithin : Nat → Input → Option Input
  | 0, input => some input
  | bound + 1, input =>
      let input := input.advanceWhile isBlank
      let keep (comment : Option (Cst × Input)) : Option Input :=
        match comment with
        | none => none
        | some (tree, rest) =>
            settleWithin bound { rest with comments := input.comments ++ [tree] }
      match input.rest with
      | '/' :: '/' :: _ => keep (lineComment input)
      | '/' :: '*' :: _ => keep (blockComment input (input.advance 2))
      | _ => some input

def settle (input : Input) : Option Input :=
  settleWithin (input.left + 1) input

namespace Reader

def settled : Reader Unit :=
  fun input =>
    match settle input with
    | none => .stuck (.ofInput input)
    | some next => .done () next ⟨0, 0⟩

/-- Take the next characters as one token, and move to the token behind it. -/
def take (kind : String) (count : Nat) : Reader Forest :=
  fun input =>
    let after := input.advance count
    match settle { after with comments := [], lastStop := after.offset } with
    | none => .stuck ⟨after.offset, after.offset⟩
    | some next => .done (input.comments ++ [tokenNode kind input after]) next ⟨0, 0⟩

end Reader

end Codemod.Grammar
