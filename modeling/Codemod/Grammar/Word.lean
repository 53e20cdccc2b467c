import Codemod.Grammar.Trivia
import Codemod.Text.IdentifierChar

/-!
Words and marks.

Which words are keywords depends on the place: a word the grammar has no use for at some place
is an ordinary name there. The lists below name, for each kind of place, the words that are not
names. Marks are read as written; a reader that could mistake one for the start of a longer mark
says so itself.
-/

set_option autoImplicit false

namespace Codemod.Grammar

def plainWordLength : List Char → Nat
  | [] => 0
  | c :: rest =>
      if c == '_' || Text.isIdentifierStart c then
        1 + (rest.takeWhile Text.isIdentifierContinue).length
      else 0

def wordLength (text : List Char) : Nat :=
  match text with
  | 'r' :: '#' :: rest =>
      match plainWordLength rest with
      | 0 => plainWordLength text
      | length => length + 2
  | _ => plainWordLength text

namespace Input

def word (input : Input) : String :=
  String.ofList (input.rest.take (wordLength input.rest))

def startsWith (text : String) (input : Input) : Bool :=
  text.toList.isPrefixOf input.rest

def isEnd (input : Input) : Bool :=
  input.rest.isEmpty

def behind (count : Nat) (input : Input) : Input :=
  let after := input.advance count
  (settle after).getD after

end Input

/-! ### Words with a meaning, by place -/

def primitiveTypes : List String :=
  ["u8", "i8", "u16", "i16", "u32", "i32", "u64", "i64", "u128", "i128", "isize", "usize",
    "f32", "f64", "bool", "str", "char"]

/-- Words that are names unless they open one of a few constructs. -/
def softWords : List String :=
  ["default", "union", "gen", "raw"]

def pathWords : List String :=
  ["crate", "self", "super"] ++ softWords ++ primitiveTypes

def expressionWords : List String :=
  pathWords ++
    ["async", "break", "const", "continue", "false", "for", "if", "loop", "match", "move",
      "return", "static", "true", "try", "unsafe", "while", "yield"]

def declarationWords : List String :=
  pathWords ++
    ["async", "const", "enum", "extern", "fn", "impl", "let", "mod", "pub", "static", "struct",
      "trait", "type", "unsafe", "use"]

/-- Words that open a function pointer type. One of them, `default`, may open a path as well. -/
def functionWords : List String :=
  ["async", "const", "default", "extern", "fn", "unsafe"]

def typeWords : List String :=
  pathWords ++ functionWords ++ ["dyn", "for", "impl", "use"]

def traitWords : List String :=
  pathWords ++ functionWords ++ ["for"]

def patternWords : List String :=
  pathWords ++ ["_", "const", "false", "mut", "ref", "true"]

def parameterWords : List String :=
  typeWords ++ patternWords

def tokenWords : List String :=
  primitiveTypes ++
    ["_", "as", "async", "await", "break", "const", "continue", "crate", "default", "enum",
      "false", "fn", "for", "gen", "if", "impl", "let", "loop", "match", "mod", "mut", "pub",
      "return", "self", "static", "struct", "super", "trait", "true", "type", "union", "unsafe",
      "use", "where", "while"]

namespace Reader

def keyword (word : String) : Reader Forest :=
  fun input =>
    if input.word == word then take word word.length input else .stuck (.ofInput input)

def keywordAs (kind word : String) : Reader Forest :=
  fun input =>
    if input.word == word then take kind word.length input else .stuck (.ofInput input)

def nameAs (kind : String) (reserved : List String) : Reader Forest :=
  fun input =>
    let length := wordLength input.rest
    if length == 0 || reserved.contains input.word then .stuck (.ofInput input)
    else take kind length input

def mark (text : String) : Reader Forest :=
  fun input =>
    if input.startsWith text then take text text.length input else .stuck (.ofInput input)

def commaSeparated (first later : Reader Forest) : Reader Forest :=
  followedBy first (many (followedBy (mark ",") later))

/-- A list whose first member is read by `first` and the others by `later`, separated and optionally
ended by commas, possibly empty. -/
def commaListFrom (first later : Reader Forest) : Reader Forest :=
  followedBy (optional (commaSeparated first later)) (optional (mark ","))

def commaList (reader : Reader Forest) : Reader Forest :=
  commaListFrom reader reader

def commaListOne (reader : Reader Forest) : Reader Forest :=
  followedBy (commaSeparated reader reader) (optional (mark ","))

end Reader

end Codemod.Grammar
