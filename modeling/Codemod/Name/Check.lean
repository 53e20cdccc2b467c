import Codemod.Name.Lexeme

/-!
Which texts are accepted as names: those whose only token is an identifier that is no reserved
word. Blanks and comments around it are passed over.
-/

set_option autoImplicit false

namespace Codemod.Name

inductive Flaw where
  /-- It cannot be cut into tokens. -/
  | unreadable
  /-- It has no token. -/
  | empty
  /-- Its first token is no identifier. -/
  | noIdentifier
  /-- Its first token is a reserved word. -/
  | reserved (word : String)
  /-- More tokens follow the first. -/
  | moreTokens
deriving DecidableEq

def Flaw.message : Flaw → String
  | unreadable => "cannot parse string into token stream"
  | empty => "unexpected end of input, expected identifier"
  | noIdentifier => "expected identifier"
  | reserved word => s!"expected identifier, found keyword `{word}`"
  | moreTokens => "unexpected token"

def reservedWords : List String :=
  ["_", "abstract", "as", "async", "await", "become", "box", "break", "const", "continue",
    "crate", "do", "dyn", "else", "enum", "extern", "false", "final", "fn", "for", "if", "impl",
    "in", "let", "loop", "macro", "match", "mod", "move", "mut", "override", "priv", "pub", "ref",
    "return", "Self", "self", "static", "struct", "super", "trait", "true", "try", "type",
    "typeof", "unsafe", "unsized", "use", "virtual", "where", "while", "yield"]

/-- What is wrong with a text as a name, if anything is. -/
def flaw? (text : String) : Option Flaw :=
  match lexemes text.toList with
  | none => some .unreadable
  | some [] => some .empty
  | some (.other :: _) => some .noIdentifier
  | some (.identifier letters :: rest) =>
      let word := String.ofList letters
      if reservedWords.contains word then some (.reserved word)
      else if rest.isEmpty then none
      else some .moreTokens

end Codemod.Name
