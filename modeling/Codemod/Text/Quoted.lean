import Codemod.Text.Hidden

/-!
Texts in double quotes, with everything written out that would break the quotes or could not be
seen.
-/

set_option autoImplicit false

namespace Codemod.Text

def hexDigits (value : Nat) : String := String.ofList (Nat.toDigits 16 value)

def quoteChar (c : Char) : String :=
  match c with
  | '\x00' => "\\0"
  | '\t' => "\\t"
  | '\r' => "\\r"
  | '\n' => "\\n"
  | '\\' => "\\\\"
  | '"' => "\\\""
  | _ =>
      if isHidden c then "\\u\x7b" ++ hexDigits c.toNat ++ "\x7d" else String.singleton c

def quote (text : String) : String :=
  "\"" ++ String.join (text.toList.map quoteChar) ++ "\""

def quoteList (texts : List String) : String :=
  "[" ++ ", ".intercalate (texts.map quote) ++ "]"

end Codemod.Text
