/-!
Values of a TOML document, with the bytes they are written in, and what may be wrong with a
document.
-/

set_option autoImplicit false

namespace Codemod.Toml

structure Span where
  start : Nat
  stop : Nat
deriving DecidableEq, Repr

structure Fault where
  span : Span
  message : String
deriving DecidableEq, Repr

/-- A value. Of dates and times only their presence matters here. -/
inductive Value where
  | string (text : String)
  | integer (value : Int)
  | float (value : Float)
  | boolean (value : Bool)
  | datetime
  | array (items : List (Span × Value))
  | table (entries : List (String × Span × Value))

def Value.typeName : Value → String
  | string _ => "string"
  | integer _ => "integer"
  | float _ => "float"
  | boolean _ => "boolean"
  | datetime => "datetime"
  | array _ => "array"
  | table _ => "inline table"

structure Key where
  name : String
  span : Span
deriving DecidableEq, Repr

/-- One line of a document: the header of a table, or a value under a dotted key. -/
inductive Statement where
  | table (path : List Key) (span : Span)
  | element (path : List Key) (span : Span)
  | pair (path : List Key) (span : Span) (value : Value)

end Codemod.Toml
