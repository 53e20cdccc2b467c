/-!
The kinds of declarations, and the namespaces their names live in.
-/

set_option autoImplicit false

namespace Codemod.Tree

inductive DeclKind where
  | function
  | struct
  | enum
  | union
  | trait
  | typeAlias
  | constant
  | static
  | module
  | macroRules
deriving DecidableEq, Repr

namespace DeclKind

def ofGrammarKind? : String → Option DeclKind
  | "function_item" => some function
  | "function_signature_item" => some function
  | "struct_item" => some struct
  | "enum_item" => some enum
  | "union_item" => some union
  | "trait_item" => some trait
  | "type_item" => some typeAlias
  | "const_item" => some constant
  | "static_item" => some static
  | "mod_item" => some module
  | "macro_definition" => some macroRules
  | _ => none

def ofName? : String → Option DeclKind
  | "function" => some function
  | "fn" => some function
  | "struct" => some struct
  | "enum" => some enum
  | "union" => some union
  | "trait" => some trait
  | "type" => some typeAlias
  | "const" => some constant
  | "static" => some static
  | "mod" => some module
  | "module" => some module
  | "macro" => some macroRules
  | _ => none

def name : DeclKind → String
  | function => "function"
  | struct => "struct"
  | enum => "enum"
  | union => "union"
  | trait => "trait"
  | typeAlias => "type"
  | constant => "const"
  | static => "static"
  | module => "mod"
  | macroRules => "macro"

theorem ofName?_name (kind : DeclKind) : ofName? kind.name = some kind := by
  cases kind <;> rfl

def all : List DeclKind :=
  [function, struct, enum, union, trait, typeAlias, constant, static, module, macroRules]

theorem mem_all (kind : DeclKind) : kind ∈ all := by
  cases kind <;> decide

end DeclKind

/-- A namespace. Two declarations of one name clash only inside a common namespace. -/
inductive Namespace where
  | type
  | value
  | macroName
deriving DecidableEq, Repr

def Namespace.name : Namespace → String
  | type => "type"
  | value => "value"
  | macroName => "macro"

end Codemod.Tree
