import Codemod.Tree.Basic

/-!
Declarations of a tree, and the scopes they share.

Declarations at the level of items are those outside all blocks. A scope holds the declarations
that stand directly in the file, or directly in the body of one module, implementation, trait or
block of foreign code; only there can two names clash.
-/

set_option autoImplicit false

namespace Codemod.Tree

structure Declaration where
  kind : DeclKind
  label : Label
  children : List Node

/-- The leaf of a node that is the name of the declaration above it. -/
def Node.nameLeaf? : Node → Option Token
  | .ident leaf => if leaf.field = some "name" then some leaf else none
  | _ => none

def Node.declaration? : Node → Option Declaration
  | .branch (.declaration kind) label children => some ⟨kind, label, children⟩
  | _ => none

def Node.isFieldList : Node → Bool
  | .branch .other label _ => label.kind == "field_declaration_list"
  | _ => false

namespace Declaration

def name? (declaration : Declaration) : Option Token :=
  declaration.children.findSome? Node.nameLeaf?

def nameText? (declaration : Declaration) : Option String :=
  declaration.name?.map Token.text

/-- The namespaces a declaration puts its name into. A structure without named fields is a value
too, its constructor. -/
def namespaces (declaration : Declaration) : List Namespace :=
  match declaration.kind with
  | .function => [.value]
  | .constant => [.value]
  | .static => [.value]
  | .macroRules => [.macroName]
  | .struct =>
      if declaration.children.any Node.isFieldList then [.type] else [.type, .value]
  | .enum => [.type]
  | .union => [.type]
  | .trait => [.type]
  | .typeAlias => [.type]
  | .module => [.type]

def sharesNamespace (left right : Declaration) : Bool :=
  left.namespaces.any fun space => right.namespaces.contains space

/-- The line that a declaration is said to stand at: that of its name. -/
def line (declaration : Declaration) : Nat :=
  match declaration.name? with
  | some leaf => leaf.span.line
  | none => declaration.label.span.line

end Declaration

namespace Node

mutual

/-- The declarations of a node outside all blocks, in order. -/
def declarations : Node → List Declaration
  | .ident _ => []
  | .token _ => []
  | .branch .block _ _ => []
  | .branch (.declaration kind) label children =>
      ⟨kind, label, children⟩ :: declarationsOf children
  | .branch _ _ children => declarationsOf children

def declarationsOf : List Node → List Declaration
  | [] => []
  | node :: rest => declarations node ++ declarationsOf rest

end

/-- The kind of the bodies of modules, implementations, traits and foreign code. -/
def bodyKind : String := "declaration_list"

def opensScope (construct : Construct) (label : Label) : Bool :=
  match construct with
  | .file => true
  | .other => label.kind == bodyKind
  | _ => false

mutual

/-- The scopes of a node, outer ones first. -/
def scopes : Node → List (List Declaration)
  | .ident _ => []
  | .token _ => []
  | .branch construct label children =>
      if construct = .block then []
      else if opensScope construct label then
        children.filterMap declaration? :: scopesOf children
      else scopesOf children

def scopesOf : List Node → List (List Declaration)
  | [] => []
  | node :: rest => scopes node ++ scopesOf rest

end

end Node

namespace SyntaxTree

def declarations (tree : SyntaxTree) : List Declaration := tree.root.declarations

def scopes (tree : SyntaxTree) : List (List Declaration) := tree.root.scopes

end SyntaxTree

end Codemod.Tree
