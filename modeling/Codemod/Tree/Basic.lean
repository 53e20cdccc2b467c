import Codemod.Tree.DeclKind

/-!
Syntax trees that keep every character of the file they were read from.

A leaf holds its text and the text between the leaf before it and itself, so the leaves in order,
and what trails behind the last one, spell the file. Inner nodes are classified by the constructs
rules care about. An identifier leaf is one that renaming may touch; every other leaf is
a plain token.
-/

set_option autoImplicit false

namespace Codemod.Tree

/-- Where a node stands: its bytes, and the line and column of its first byte. -/
structure Span where
  start : Nat
  stop : Nat
  line : Nat
  column : Nat
deriving DecidableEq, Repr

structure Token where
  /-- The kind the grammar gives it. -/
  kind : String
  /-- The field it fills in its parent. -/
  field : Option String
  span : Span
  /-- The text between the leaf before and this one. -/
  leading : String
  text : String
deriving DecidableEq, Repr

/-- What an inner node says of itself. -/
structure Label where
  kind : String
  field : Option String
  span : Span
deriving DecidableEq, Repr

/-- The constructs that rules tell apart. -/
inductive Construct where
  | file
  | declaration (kind : DeclKind)
  | block
  | call
  | other
deriving DecidableEq, Repr

def Construct.ofGrammarKind (kind : String) : Construct :=
  match kind with
  | "source_file" => .file
  | "block" => .block
  | "call_expression" => .call
  | _ =>
      match DeclKind.ofGrammarKind? kind with
      | some declared => .declaration declared
      | none => .other

inductive Node where
  | ident (leaf : Token)
  | token (leaf : Token)
  | branch (construct : Construct) (label : Label) (children : List Node)
deriving Repr

namespace Node

def kind : Node → String
  | ident leaf => leaf.kind
  | token leaf => leaf.kind
  | branch _ label _ => label.kind

def field : Node → Option String
  | ident leaf => leaf.field
  | token leaf => leaf.field
  | branch _ label _ => label.field

def span : Node → Span
  | ident leaf => leaf.span
  | token leaf => leaf.span
  | branch _ label _ => label.span

def children : Node → List Node
  | branch _ _ children => children
  | _ => []

def variant : Node → String
  | ident _ => "Ident"
  | token _ => "Token"
  | branch .file _ _ => "File"
  | branch (.declaration _) _ _ => "Decl"
  | branch .block _ _ => "Block"
  | branch .call _ _ => "Call"
  | branch .other _ _ => "Other"

/-- The same leaf out of reach of renaming. -/
def asPlain : Node → Node
  | ident leaf => token leaf
  | node => node

/-! ### Equality -/

mutual

def isSame : Node → Node → Bool
  | ident left, ident right => left == right
  | token left, token right => left == right
  | branch leftConstruct leftLabel left, branch rightConstruct rightLabel right =>
      leftConstruct == rightConstruct && leftLabel == rightLabel && areSame left right
  | _, _ => false

def areSame : List Node → List Node → Bool
  | [], [] => true
  | left :: lefts, right :: rights => isSame left right && areSame lefts rights
  | _, _ => false

end

/-! ### Leaves -/

mutual

def leaves : Node → List Token
  | ident leaf => [leaf]
  | token leaf => [leaf]
  | branch _ _ children => leavesOf children

def leavesOf : List Node → List Token
  | [] => []
  | node :: rest => leaves node ++ leavesOf rest

end

mutual

def identifiers : Node → List Token
  | ident leaf => [leaf]
  | token _ => []
  | branch _ _ children => identifiersOf children

def identifiersOf : List Node → List Token
  | [] => []
  | node :: rest => identifiers node ++ identifiersOf rest

end

end Node

structure SyntaxTree where
  root : Node
  /-- The text behind the last leaf. -/
  trailing : String
deriving Repr

namespace SyntaxTree

def isSame (left right : SyntaxTree) : Bool :=
  left.root.isSame right.root && left.trailing == right.trailing

def items (tree : SyntaxTree) : List Node := tree.root.children

def leafText (leaves : List Token) : String :=
  leaves.foldl (fun text leaf => text ++ leaf.leading ++ leaf.text) ""

/-- The text of a tree: its leaves in order, and what trails. -/
def toSource (tree : SyntaxTree) : String :=
  leafText tree.root.leaves ++ tree.trailing

def identifiers (tree : SyntaxTree) : List Token := tree.root.identifiers

/-- How many identifiers of a tree read exactly `name`. -/
def countIdentifier (tree : SyntaxTree) (name : String) : Nat :=
  tree.identifiers.countP fun leaf => leaf.text == name

end SyntaxTree

end Codemod.Tree
