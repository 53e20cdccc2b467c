import Codemod.Tree.Declaration

/-!
Visiting a tree: which nodes are met, in which order, and how leaves may be changed on the way.

A node is met before its children, and children from left to right. A visit enters only the
constructs it wants to.
-/

set_option autoImplicit false

namespace Codemod.Tree

inductive Hook where
  | file
  | declaration
  | block
  | call
  | other
  | ident
  | token
deriving DecidableEq, Repr

namespace Hook

def ofConstruct : Construct → Hook
  | .file => file
  | .declaration _ => declaration
  | .block => block
  | .call => call
  | .other => other

def name : Hook → String
  | file => "file"
  | declaration => "decl"
  | block => "block"
  | call => "call"
  | other => "other"
  | ident => "ident"
  | token => "token"

end Hook

/-- One node met, with its kind, its text or the name it declares. -/
structure Meeting where
  hook : Hook
  detail : String
deriving DecidableEq, Repr

namespace Node

/-- How an inner node is reported: by what it declares, or by its kind. -/
def branchDetail (construct : Construct) (label : Label) (children : List Node) : String :=
  match construct with
  | .declaration kind => (Declaration.nameText? ⟨kind, label, children⟩).getD "?"
  | _ => label.kind

mutual

/-- The nodes a visit meets that enters what `enters` admits. -/
def meetings (enters : Hook → Bool) : Node → List Meeting
  | .ident leaf => [⟨.ident, leaf.text⟩]
  | .token leaf => [⟨.token, leaf.text⟩]
  | .branch construct label children =>
      ⟨Hook.ofConstruct construct, branchDetail construct label children⟩ ::
        (if enters (Hook.ofConstruct construct) then meetingsOf enters children else [])

def meetingsOf (enters : Hook → Bool) : List Node → List Meeting
  | [] => []
  | node :: rest => meetings enters node ++ meetingsOf enters rest

end

end Node

/-- A change of leaves: what becomes of identifiers and of other tokens, and which constructs it
reaches into. -/
structure LeafEdit where
  ident : Token → Token
  token : Token → Token
  enters : Hook → Bool

namespace Node

mutual

def edit (change : LeafEdit) : Node → Node
  | .ident leaf => .ident (change.ident leaf)
  | .token leaf => .token (change.token leaf)
  | .branch construct label children =>
      if change.enters (Hook.ofConstruct construct) then
        .branch construct label (editAll change children)
      else .branch construct label children

def editAll (change : LeafEdit) : List Node → List Node
  | [] => []
  | node :: rest => edit change node :: editAll change rest

end

end Node

namespace SyntaxTree

def meetings (tree : SyntaxTree) (enters : Hook → Bool) : List Meeting :=
  tree.root.meetings enters

def edit (tree : SyntaxTree) (change : LeafEdit) : SyntaxTree :=
  { tree with root := tree.root.edit change }

end SyntaxTree

end Codemod.Tree
