import Codemod.Proofs.Tree.Edit
import Codemod.Tree.Parse
import Mathlib.Data.List.Forall2

/-!
Leaves and the inner nodes that hold them.

Whether a leaf of a file may be renamed is decided by its kind and by the kind of the node right above
it, so the leaves of a tree are listed here together with that node.

Main statement: in a converted tree a leaf is an identifier exactly if it is of a kind of identifiers
and no lifetime or label holds it.
-/

set_option autoImplicit false

namespace Codemod.Tree

open Codemod.Grammar (Cst Forest)
open Codemod.Text (LineIndex)

/-- A leaf and what is known of it where it stands: the node right above it, and whether it is an
identifier. -/
structure HeldLeaf where
  construct : Construct
  label : Label
  isIdent : Bool
  leaf : Token

namespace Node

mutual

/-- The leaves of a node in order, below the node with the given label. -/
def heldLeaves (construct : Construct) (label : Label) : Node → List HeldLeaf
  | ident leaf => [⟨construct, label, true, leaf⟩]
  | token leaf => [⟨construct, label, false, leaf⟩]
  | branch inner innerLabel children => heldLeavesOf inner innerLabel children

def heldLeavesOf (construct : Construct) (label : Label) : List Node → List HeldLeaf
  | [] => []
  | node :: rest => heldLeaves construct label node ++ heldLeavesOf construct label rest

end

end Node

/-- The leaves of a tree with the nodes that hold them. Nothing holds a root that is a leaf itself. -/
def SyntaxTree.heldLeaves (tree : SyntaxTree) : List HeldLeaf :=
  tree.root.heldLeaves .other ⟨"", none, ⟨0, 0, 0, 0⟩⟩

open Node

mutual

theorem leaves_eq_held (construct : Construct) (label : Label) : (node : Node) →
    node.leaves = (heldLeaves construct label node).map HeldLeaf.leaf
  | .ident _ => rfl
  | .token _ => rfl
  | .branch inner innerLabel children => leavesOf_eq_held inner innerLabel children

theorem leavesOf_eq_held (construct : Construct) (label : Label) : (nodes : List Node) →
    leavesOf nodes = (heldLeavesOf construct label nodes).map HeldLeaf.leaf
  | [] => rfl
  | node :: rest => by
      rw [leavesOf, heldLeavesOf, List.map_append, ← leaves_eq_held construct label node,
        ← leavesOf_eq_held construct label rest]

end

/-! ### Concrete trees -/

mutual

/-- The kinds of the leaves of a concrete tree, each behind the kind of the node that holds it. -/
def heldKinds (holder : String) : Cst → List (String × String)
  | .node kind _ _ _ [] => [(holder, kind)]
  | .node kind _ _ _ (child :: rest) => heldKindsOf kind (child :: rest)

def heldKindsOf (holder : String) : Forest → List (String × String)
  | [] => []
  | tree :: rest => heldKinds holder tree ++ heldKindsOf holder rest

end

/-- What the kinds of a leaf and its holder make of the leaf. -/
structure HeldLeaf.Shows (held : HeldLeaf) (kinds : String × String) : Prop where
  construct : held.construct = Construct.ofGrammarKind kinds.1
  holder : held.label.kind = kinds.1
  kind : held.leaf.kind = kinds.2
  isIdent : held.isIdent = (identifierKinds.contains kinds.2 && !quotedKinds.contains kinds.1)

theorem shows_nodeOfToken (holder : Label) (leaf : Token) :
    List.Forall₂ HeldLeaf.Shows
      (heldLeaves (Construct.ofGrammarKind holder.kind) holder
        (if quotedKinds.contains holder.kind then (nodeOfToken leaf).asPlain else nodeOfToken leaf))
      [(holder.kind, leaf.kind)] := by
  unfold nodeOfToken
  cases isQuoted : quotedKinds.contains holder.kind with
  | true =>
      have isPlain : Node.asPlain (if identifierKinds.contains leaf.kind then .ident leaf
          else .token leaf) = .token leaf := by
        split <;> rfl
      rw [if_pos rfl, isPlain]
      refine .cons ⟨rfl, rfl, rfl, ?_⟩ .nil
      rw [isQuoted, Bool.not_true, Bool.and_false]
  | false =>
      rw [if_neg Bool.false_ne_true]
      cases isIdentifier : identifierKinds.contains leaf.kind with
      | true =>
          refine .cons ⟨rfl, rfl, rfl, ?_⟩ .nil
          rw [isQuoted, isIdentifier, Bool.not_false, Bool.and_true]
      | false =>
          refine .cons ⟨rfl, rfl, rfl, ?_⟩ .nil
          rw [isIdentifier, Bool.false_and]

mutual

theorem shows_ofCst (index : LineIndex) (holder : Label) : (tree : Cst) → (cursor : Cursor) →
    List.Forall₂ HeldLeaf.Shows
      (heldLeaves (Construct.ofGrammarKind holder.kind) holder
        (if quotedKinds.contains holder.kind then (ofCst index tree cursor).1.asPlain
          else (ofCst index tree cursor).1))
      (heldKinds holder.kind tree)
  | .node kind field start stop [], cursor => shows_nodeOfToken holder _
  | .node kind field start stop (child :: rest), cursor => by
      have shown := shows_ofForest index ⟨kind, field, spanOf index (.node kind field start stop [])⟩
        (child :: rest) cursor
      rw [heldKinds]
      split <;> exact shown

theorem shows_ofForest (index : LineIndex) (holder : Label) : (forest : Forest) →
    (cursor : Cursor) →
    List.Forall₂ HeldLeaf.Shows
      (heldLeavesOf (Construct.ofGrammarKind holder.kind) holder
        (ofForest index (quotedKinds.contains holder.kind) forest cursor).1)
      (heldKindsOf holder.kind forest)
  | [], _ => .nil
  | tree :: rest, cursor => by
      rw [ofForest, heldKindsOf]
      exact List.rel_append (shows_ofCst index holder tree cursor)
        (shows_ofForest index holder rest (ofCst index tree cursor).2)

end

/-- The leaves of a converted tree are what their kinds and those of their holders say. -/
theorem shows_convert (source : String) (tree : Cst) :
    List.Forall₂ HeldLeaf.Shows (convert source tree).heldLeaves
      (heldKindsOf tree.kind tree.children) :=
  shows_ofForest _ ⟨tree.kind, tree.field, _⟩ tree.children _

end Codemod.Tree
