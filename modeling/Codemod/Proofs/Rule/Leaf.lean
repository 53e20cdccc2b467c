import Codemod.Proofs.Diff.Lines
import Codemod.Proofs.Rule.ItemName
import Codemod.Proofs.Tree.Holder

/-!
What a renaming does leaf by leaf.

A renaming keeps the leaves in their order and in their nodes. One that reaches everything renames each
identifier that reads the old name; one that reaches declarations renames at most identifiers that a
declaration holds.
-/

set_option autoImplicit false

namespace Codemod

open Codemod.Diff (SameBreaks)
open Codemod.Tree
open Codemod.Tree.Node (heldLeaves heldLeavesOf)

namespace Renaming

/-- A leaf with the new name if it is an identifier that reads the old one. -/
def renameHeld (rule : Renaming) (held : HeldLeaf) : HeldLeaf :=
  if held.isIdent then { held with leaf := rule.renameLeaf held.leaf } else held

/-- A leaf stays as it is, unless it is renamed where a declaration holds it. -/
def RewritesName (rule : Renaming) (before after : HeldLeaf) : Prop :=
  after = before ∨
    (∃ kind, before.construct = .declaration kind) ∧ after = rule.renameHeld before

/-- What may become of a leaf under a renaming that succeeds. -/
def Rewrites (rule : Renaming) (before after : HeldLeaf) : Prop :=
  match rule.reach with
  | .everywhere => after = rule.renameHeld before
  | .declarations _ => rule.RewritesName before after

end Renaming

section

variable (rule : Renaming)

mutual

theorem heldLeaves_everywhereEdit (construct : Construct) (label : Label) : (node : Node) →
    heldLeaves construct label (node.edit rule.everywhereEdit) =
      (heldLeaves construct label node).map rule.renameHeld
  | .ident _ => rfl
  | .token _ => rfl
  | .branch inner innerLabel children => by
      rw [edit_branch (entersAll_everywhereEdit rule), ← editAll_eq_map, heldLeaves, heldLeaves]
      exact heldLeavesOf_everywhereEdit inner innerLabel children

theorem heldLeavesOf_everywhereEdit (construct : Construct) (label : Label) : (nodes : List Node) →
    heldLeavesOf construct label (Node.editAll rule.everywhereEdit nodes) =
      (heldLeavesOf construct label nodes).map rule.renameHeld
  | [] => rfl
  | node :: rest => by
      rw [Node.editAll, heldLeavesOf, heldLeavesOf, List.map_append,
        heldLeaves_everywhereEdit construct label node,
        heldLeavesOf_everywhereEdit construct label rest]

end

mutual

theorem heldLeaves_renameNames (construct : Construct) (label : Label) : (node : Node) →
    List.Forall₂ rule.RewritesName (heldLeaves construct label node)
      (heldLeaves construct label (rule.renameNames node))
  | .ident _ => .cons (.inl rfl) .nil
  | .token _ => .cons (.inl rfl) .nil
  | .branch inner innerLabel children => by
      cases inner with
      | block => exact List.forall₂_same.mpr fun _ _ => .inl rfl
      | declaration kind =>
          exact heldLeavesOf_renameNamesOf _ innerLabel _ (fun _ => ⟨kind, rfl⟩) children
      | file => exact heldLeavesOf_renameNamesOf _ innerLabel false nofun children
      | call => exact heldLeavesOf_renameNamesOf _ innerLabel false nofun children
      | other => exact heldLeavesOf_renameNamesOf _ innerLabel false nofun children

theorem heldLeavesOf_renameNamesOf (construct : Construct) (label : Label) (ownName : Bool)
    (ofDeclaration : ownName = true → ∃ kind, construct = .declaration kind) : (nodes : List Node) →
    List.Forall₂ rule.RewritesName (heldLeavesOf construct label nodes)
      (heldLeavesOf construct label (rule.renameNamesOf ownName nodes))
  | [] => .nil
  | node :: rest => by
      unfold Renaming.renameNamesOf
      split
      · rename_i name isName
        obtain ⟨rfl, _⟩ := nameLeaf?_eq_some_iff.mp isName
        refine List.rel_append (.cons (.inr ⟨ofDeclaration rfl, rfl⟩) .nil) ?_
        exact heldLeavesOf_renameNamesOf construct label false nofun rest
      · exact List.rel_append (heldLeaves_renameNames construct label node)
          (heldLeavesOf_renameNamesOf construct label _ ofDeclaration rest)

end

variable {rule} {tree : SyntaxTree}

/-- The leaves stay in their nodes and in their order, and each becomes what the rule makes of it. -/
theorem heldLeaves_apply (succeeds : (rule.apply tree).error = none) :
    List.Forall₂ rule.Rewrites tree.heldLeaves (rule.apply tree).tree.heldLeaves := by
  unfold Renaming.Rewrites
  cases isReach : rule.reach with
  | everywhere =>
      rw [apply_everywhere isReach succeeds]
      change List.Forall₂ _ _ (heldLeaves _ _ (tree.root.edit rule.everywhereEdit))
      rw [heldLeaves_everywhereEdit, List.forall₂_map_right_iff]
      exact List.forall₂_same.mpr fun _ _ => rfl
  | declarations only =>
      rcases apply_declarations isReach succeeds with ⟨-, applied⟩ | ⟨-, applied⟩
      · rw [applied]
        exact List.forall₂_same.mpr fun _ _ => .inl rfl
      · rw [applied]
        exact heldLeaves_renameNames rule _ _ tree.root

/-! ### Lines -/

theorem leaf_of_rewrites {before after : HeldLeaf} (rewrites : rule.Rewrites before after) :
    after.leaf = before.leaf ∨ after.leaf = rule.renameLeaf before.leaf := by
  have ofRenamed : (rule.renameHeld before).leaf = before.leaf ∨
      (rule.renameHeld before).leaf = rule.renameLeaf before.leaf := by
    unfold Renaming.renameHeld
    split
    · exact .inr rfl
    · exact .inl rfl
  unfold Renaming.Rewrites at rewrites
  split at rewrites
  · rw [rewrites]
    exact ofRenamed
  · rcases rewrites with same | ⟨-, renamed⟩
    · exact .inl (congrArg HeldLeaf.leaf same)
    · rw [renamed]
      exact ofRenamed

section

variable (sameText : SameBreaks rule.old.toList rule.new.toList)
include sameText

theorem sameBreaks_of_rewrites {before after : List HeldLeaf}
    (rewrites : List.Forall₂ rule.Rewrites before after) :
    SameBreaks ((before.map HeldLeaf.leaf).flatMap Token.written)
      ((after.map HeldLeaf.leaf).flatMap Token.written) := by
  have renamed (leaf : Token) : SameBreaks leaf.written (rule.renameLeaf leaf).written := by
    unfold Renaming.renameLeaf
    split
    · rename_i reads
      rw [Token.written, Token.written, reads]
      exact (SameBreaks.refl _).append sameText
    · exact .refl _
  induction rewrites with
  | nil => exact .nil
  | cons first _ ih =>
      simp only [List.map_cons, List.flatMap_cons]
      refine SameBreaks.append ?_ ih
      rcases leaf_of_rewrites first with same | isRenamed
      · rw [same]
        exact .refl _
      · rw [isRenamed]
        exact renamed _

/-- A renaming between words that no line end stands in changes nothing but words. -/
theorem sameBreaks_apply :
    SameBreaks tree.toSource.toList (rule.apply tree).tree.toSource.toList := by
  rcases tree_apply rule tree with same | ⟨free, renamed⟩
  · rw [same]
    exact .refl _
  · have succeeds : (rule.apply tree).error = none := by
      rw [error_eq, free]
      rfl
    have sameTrailing : (rule.apply tree).tree.trailing = tree.trailing := by
      rw [renamed]
      unfold Renaming.rename
      split <;> rfl
    simp only [SyntaxTree.toSource, String.toList_append, toList_leafText, sameTrailing]
    rw [leaves_eq_held, leaves_eq_held]
    exact (sameBreaks_of_rewrites sameText (heldLeaves_apply succeeds)).append (.refl _)

end

end

end Codemod
