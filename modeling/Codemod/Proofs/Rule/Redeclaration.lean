import Codemod.Proofs.Rule.Renaming
import Codemod.Proofs.Tree.Scope
import Mathlib.Data.List.Forall2

/-!
What a renaming makes of the declarations of a tree.

Renaming everywhere changes a tree leaf by leaf; renaming declarations changes the name leaf of those
within reach and enters no block. Both leave the inner nodes in their places.

Main statement: every declaration of a scope comes from the one that stood in its place. It keeps
its kind and its namespaces, and it has the new name if the renaming looks for it.
-/

set_option autoImplicit false

namespace Codemod

open Codemod.Tree

/-- What a renaming makes of a declaration: the name leaf of a kind within reach is renamed, and
what decides on the namespaces stays. -/
structure Renaming.Redeclares (rule : Renaming) (before after : Declaration) : Prop where
  kind : after.kind = before.kind
  name : after.name? =
    before.name?.map (if rule.reach.admits before.kind then rule.renameLeaf else id)
  fields : after.children.any Node.isFieldList = before.children.any Node.isFieldList

section

variable {rule : Renaming} {before after : Declaration}

theorem Renaming.Redeclares.namespaces_eq (redeclares : rule.Redeclares before after) :
    after.namespaces = before.namespaces := by
  unfold Declaration.namespaces
  rw [redeclares.kind, redeclares.fields]

theorem Renaming.Redeclares.nameText (redeclares : rule.Redeclares before after) :
    after.nameText? = if rule.isSource before then some rule.new else before.nameText? := by
  unfold Declaration.nameText? Renaming.isSource Declaration.nameText?
  rw [redeclares.name]
  cases rule.reach.admits before.kind with
  | false => simp
  | true =>
      cases before.name? with
      | none => rfl
      | some leaf =>
          simp only [if_true, Option.map_some, renameLeaf_text, Bool.true_and, beq_iff_eq,
            Option.some.injEq]
          split <;> rfl

end

/-! ### Renaming everywhere -/

section

variable (rule : Renaming)

theorem renameLeaf_field (leaf : Token) : (rule.renameLeaf leaf).field = leaf.field := by
  unfold Renaming.renameLeaf
  split <;> rfl

theorem keepsBranches_edit {change : LeafEdit} (entersAll : change.EntersAll) :
    KeepsBranches (Node.edit change) := by
  intro node construct label after isImage
  cases node with
  | ident leaf => exact nomatch isImage
  | token leaf => exact nomatch isImage
  | branch construct' label' before =>
      rw [edit_branch entersAll] at isImage
      obtain ⟨rfl, rfl, rfl⟩ := Node.branch.inj isImage
      refine ⟨before, rfl, ?_⟩
      intro _ index _ _ _ isChild
      rw [List.getElem?_map] at isChild
      exact Option.map_eq_some_iff.mp isChild

theorem nameLeaf?_everywhereEdit (node : Node) :
    (node.edit rule.everywhereEdit).nameLeaf? = node.nameLeaf?.map rule.renameLeaf := by
  cases node with
  | ident leaf =>
      change (if (rule.renameLeaf leaf).field = some "name" then _ else _) = _
      rw [renameLeaf_field, Node.nameLeaf?]
      split <;> rfl
  | token leaf => rfl
  | branch construct label children =>
      rw [edit_branch (entersAll_everywhereEdit rule)]
      rfl

theorem isFieldList_everywhereEdit (node : Node) :
    (node.edit rule.everywhereEdit).isFieldList = node.isFieldList := by
  cases node with
  | ident leaf => rfl
  | token leaf => rfl
  | branch construct label children =>
      rw [edit_branch (entersAll_everywhereEdit rule)]
      cases construct <;> rfl

theorem redeclares_everywhereEdit (everywhere : rule.reach = .everywhere)
    {before after : Declaration} (isImage : before.node.edit rule.everywhereEdit = after.node) :
    rule.Redeclares before after := by
  unfold Declaration.node at isImage
  rw [edit_branch (entersAll_everywhereEdit rule)] at isImage
  obtain ⟨sameKind, _, childrenEq⟩ := Node.branch.inj isImage
  refine ⟨(Construct.declaration.inj sameKind).symm, ?_, ?_⟩
  · unfold Declaration.name?
    rw [← childrenEq, everywhere, List.findSome?_map, List.map_findSome?]
    congr 1
    funext node
    exact nameLeaf?_everywhereEdit rule node
  · rw [← childrenEq, List.any_map]
    congr 1
    funext node
    exact isFieldList_everywhereEdit rule node

/-! ### Renaming declarations -/

theorem renameNamesOf_false (nodes : List Node) :
    rule.renameNamesOf false nodes = nodes.map rule.renameNames := by
  induction nodes with
  | nil => rfl
  | cons node rest ih => rw [Renaming.renameNamesOf, ih, List.map_cons]; exact nofun

theorem renameNamesOf_name {node : Node} {leaf : Token} (isName : node.nameLeaf? = some leaf)
    (rest : List Node) :
    rule.renameNamesOf true (node :: rest) =
      .ident (rule.renameLeaf leaf) :: rest.map rule.renameNames := by
  unfold Renaming.renameNamesOf
  rw [isName, renameNamesOf_false]

theorem renameNamesOf_other {node : Node} (noName : node.nameLeaf? = none) (rest : List Node) :
    rule.renameNamesOf true (node :: rest) =
      rule.renameNames node :: rule.renameNamesOf true rest := by
  conv => lhs; unfold Renaming.renameNamesOf
  rw [noName]

/-- Of a run of nodes, the first name leaf is renamed if the names of the run are asked for, and
behind it none is. -/
theorem renameNamesOf_nameLeaf (ownName : Bool) {leaf : Token}
    (isField : leaf.field = some "name") (rest : List Node) :
    rule.renameNamesOf ownName (.ident leaf :: rest) =
      .ident (if ownName then rule.renameLeaf leaf else leaf) :: rule.renameNamesOf false rest := by
  cases ownName with
  | false =>
      rw [renameNamesOf_false, renameNamesOf_false]
      rfl
  | true =>
      rw [renameNamesOf_name rule (nameLeaf?_eq_some_iff.mpr ⟨rfl, isField⟩), renameNamesOf_false]
      rfl

theorem renameNamesOf_noName (ownName : Bool) {node : Node}
    (noName : node.nameLeaf? = none) (rest : List Node) :
    rule.renameNamesOf ownName (node :: rest) =
      rule.renameNames node :: rule.renameNamesOf ownName rest := by
  cases ownName with
  | false => rw [renameNamesOf_false, renameNamesOf_false, List.map_cons]
  | true => exact renameNamesOf_other rule noName rest

theorem nameLeaf?_renameNames (node : Node) :
    (rule.renameNames node).nameLeaf? = node.nameLeaf? := by
  cases node with
  | ident leaf => rfl
  | token leaf => rfl
  | branch construct label children => cases construct <;> rfl

theorem isFieldList_renameNames (node : Node) :
    (rule.renameNames node).isFieldList = node.isFieldList := by
  cases node with
  | ident leaf => rfl
  | token leaf => rfl
  | branch construct label children => cases construct <;> rfl

theorem findSome?_map_renameNames (nodes : List Node) :
    (nodes.map rule.renameNames).findSome? Node.nameLeaf? = nodes.findSome? Node.nameLeaf? := by
  rw [List.findSome?_map]
  congr 1
  funext node
  exact nameLeaf?_renameNames rule node

theorem any_map_renameNames (nodes : List Node) :
    (nodes.map rule.renameNames).any Node.isFieldList = nodes.any Node.isFieldList := by
  rw [List.any_map]
  congr 1
  funext node
  exact isFieldList_renameNames rule node

/-- With `ownName` the first name leaf of a run of nodes is renamed, and otherwise none. -/
theorem findSome?_renameNamesOf (ownName : Bool) (nodes : List Node) :
    (rule.renameNamesOf ownName nodes).findSome? Node.nameLeaf? =
      (nodes.findSome? Node.nameLeaf?).map (if ownName then rule.renameLeaf else id) := by
  cases ownName with
  | false =>
      rw [renameNamesOf_false, findSome?_map_renameNames]
      exact Option.map_id'.symm
  | true =>
      induction nodes with
      | nil => rfl
      | cons node rest ih =>
          cases isName : node.nameLeaf? with
          | none =>
              rw [renameNamesOf_other rule isName, List.findSome?_cons, List.findSome?_cons,
                nameLeaf?_renameNames, isName]
              exact ih
          | some leaf =>
              have isField := (nameLeaf?_eq_some_iff.mp isName).2
              have renamed := nameLeaf?_eq_some_iff.mpr
                ⟨rfl, (renameLeaf_field rule leaf).trans isField⟩
              rw [renameNamesOf_name rule isName, List.findSome?_cons, List.findSome?_cons, renamed,
                isName]
              rfl

theorem any_renameNamesOf (ownName : Bool) (nodes : List Node) :
    (rule.renameNamesOf ownName nodes).any Node.isFieldList = nodes.any Node.isFieldList := by
  cases ownName with
  | false => rw [renameNamesOf_false, any_map_renameNames]
  | true =>
      induction nodes with
      | nil => rfl
      | cons node rest ih =>
          cases isName : node.nameLeaf? with
          | none =>
              rw [renameNamesOf_other rule isName, List.any_cons, List.any_cons, ih,
                isFieldList_renameNames]
          | some leaf =>
              obtain ⟨rfl, _⟩ := nameLeaf?_eq_some_iff.mp isName
              rw [renameNamesOf_name rule isName, List.any_cons, List.any_cons, any_map_renameNames]
              rfl

theorem branch_of_renameNamesOf (ownName : Bool) {nodes : List Node} {index : Nat}
    {construct : Construct} {label : Label} {below : List Node}
    (isThere : (rule.renameNamesOf ownName nodes)[index]? = some (.branch construct label below)) :
    ∃ node, nodes[index]? = some node ∧ rule.renameNames node = .branch construct label below := by
  cases ownName with
  | false =>
      rw [renameNamesOf_false, List.getElem?_map] at isThere
      exact Option.map_eq_some_iff.mp isThere
  | true =>
      induction nodes generalizing index with
      | nil => exact nomatch isThere
      | cons node rest ih =>
          cases isName : node.nameLeaf? with
          | none =>
              rw [renameNamesOf_other rule isName] at isThere
              cases index with
              | zero => exact ⟨node, rfl, Option.some.inj isThere⟩
              | succ index => exact ih isThere
          | some leaf =>
              rw [renameNamesOf_name rule isName] at isThere
              cases index with
              | zero => exact nomatch isThere
              | succ index =>
                  rw [List.getElem?_cons_succ, List.getElem?_map] at isThere
                  exact Option.map_eq_some_iff.mp isThere

theorem keepsBranches_renameNames : KeepsBranches rule.renameNames := by
  intro node construct label after isImage
  cases node with
  | ident leaf => exact nomatch isImage
  | token leaf => exact nomatch isImage
  | branch construct' label' before =>
      cases construct' with
      | block =>
          obtain ⟨rfl, rfl, rfl⟩ := Node.branch.inj isImage
          exact ⟨before, rfl, fun notBlock => absurd rfl notBlock⟩
      | file =>
          obtain ⟨rfl, rfl, rfl⟩ := Node.branch.inj isImage
          exact ⟨before, rfl, fun _ _ _ _ _ => branch_of_renameNamesOf rule false⟩
      | declaration kind =>
          obtain ⟨rfl, rfl, rfl⟩ := Node.branch.inj isImage
          exact ⟨before, rfl, fun _ _ _ _ _ => branch_of_renameNamesOf rule _⟩
      | call =>
          obtain ⟨rfl, rfl, rfl⟩ := Node.branch.inj isImage
          exact ⟨before, rfl, fun _ _ _ _ _ => branch_of_renameNamesOf rule false⟩
      | other =>
          obtain ⟨rfl, rfl, rfl⟩ := Node.branch.inj isImage
          exact ⟨before, rfl, fun _ _ _ _ _ => branch_of_renameNamesOf rule false⟩

theorem redeclares_renameNames {before after : Declaration}
    (isImage : rule.renameNames before.node = after.node) : rule.Redeclares before after := by
  unfold Declaration.node Renaming.renameNames at isImage
  obtain ⟨sameKind, _, childrenEq⟩ := Node.branch.inj isImage
  refine ⟨(Construct.declaration.inj sameKind).symm, ?_, ?_⟩
  · unfold Declaration.name?
    rw [← childrenEq]
    exact findSome?_renameNamesOf rule _ before.children
  · rw [← childrenEq]
    exact any_renameNamesOf rule _ before.children

/-- What may become of an identifier: it stays as it is, or it is renamed if it reads the old name. -/
def Renaming.Respells (before after : Token) : Prop :=
  after = before ∨ after = rule.renameLeaf before

mutual

theorem identifiers_renameNames : (node : Node) →
    List.Forall₂ rule.Respells node.identifiers (rule.renameNames node).identifiers
  | .ident _ => .cons (.inl rfl) .nil
  | .token _ => .nil
  | .branch construct label children => by
      cases construct with
      | block => exact List.forall₂_same.mpr fun _ _ => .inl rfl
      | declaration kind => exact identifiersOf_renameNamesOf _ children
      | file => exact identifiersOf_renameNamesOf false children
      | call => exact identifiersOf_renameNamesOf false children
      | other => exact identifiersOf_renameNamesOf false children

theorem identifiersOf_renameNamesOf (ownName : Bool) : (nodes : List Node) →
    List.Forall₂ rule.Respells (Node.identifiersOf nodes)
      (Node.identifiersOf (rule.renameNamesOf ownName nodes))
  | [] => .nil
  | node :: rest => by
      unfold Renaming.renameNamesOf
      split
      · rename_i name isName
        obtain ⟨rfl, _⟩ := nameLeaf?_eq_some_iff.mp isName
        exact List.rel_append (.cons (.inr rfl) .nil) (identifiersOf_renameNamesOf false rest)
      · exact List.rel_append (identifiers_renameNames node) (identifiersOf_renameNamesOf _ rest)

end

/-! ### The renamed tree -/

variable {rule} {tree : SyntaxTree}

/-- Every declaration of a scope comes from the declaration that stood in its place. -/
theorem declares_rename {container : List Nat} {index : Nat} {after : Declaration}
    (declares : (rule.rename tree).Declares container index after) :
    ∃ before, tree.Declares container index before ∧ rule.Redeclares before after := by
  unfold Renaming.rename at declares
  split at declares
  · rename_i everywhere
    obtain ⟨before, declaresBefore, isImage⟩ :=
      declares_of_keepsBranches (keepsBranches_edit (entersAll_everywhereEdit rule)) declares
    exact ⟨before, declaresBefore, redeclares_everywhereEdit rule everywhere isImage⟩
  · obtain ⟨before, declaresBefore, isImage⟩ :=
      declares_of_keepsBranches (keepsBranches_renameNames rule) declares
    exact ⟨before, declaresBefore, redeclares_renameNames rule isImage⟩

/-- The identifiers of a renamed tree, in order, are those that were there, as they were or renamed. -/
theorem identifiers_rename (rule : Renaming) (tree : SyntaxTree) :
    List.Forall₂ rule.Respells tree.identifiers (rule.rename tree).identifiers := by
  unfold Renaming.rename
  split
  · rw [identifiers_everywhereEdit, List.forall₂_map_right_iff]
    exact List.forall₂_same.mpr fun _ _ => .inr rfl
  · exact identifiers_renameNames rule tree.root

theorem mem_identifiers_rename {leaf : Token} (isIn : leaf ∈ (rule.rename tree).identifiers) :
    ∃ before, before ∈ tree.identifiers ∧ (leaf = before ∨ leaf = rule.renameLeaf before) := by
  obtain ⟨index, within, rfl⟩ := List.mem_iff_getElem.mp isIn
  obtain ⟨sameLength, respells⟩ := List.forall₂_iff_get.mp (identifiers_rename rule tree)
  exact ⟨_, List.getElem_mem (sameLength ▸ within), respells index (sameLength ▸ within) within⟩

end

end Codemod
