import Codemod.Proofs.Rule.Collision
import Codemod.Proofs.Rule.Redeclaration
import Mathlib.Data.List.Find

/-!
The image of a tree under a renaming, as another renaming finds it.

A renaming keeps the scopes and the declarations in them in their order. So a second renaming meets
the images of the declarations it would have met before; where it looks for the same of them, it
finds the same in its way.

Main statements: the scopes of a renamed tree are the images of the scopes, and a search for
collisions behind a renaming finds the image of what it would have found before.
-/

set_option autoImplicit false

namespace Codemod

open Codemod.Tree
open Codemod.Tree.Node

namespace Renaming

/-- What a renaming makes of a node. -/
def change (rule : Renaming) (node : Node) : Node :=
  match rule.reach with
  | .everywhere => node.edit rule.everywhereEdit
  | .declarations _ => rule.renameNames node

/-- What a renaming makes of a declaration. -/
def redeclare (rule : Renaming) (declaration : Declaration) : Declaration :=
  match rule.reach with
  | .everywhere =>
      { declaration with children := editAll rule.everywhereEdit declaration.children }
  | .declarations _ =>
      { declaration with
        children := rule.renameNamesOf (rule.reach.admits declaration.kind) declaration.children }

end Renaming

theorem rename_eq_change (rule : Renaming) (tree : SyntaxTree) :
    rule.rename tree = { tree with root := rule.change tree.root } := by
  unfold Renaming.rename Renaming.change
  cases rule.reach <;> rfl

theorem findSome?_congr {α β : Type} {left right : α → Option β} {items : List α}
    (agree : ∀ item, item ∈ items → left item = right item) :
    items.findSome? left = items.findSome? right := by
  rw [← List.head?_filterMap, ← List.head?_filterMap, List.filterMap_congr agree]

section

variable (rule : Renaming)

/-! ### Declarations -/

theorem redeclares_redeclare (declaration : Declaration) :
    rule.Redeclares declaration (rule.redeclare declaration) := by
  unfold Renaming.redeclare
  cases isReach : rule.reach with
  | everywhere =>
      refine redeclares_everywhereEdit rule isReach ?_
      rw [Declaration.node, edit_branch (entersAll_everywhereEdit rule), ← editAll_eq_map]
      rfl
  | declarations only =>
      refine redeclares_renameNames rule ?_
      rw [Declaration.node, Renaming.renameNames, isReach]
      rfl

theorem redeclare_label (declaration : Declaration) :
    (rule.redeclare declaration).label = declaration.label := by
  unfold Renaming.redeclare
  cases rule.reach <;> rfl

theorem renameLeaf_span (leaf : Token) : (rule.renameLeaf leaf).span = leaf.span := by
  unfold Renaming.renameLeaf
  split <;> rfl

theorem redeclare_line (declaration : Declaration) :
    (rule.redeclare declaration).line = declaration.line := by
  unfold Declaration.line
  rw [(redeclares_redeclare rule declaration).name, redeclare_label]
  cases declaration.name? with
  | none => rfl
  | some leaf =>
      change ((if rule.reach.admits declaration.kind then rule.renameLeaf else id) leaf).span.line =
        _
      split
      · rw [renameLeaf_span]
      · rfl

theorem sharesNamespace_redeclare (left right : Declaration) :
    (rule.redeclare left).sharesNamespace (rule.redeclare right) = left.sharesNamespace right := by
  unfold Declaration.sharesNamespace
  rw [(redeclares_redeclare rule left).namespaces_eq,
    (redeclares_redeclare rule right).namespaces_eq]

/-- A name that the renaming neither takes away nor gives is read where it has been read. -/
theorem reads_redeclare {name : String} (notOld : name ≠ rule.old) (notNew : name ≠ rule.new)
    (declaration : Declaration) :
    ((rule.redeclare declaration).nameText? == some name) =
      (declaration.nameText? == some name) := by
  rw [(redeclares_redeclare rule declaration).nameText]
  split
  · rename_i isSource
    rw [(isSource_iff.mp isSource).2]
    exact (beq_eq_false_iff_ne.mpr fun same => notNew (Option.some.inj same).symm).trans
      (beq_eq_false_iff_ne.mpr fun same => notOld (Option.some.inj same).symm).symm
  · rfl

/-! ### Scopes -/

/-- A node is changed into an inner node of the same sort, and what it holds of declarations and
scopes into their images. -/
theorem scopes_branch {rule : Renaming} {construct : Construct} {label : Label}
    {before after : List Node}
    (declarations : construct ≠ .block →
      after.filterMap declaration? = (before.filterMap declaration?).map rule.redeclare)
    (below : construct ≠ .block →
      scopesOf after = (scopesOf before).map (List.map rule.redeclare)) :
    scopes (.branch construct label after) =
      (scopes (.branch construct label before)).map (List.map rule.redeclare) := by
  rw [scopes, scopes]
  by_cases isBlock : construct = .block
  · rw [if_pos isBlock, if_pos isBlock]
    rfl
  · rw [if_neg isBlock, if_neg isBlock, below isBlock]
    split
    · rw [declarations isBlock]
      rfl
    · rfl

theorem declaration?_edit (everywhere : rule.reach = .everywhere) (node : Node) :
    (node.edit rule.everywhereEdit).declaration? = node.declaration?.map rule.redeclare := by
  cases node with
  | ident leaf => rfl
  | token leaf => rfl
  | branch construct label children =>
      rw [edit_branch (entersAll_everywhereEdit rule), ← editAll_eq_map]
      cases construct with
      | declaration kind =>
          unfold Renaming.redeclare
          rw [everywhere]
          rfl
      | block => rfl
      | file => rfl
      | call => rfl
      | other => rfl

theorem declarations_editAll (everywhere : rule.reach = .everywhere) (nodes : List Node) :
    (editAll rule.everywhereEdit nodes).filterMap declaration? =
      (nodes.filterMap declaration?).map rule.redeclare := by
  rw [editAll_eq_map, List.filterMap_map, List.map_filterMap]
  refine List.filterMap_congr fun node _ => ?_
  exact declaration?_edit rule everywhere node

mutual

theorem scopes_edit (everywhere : rule.reach = .everywhere) : (node : Node) →
    (node.edit rule.everywhereEdit).scopes = node.scopes.map (List.map rule.redeclare)
  | .ident _ => rfl
  | .token _ => rfl
  | .branch construct label children => by
      rw [edit_branch (entersAll_everywhereEdit rule), ← editAll_eq_map]
      exact scopes_branch (fun _ => declarations_editAll rule everywhere children)
        (fun _ => scopesOf_editAll everywhere children)

theorem scopesOf_editAll (everywhere : rule.reach = .everywhere) : (nodes : List Node) →
    scopesOf (editAll rule.everywhereEdit nodes) =
      (scopesOf nodes).map (List.map rule.redeclare)
  | [] => rfl
  | node :: rest => by
      rw [editAll, scopesOf, scopesOf, List.map_append, scopes_edit everywhere node,
        scopesOf_editAll everywhere rest]

end

section

variable {only : Option DeclKind}

theorem declaration?_renameNames (declarations : rule.reach = .declarations only) (node : Node) :
    (rule.renameNames node).declaration? = node.declaration?.map rule.redeclare := by
  cases node with
  | ident leaf => rfl
  | token leaf => rfl
  | branch construct label children =>
      cases construct with
      | declaration kind =>
          unfold Renaming.redeclare
          rw [declarations]
          change some _ = some _
          rw [declarations]
      | block => rfl
      | file => rfl
      | call => rfl
      | other => rfl

theorem declarations_renameNamesOf (declarations : rule.reach = .declarations only)
    (ownName : Bool) (nodes : List Node) :
    (rule.renameNamesOf ownName nodes).filterMap declaration? =
      (nodes.filterMap declaration?).map rule.redeclare := by
  induction nodes generalizing ownName with
  | nil => rfl
  | cons node rest ih =>
      unfold Renaming.renameNamesOf
      split
      · rename_i name isName
        obtain ⟨rfl, _⟩ := nameLeaf?_eq_some_iff.mp isName
        exact ih false
      · rw [List.filterMap_cons, List.filterMap_cons, declaration?_renameNames rule declarations,
          ih]
        cases node.declaration? <;> rfl

mutual

theorem scopes_renameNames (declarations : rule.reach = .declarations only) : (node : Node) →
    (rule.renameNames node).scopes = node.scopes.map (List.map rule.redeclare)
  | .ident _ => rfl
  | .token _ => rfl
  | .branch construct label children => by
      have inside (ownName : Bool) :
          scopes (.branch construct label (rule.renameNamesOf ownName children)) =
            (scopes (.branch construct label children)).map (List.map rule.redeclare) :=
        scopes_branch (fun _ => declarations_renameNamesOf rule declarations ownName children)
          (fun _ => scopesOf_renameNamesOf declarations ownName children)
      cases construct with
      | block => exact scopes_branch (absurd rfl) (absurd rfl)
      | declaration kind => exact inside _
      | file => exact inside false
      | call => exact inside false
      | other => exact inside false

theorem scopesOf_renameNamesOf (declarations : rule.reach = .declarations only)
    (ownName : Bool) : (nodes : List Node) →
    scopesOf (rule.renameNamesOf ownName nodes) =
      (scopesOf nodes).map (List.map rule.redeclare)
  | [] => rfl
  | node :: rest => by
      unfold Renaming.renameNamesOf
      split
      · rename_i name isName
        obtain ⟨rfl, _⟩ := nameLeaf?_eq_some_iff.mp isName
        exact scopesOf_renameNamesOf declarations false rest
      · rw [scopesOf, scopesOf, List.map_append, scopes_renameNames declarations node,
          scopesOf_renameNamesOf declarations _ rest]

end

end

theorem scopes_rename (tree : SyntaxTree) :
    (rule.rename tree).scopes = tree.scopes.map (List.map rule.redeclare) := by
  unfold Renaming.rename
  split
  · rename_i everywhere
    exact scopes_edit rule everywhere tree.root
  · rename_i only declarations
    exact scopes_renameNames rule declarations tree.root

end

/-! ### What another renaming finds -/

section

variable {rule before after : Renaming} {tree : SyntaxTree}

/-- Behind a renaming, a rule looks for the images of the declarations that another one has looked
for before it, and for new names where that one has looked for them. -/
structure Renaming.Follows (rule before after : Renaming) (tree : SyntaxTree) : Prop where
  source : ∀ scope, scope ∈ tree.scopes → ∀ declaration, declaration ∈ scope →
    after.isSource (rule.redeclare declaration) = before.isSource declaration
  taken : ∀ scope, scope ∈ tree.scopes → ∀ declaration, declaration ∈ scope →
    ((rule.redeclare declaration).nameText? == some after.new) =
      (declaration.nameText? == some before.new)

theorem collisionIn?_redeclare (follows : rule.Follows before after tree)
    {scope : List Declaration} (isScope : scope ∈ tree.scopes) :
    after.collisionIn? (scope.map rule.redeclare) =
      (before.collisionIn? scope).map rule.redeclare := by
  have sources : scope.filter (after.isSource ∘ rule.redeclare) = scope.filter before.isSource :=
    List.filter_congr (follows.source scope isScope)
  unfold Renaming.collisionIn?
  rw [List.filter_map, sources, List.findSome?_map, List.map_findSome?]
  refine findSome?_congr fun source _ => ?_
  rw [Function.comp_apply, Function.comp_apply, List.find?_map]
  congr 1
  refine List.find?_congr fun existing isIn => ?_
  unfold Renaming.isInTheWay
  rw [Function.comp_apply, follows.taken scope isScope existing isIn, sharesNamespace_redeclare]

theorem collision?_rename (follows : rule.Follows before after tree) :
    after.collision? (rule.rename tree) = (before.collision? tree).map rule.redeclare := by
  unfold Renaming.collision?
  rw [scopes_rename, List.findSome?_map, List.map_findSome?]
  exact findSome?_congr fun scope isScope => collisionIn?_redeclare follows isScope

theorem collisionError_redeclare (rule other : Renaming) (existing : Declaration) :
    other.collisionError (rule.redeclare existing) = other.collisionError existing := by
  unfold Renaming.collisionError
  rw [redeclare_line, (redeclares_redeclare rule existing).kind]

theorem any_isSource_rename (follows : rule.Follows before after tree) :
    ((rule.rename tree).scopes.any fun scope => scope.any after.isSource) =
      tree.scopes.any fun scope => scope.any before.isSource := by
  rw [scopes_rename, List.any_map, Bool.eq_iff_iff, List.any_eq_true, List.any_eq_true]
  refine exists_congr fun scope => and_congr_right fun isScope => ?_
  rw [Function.comp_apply, List.any_map, List.any_eq_true, List.any_eq_true]
  refine exists_congr fun declaration => and_congr_right fun isIn => ?_
  rw [Function.comp_apply, follows.source scope isScope declaration isIn]

end

end Codemod
