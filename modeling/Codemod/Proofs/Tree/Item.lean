import Codemod.Proofs.Tree.Scope

/-!
Declarations at the level of items, and the scopes that hold them.

A declaration is in place if it stands directly in a file, in the body of a module, implementation,
trait or block of foreign code, or in a block of statements. Where all declarations are in place, one
outside all blocks stands in a scope.

Main statement: the scopes of such a tree, taken together, hold the declarations outside all blocks,
each as often as it occurs.
-/

set_option autoImplicit false

namespace Codemod.Tree

namespace Node

mutual

/-- Whether every declaration below a node is a child of a file, a body or a block. -/
def holdsInPlace : Node → Bool
  | .ident _ => true
  | .token _ => true
  | .branch construct label children =>
      (opensScope construct label || construct == .block ||
        children.all fun child => child.declaration?.isNone) && holdInPlace children

/-- Whether every declaration below some nodes is a child of a file, a body or a block. -/
def holdInPlace : List Node → Bool
  | [] => true
  | node :: rest => holdsInPlace node && holdInPlace rest

end

end Node

/-- Whether every declaration of a tree is a child of a file, a body or a block. -/
def SyntaxTree.declaresInPlace (tree : SyntaxTree) : Bool :=
  tree.root.declaration?.isNone && tree.root.holdsInPlace

open Node

theorem holdsInPlace_branch_iff {construct : Construct} {label : Label} {children : List Node} :
    (Node.branch construct label children).holdsInPlace = true ↔
      (opensScope construct label = true ∨ construct = .block ∨
          children.filterMap declaration? = []) ∧
        holdInPlace children = true := by
  rw [holdsInPlace, Bool.and_eq_true, Bool.or_eq_true, Bool.or_eq_true, beq_iff_eq, or_assoc,
    List.filterMap_eq_nil_iff, List.all_eq_true]
  simp only [Option.isNone_iff_eq_none]

/-- No inner node at or below a node has a declaration among its children that is out of place. -/
def Node.InPlaceBelow (node : Node) : Prop :=
  ∀ place construct label children, node.at? place = some (.branch construct label children) →
    opensScope construct label = true ∨ construct = .block ∨ children.filterMap declaration? = []

mutual

theorem holdsInPlace_iff : (node : Node) → (node.holdsInPlace = true ↔ node.InPlaceBelow)
  | .ident _ => by
      refine iff_of_true rfl fun place construct label children isThere => ?_
      cases place <;> exact nomatch isThere
  | .token _ => by
      refine iff_of_true rfl fun place construct label children isThere => ?_
      cases place <;> exact nomatch isThere
  | .branch construct label children => by
      rw [holdsInPlace_branch_iff, holdInPlace_iff children]
      constructor
      · rintro ⟨own, below⟩ place construct' label' children' isThere
        cases place with
        | nil =>
            obtain ⟨rfl, rfl, rfl⟩ := Node.branch.inj (Option.some.inj isThere)
            exact own
        | cons index place =>
            obtain ⟨child, isChild, isBelow⟩ := Option.bind_eq_some_iff.mp isThere
            exact below child (List.mem_of_getElem? isChild) place construct' label' children' isBelow
      · intro all
        refine ⟨all [] construct label children rfl, ?_⟩
        intro child isIn place construct' label' children' isBelow
        obtain ⟨index, isChild⟩ := List.mem_iff_getElem?.mp isIn
        refine all (index :: place) construct' label' children' ?_
        rw [Node.at?, Node.children, isChild]
        exact isBelow

theorem holdInPlace_iff : (nodes : List Node) →
    (holdInPlace nodes = true ↔ ∀ node, node ∈ nodes → node.InPlaceBelow)
  | [] => iff_of_true rfl fun _ isIn => absurd isIn List.not_mem_nil
  | node :: rest => by
      rw [holdInPlace, Bool.and_eq_true, holdsInPlace_iff node, holdInPlace_iff rest,
        List.forall_mem_cons]

end

theorem mem_filterMap_declaration?_iff {nodes : List Node} {declaration : Declaration} :
    declaration ∈ nodes.filterMap declaration? ↔
      ∃ index : Nat, nodes[index]? = some declaration.node := by
  rw [List.mem_filterMap, ← List.mem_iff_getElem?]
  constructor
  · rintro ⟨node, isIn, isDeclaration⟩
    rwa [declaration?_eq_some_iff.mp isDeclaration] at isIn
  · intro isIn
    exact ⟨declaration.node, isIn, rfl⟩

/-- All declarations of a tree are in place exactly if each of them is a child of a file, of a body or
of a block. The root is a child of nothing. -/
theorem declaresInPlace_iff {tree : SyntaxTree} :
    tree.declaresInPlace = true ↔
      ∀ (place : List Nat) (declaration : Declaration),
        tree.root.at? place = some declaration.node →
          ∃ holder index construct label children, place = holder ++ [index] ∧
            tree.root.at? holder = some (.branch construct label children) ∧
            (opensScope construct label = true ∨ construct = .block) := by
  unfold SyntaxTree.declaresInPlace
  rw [Bool.and_eq_true, Option.isNone_iff_eq_none, holdsInPlace_iff]
  constructor
  · rintro ⟨rootIsNone, inPlace⟩ place declaration isThere
    obtain rfl | ⟨holder, index, rfl⟩ := List.eq_nil_or_concat place
    · rw [declaration?_eq_some_iff.mpr (Option.some.inj isThere)] at rootIsNone
      exact nomatch rootIsNone
    · rw [List.concat_eq_append] at isThere ⊢
      obtain ⟨construct, label, children, isHolder, isChild⟩ := at?_concat_iff.mp isThere
      refine ⟨holder, index, construct, label, children, rfl, isHolder, ?_⟩
      have declares := mem_filterMap_declaration?_iff.mpr ⟨index, isChild⟩
      refine (inPlace holder construct label children isHolder).imp_right fun either => ?_
      exact either.resolve_right (List.ne_nil_of_mem declares)
  · intro all
    refine ⟨?_, ?_⟩
    · rw [Option.eq_none_iff_forall_ne_some]
      intro declaration isDeclaration
      have isRoot := congrArg some (declaration?_eq_some_iff.mp isDeclaration)
      obtain ⟨holder, index, _, _, _, isNil, _⟩ := all [] declaration isRoot
      exact List.append_ne_nil_of_right_ne_nil holder (List.cons_ne_nil index []) isNil.symm
    · intro holder construct label children isHolder
      by_cases none : children.filterMap declaration? = []
      · exact Or.inr (Or.inr none)
      · obtain ⟨declaration, isIn⟩ := List.exists_mem_of_ne_nil _ none
        obtain ⟨index, isChild⟩ := mem_filterMap_declaration?_iff.mp isIn
        have isThere := at?_concat_iff.mpr ⟨construct, label, children, isHolder, isChild⟩
        obtain ⟨_, _, _, _, _, same, isHolder', inPlace⟩ := all (holder ++ [index]) declaration isThere
        obtain ⟨rfl, rfl⟩ := List.append_singleton_inj.mp same
        obtain ⟨rfl, rfl, rfl⟩ := Node.branch.inj (Option.some.inj (isHolder.symm.trans isHolder'))
        exact inPlace.imp_right Or.inl

/-! ### Declarations and scopes -/

mutual

/-- The declarations of a node outside all blocks are those that a visit meets there. -/
theorem declarations_eq_visited : (node : Node) →
    node.declarations = (visited outsideBlocks node).filterMap fun met => met.2.declaration?
  | .ident _ => rfl
  | .token _ => rfl
  | .branch construct label children => by
      have below := declarationsOf_eq_visited 0 children
      rw [visited, List.filterMap_cons]
      cases construct with
      | block => rfl
      | declaration kind => exact congrArg (_ :: ·) below
      | file => exact below
      | call => exact below
      | other => exact below

theorem declarationsOf_eq_visited : (start : Nat) → (nodes : List Node) →
    declarationsOf nodes =
      (visitedFrom outsideBlocks start nodes).filterMap fun met => met.2.declaration?
  | _, [] => rfl
  | start, node :: nodes => by
      rw [declarationsOf, visitedFrom, List.filterMap_append, List.filterMap_map,
        declarations_eq_visited node, declarationsOf_eq_visited (start + 1) nodes]
      rfl

end

section

variable {construct : Construct} {label : Label} {children : List Node}

theorem declarations_branch (notBlock : construct ≠ .block) :
    (Node.branch construct label children).declarations =
      (Node.branch construct label children).declaration?.toList ++ declarationsOf children := by
  cases construct with
  | block => exact absurd rfl notBlock
  | declaration kind => rfl
  | file => rfl
  | call => rfl
  | other => rfl

theorem flatten_scopes_branch (notBlock : construct ≠ .block)
    (inPlace : opensScope construct label = true ∨ children.filterMap declaration? = []) :
    (Node.branch construct label children).scopes.flatten =
      children.filterMap declaration? ++ (scopesOf children).flatten := by
  rw [scopes, if_neg notBlock]
  split
  · rfl
  · rename_i notOpen
    rw [inPlace.resolve_left notOpen]
    rfl

end

mutual

/-- The declarations of a node outside all blocks are the node itself, if it is one, and those of
its scopes. -/
theorem declarations_perm : (node : Node) → node.holdsInPlace = true →
    node.declarations.Perm (node.declaration?.toList ++ node.scopes.flatten)
  | .ident _, _ => .nil
  | .token _, _ => .nil
  | .branch construct label children, holds => by
      obtain ⟨inPlace, childrenHold⟩ := holdsInPlace_branch_iff.mp holds
      have below := declarationsOf_perm children childrenHold
      by_cases isBlock : construct = .block
      · subst isBlock
        exact .nil
      · have opensOrNone := inPlace.imp_right fun either => either.resolve_left isBlock
        rw [declarations_branch isBlock, flatten_scopes_branch isBlock opensOrNone]
        exact below.append_left _

theorem declarationsOf_perm : (nodes : List Node) → holdInPlace nodes = true →
    (declarationsOf nodes).Perm (nodes.filterMap declaration? ++ (scopesOf nodes).flatten)
  | [], _ => .nil
  | node :: rest, hold => by
      rw [holdInPlace, Bool.and_eq_true] at hold
      have first := declarations_perm node hold.1
      have later := declarationsOf_perm rest hold.2
      have own : (node :: rest).filterMap declaration? =
          node.declaration?.toList ++ rest.filterMap declaration? := by
        rw [List.filterMap_cons]
        cases node.declaration? <;> rfl
      rw [declarationsOf, scopesOf, List.flatten_append, own, List.append_assoc]
      refine (first.append later).trans ?_
      rw [List.append_assoc]
      refine List.Perm.append_left _ ?_
      rw [← List.append_assoc, ← List.append_assoc]
      exact List.perm_append_comm.append_right _

end

section

variable {tree : SyntaxTree}

/-- Where all declarations are in place, the scopes hold those outside all blocks. -/
theorem declarations_perm_scopes (inPlace : tree.declaresInPlace = true) :
    tree.declarations.Perm tree.scopes.flatten := by
  unfold SyntaxTree.declaresInPlace at inPlace
  rw [Bool.and_eq_true, Option.isNone_iff_eq_none] at inPlace
  have perm := declarations_perm tree.root inPlace.2
  rw [inPlace.1] at perm
  exact perm

theorem mem_declarations_iff {declaration : Declaration} :
    declaration ∈ tree.declarations ↔
      ∃ place, tree.root.Reaches outsideBlocks place declaration.node := by
  change declaration ∈ tree.root.declarations ↔ _
  rw [declarations_eq_visited, List.mem_filterMap]
  constructor
  · rintro ⟨⟨place, node⟩, met, isDeclaration⟩
    obtain rfl := declaration?_eq_some_iff.mp isDeclaration
    exact ⟨place, (mem_visited _ _ _).mp met⟩
  · rintro ⟨place, reached⟩
    exact ⟨(place, declaration.node), (mem_visited _ _ _).mpr reached, rfl⟩

end

end Codemod.Tree
