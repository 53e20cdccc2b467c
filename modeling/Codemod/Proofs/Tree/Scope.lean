import Codemod.Proofs.Tree.Place

/-!
Scopes by the places of their containers.

A scope belongs to a container, which is the file or the body of a module, implementation, trait or
block of foreign code outside all blocks of statements, and it holds the declarations among the
children of the container.

Main statements: the scopes of a tree are those of its containers in document order, and a change of
the tree that leaves its inner nodes where they are leaves every declaration of a scope in its place.
-/

set_option autoImplicit false

namespace Codemod.Tree

open Node

/-- A visit that stays outside all blocks. -/
def outsideBlocks (hook : Hook) : Bool := hook != .block

def Declaration.node (declaration : Declaration) : Node :=
  .branch (.declaration declaration.kind) declaration.label declaration.children

/-- The container at a place opens a scope and has these children. -/
def SyntaxTree.Opens (tree : SyntaxTree) (container : List Nat) (children : List Node) : Prop :=
  ∃ construct label, opensScope construct label = true ∧
    tree.root.Reaches outsideBlocks container (.branch construct label children)

/-- The child `index` of the container at a place is a declaration of the scope. -/
def SyntaxTree.Declares (tree : SyntaxTree) (container : List Nat) (index : Nat)
    (declaration : Declaration) : Prop :=
  ∃ children, tree.Opens container children ∧
    children[index]?.bind Node.declaration? = some declaration

def Node.scope? : Node → Option (List Declaration)
  | .branch construct label children =>
      if opensScope construct label then some (children.filterMap declaration?) else none
  | _ => none

theorem scope?_eq_some_iff {node : Node} {scope : List Declaration} :
    node.scope? = some scope ↔ ∃ construct label children, opensScope construct label = true ∧
      node = .branch construct label children ∧ children.filterMap declaration? = scope := by
  constructor
  · intro isScope
    cases node with
    | ident leaf => exact nomatch isScope
    | token leaf => exact nomatch isScope
    | branch construct label children =>
        rw [Node.scope?] at isScope
        split at isScope
        · rename_i opens
          exact ⟨construct, label, children, opens, rfl, Option.some.inj isScope⟩
        · exact nomatch isScope
  · rintro ⟨construct, label, children, opens, rfl, rfl⟩
    rw [Node.scope?, if_pos opens]

/-! ### Scopes in document order -/

theorem outsideBlocks_ofConstruct (construct : Construct) :
    outsideBlocks (Hook.ofConstruct construct) = true ↔ construct ≠ .block := by
  cases construct <;> simp [outsideBlocks, Hook.ofConstruct]

mutual

/-- The scopes of a node are those of the containers that a visit outside all blocks meets. -/
theorem scopes_eq_visited : (node : Node) →
    node.scopes = (visited outsideBlocks node).filterMap fun met => met.2.scope?
  | .ident _ => rfl
  | .token _ => rfl
  | .branch construct label children => by
      have below := scopesOf_eq_visited 0 children
      rw [scopes, visited, List.filterMap_cons]
      by_cases isBlock : construct = .block
      · subst isBlock
        rfl
      · have entered := (outsideBlocks_ofConstruct construct).mpr isBlock
        rw [if_neg isBlock, if_pos entered, ← below, Node.scope?]
        cases opensScope construct label with
        | false => rfl
        | true => rfl

theorem scopesOf_eq_visited : (start : Nat) → (nodes : List Node) →
    scopesOf nodes = (visitedFrom outsideBlocks start nodes).filterMap fun met => met.2.scope?
  | _, [] => rfl
  | start, node :: nodes => by
      rw [scopesOf, visitedFrom, List.filterMap_append, List.filterMap_map, scopes_eq_visited node,
        scopesOf_eq_visited (start + 1) nodes]
      rfl

end

theorem mem_scopes_iff {tree : SyntaxTree} {scope : List Declaration} :
    scope ∈ tree.scopes ↔
      ∃ container children, tree.Opens container children ∧
        children.filterMap declaration? = scope := by
  change scope ∈ tree.root.scopes ↔ _
  rw [scopes_eq_visited, List.mem_filterMap]
  constructor
  · rintro ⟨⟨container, node⟩, met, isScope⟩
    obtain ⟨construct, label, children, opens, rfl, rfl⟩ := scope?_eq_some_iff.mp isScope
    exact ⟨container, children, ⟨construct, label, opens, (mem_visited _ _ _).mp met⟩, rfl⟩
  · rintro ⟨container, children, ⟨construct, label, opens, reached⟩, rfl⟩
    exact ⟨(container, _), (mem_visited _ _ _).mpr reached,
      scope?_eq_some_iff.mpr ⟨construct, label, children, opens, rfl, rfl⟩⟩

section

variable {tree : SyntaxTree} {container : List Nat} {index : Nat} {declaration : Declaration}

theorem opens_unique {children children' : List Node} (opens : tree.Opens container children)
    (opens' : tree.Opens container children') : children = children' := by
  obtain ⟨_, _, _, reached⟩ := opens
  obtain ⟨_, _, _, reached'⟩ := opens'
  have same := (at?_of_reaches reached).symm.trans (at?_of_reaches reached')
  exact (Node.branch.inj (Option.some.inj same)).2.2

theorem exists_scope_of_declares (declares : tree.Declares container index declaration) :
    ∃ scope, scope ∈ tree.scopes ∧ declaration ∈ scope := by
  obtain ⟨children, opens, isThere⟩ := declares
  obtain ⟨child, isChild, isDeclaration⟩ := Option.bind_eq_some_iff.mp isThere
  exact ⟨_, mem_scopes_iff.mpr ⟨container, children, opens, rfl⟩,
    List.mem_filterMap.mpr ⟨child, List.mem_of_getElem? isChild, isDeclaration⟩⟩

theorem declares_of_mem {scope : List Declaration} (isScope : scope ∈ tree.scopes)
    (isIn : declaration ∈ scope) :
    ∃ container index, tree.Declares container index declaration := by
  obtain ⟨container, children, opens, rfl⟩ := mem_scopes_iff.mp isScope
  obtain ⟨child, childIn, isDeclaration⟩ := List.mem_filterMap.mp isIn
  obtain ⟨index, isChild⟩ := List.mem_iff_getElem?.mp childIn
  exact ⟨container, index, children, opens, by rw [isChild]; exact isDeclaration⟩

theorem declaration?_eq_some_iff {node : Node} :
    node.declaration? = some declaration ↔ node = declaration.node := by
  constructor
  · intro isDeclaration
    unfold Node.declaration? at isDeclaration
    split at isDeclaration
    · obtain rfl := Option.some.inj isDeclaration
      rfl
    · exact nomatch isDeclaration
  · rintro rfl
    rfl

theorem nameLeaf?_eq_some_iff {node : Node} {leaf : Token} :
    node.nameLeaf? = some leaf ↔ node = .ident leaf ∧ leaf.field = some "name" := by
  constructor
  · intro isName
    unfold Node.nameLeaf? at isName
    split at isName
    · split at isName
      · rename_i isField
        obtain rfl := Option.some.inj isName
        exact ⟨rfl, isField⟩
      · exact nomatch isName
    · exact nomatch isName
  · rintro ⟨rfl, isField⟩
    rw [Node.nameLeaf?, if_pos isField]

theorem name_mem_identifiers (declares : tree.Declares container index declaration) {leaf : Token}
    (isName : declaration.name? = some leaf) : leaf ∈ tree.identifiers := by
  obtain ⟨children, ⟨construct, label, _, reached⟩, isThere⟩ := declares
  obtain ⟨child, isChild, isDeclaration⟩ := Option.bind_eq_some_iff.mp isThere
  obtain rfl := declaration?_eq_some_iff.mp isDeclaration
  obtain ⟨node, isIn, isLeaf⟩ := List.exists_of_findSome?_eq_some isName
  obtain ⟨place, isAt⟩ := List.mem_iff_getElem?.mp isIn
  have isIdent := (nameLeaf?_eq_some_iff.mp isLeaf).1
  refine mem_identifiers_iff.mpr ⟨container ++ [index, place], ?_⟩
  rw [at?_append, at?_of_reaches reached, Option.bind_some, Node.at?, Node.children, isChild,
    Option.bind_some, Node.at?, Declaration.node, Node.children, isAt, isIdent]
  rfl

end

/-! ### Declarations of a container -/

/-- The declarations among nodes, each with its index. -/
def declared (nodes : List Node) : List (Nat × Declaration) :=
  nodes.zipIdx.filterMap fun child => child.1.declaration?.map (child.2, ·)

theorem mem_declared {nodes : List Node} {index : Nat} {declaration : Declaration} :
    (index, declaration) ∈ declared nodes ↔
      nodes[index]?.bind Node.declaration? = some declaration := by
  unfold declared
  rw [List.mem_filterMap]
  constructor
  · rintro ⟨⟨child, place⟩, isIn, same⟩
    obtain ⟨found, isDeclaration, same⟩ := Option.map_eq_some_iff.mp same
    obtain ⟨rfl, rfl⟩ := Prod.mk.inj same
    rw [List.mem_zipIdx_iff_getElem?.mp isIn]
    exact isDeclaration
  · intro isThere
    obtain ⟨child, isChild, isDeclaration⟩ := Option.bind_eq_some_iff.mp isThere
    exact ⟨(child, index), List.mem_zipIdx_iff_getElem?.mpr isChild,
      Option.map_eq_some_iff.mpr ⟨declaration, isDeclaration, rfl⟩⟩

theorem map_declared (nodes : List Node) :
    (declared nodes).map (·.2) = nodes.filterMap declaration? := by
  unfold declared
  rw [List.map_filterMap]
  conv => rhs; rw [← List.zipIdx_map_fst 0 nodes, List.filterMap_map]
  congr 1
  funext child
  rw [Option.map_map]
  exact Option.map_id'

theorem declared_ordered (nodes : List Node) :
    (declared nodes).Pairwise fun earlier later => earlier.1 < later.1 := by
  have indices : nodes.zipIdx.Pairwise fun earlier later => earlier.2 < later.2 := by
    have increasing : (List.range' 0 nodes.length).Pairwise (· < ·) := List.pairwise_lt_range'
    rw [← List.zipIdx_map_snd 0 nodes, List.pairwise_map] at increasing
    exact increasing
  refine List.pairwise_filterMap.mpr (indices.imp ?_)
  rintro earlier later before first isFirst second isSecond
  obtain ⟨_, _, rfl⟩ := Option.map_eq_some_iff.mp isFirst
  obtain ⟨_, _, rfl⟩ := Option.map_eq_some_iff.mp isSecond
  exact before

/-! ### Changes that leave inner nodes in place -/

/-- A change of nodes after which every inner node outside all blocks is the change of the one that
stood there before. Leaves may become other leaves. -/
def KeepsBranches (change : Node → Node) : Prop :=
  ∀ node construct label after, change node = .branch construct label after →
    ∃ before, node = .branch construct label before ∧
      (construct ≠ .block → ∀ (index : Nat) construct' label' below,
        after[index]? = some (.branch construct' label' below) →
          ∃ child, before[index]? = some child ∧ change child = .branch construct' label' below)

theorem reaches_of_keepsBranches {change : Node → Node} (keeps : KeepsBranches change)
    {node : Node} {path : List Nat} {construct : Construct} {label : Label} {after : List Node}
    (reached : Reaches outsideBlocks (change node) path (.branch construct label after)) :
    ∃ found, Reaches outsideBlocks node path found ∧ change found = .branch construct label after := by
  -- The changed node is kept apart under a name, so that the cases of `reached` can be told.
  induction path generalizing node with
  | nil =>
      generalize isImage : change node = image at reached
      cases reached
      exact ⟨node, .here node, isImage⟩
  | cons index path ih =>
      generalize isImage : change node = image at reached
      cases reached with
      | @step above _ below _ child _ _ entered isChild reached =>
          obtain ⟨before, rfl, keepsChildren⟩ := keeps _ _ _ _ isImage
          have notBlock := (outsideBlocks_ofConstruct above).mp entered
          have isBranch : ∃ construct' label' children', child = .branch construct' label' children' := by
            cases reached with
            | here => exact ⟨_, _, _, rfl⟩
            | step => exact ⟨_, _, _, rfl⟩
          obtain ⟨construct', label', children', rfl⟩ := isBranch
          obtain ⟨child, isBefore, isImage'⟩ := keepsChildren notBlock index _ _ _ isChild
          rw [← isImage'] at reached
          obtain ⟨found, reachedBefore, isFound⟩ := ih reached
          exact ⟨found, .step entered isBefore reachedBefore, isFound⟩

/-- Every declaration of a scope is the change of the declaration that stood in its place. -/
theorem declares_of_keepsBranches {change : Node → Node} (keeps : KeepsBranches change)
    {tree : SyntaxTree} {container : List Nat} {index : Nat} {after : Declaration}
    (declares : SyntaxTree.Declares { tree with root := change tree.root } container index after) :
    ∃ before, tree.Declares container index before ∧ change before.node = after.node := by
  obtain ⟨children, ⟨construct, label, opens, reached⟩, isThere⟩ := declares
  obtain ⟨child, isChild, isDeclaration⟩ := Option.bind_eq_some_iff.mp isThere
  obtain rfl := declaration?_eq_some_iff.mp isDeclaration
  obtain ⟨found, reachedBefore, isFound⟩ := reaches_of_keepsBranches keeps reached
  obtain ⟨childrenBefore, rfl, keepsChildren⟩ := keeps _ _ _ _ isFound
  have notBlock : construct ≠ .block := by
    rintro rfl
    exact nomatch opens
  obtain ⟨childBefore, isBefore, isImage⟩ := keepsChildren notBlock index _ _ _ isChild
  obtain ⟨below, rfl, _⟩ := keeps _ _ _ _ isImage
  refine ⟨⟨after.kind, after.label, below⟩,
    ⟨childrenBefore, ⟨construct, label, opens, reachedBefore⟩, ?_⟩, isImage⟩
  rw [isBefore]
  rfl

end Codemod.Tree
