import Codemod.Proofs.Tree.Convert
import Codemod.Proofs.Tree.Item
import Mathlib.Data.List.Forall2
import Mathlib.Data.List.Nodup

/-!
The one scope of each declaration.

Declarations that read the same may stand at different places. So the declarations outside all blocks
and the scopes are listed here with the places at which they are met; without the places these are
the lists of the tree.

Main statement: where all declarations are in place, each one outside all blocks is in the scope of
the container right above it and in no other scope, and the containers are in document order.
-/

set_option autoImplicit false

namespace Codemod.Tree

open Node

/-! ### What a visit finds -/

/-- What stands at places is listed in document order, with no place listed twice. -/
def InDocumentOrder {β : Type} (found : List (List Nat × β)) : Prop :=
  found.Pairwise fun earlier later => earlier.1 < later.1

/-- What a test finds at the nodes that a visit meets, with the places of these nodes. -/
def Node.located {β : Type} (enters : Hook → Bool) (test : Node → Option β) (node : Node) :
    List (List Nat × β) :=
  (visited enters node).filterMap fun met => (test met.2).map (met.1, ·)

section

variable {β γ : Type} {enters : Hook → Bool} {test : Node → Option β} {node : Node}

theorem mem_located {place : List Nat} {value : β} :
    (place, value) ∈ node.located enters test ↔
      ∃ found, Reaches enters node place found ∧ test found = some value := by
  unfold Node.located
  rw [List.mem_filterMap]
  constructor
  · rintro ⟨⟨_, found⟩, met, passes⟩
    obtain ⟨_, isValue, same⟩ := Option.map_eq_some_iff.mp passes
    obtain ⟨rfl, rfl⟩ := Prod.mk.inj same
    exact ⟨found, (mem_visited _ _ _).mp met, isValue⟩
  · rintro ⟨found, reached, isValue⟩
    exact ⟨(place, found), (mem_visited _ _ _).mpr reached,
      Option.map_eq_some_iff.mpr ⟨value, isValue, rfl⟩⟩

theorem located_ordered : InDocumentOrder (node.located enters test) := by
  refine List.pairwise_filterMap.mpr ((visited_ordered node).imp ?_)
  rintro earlier later before first isFirst second isSecond
  obtain ⟨_, _, rfl⟩ := Option.map_eq_some_iff.mp isFirst
  obtain ⟨_, _, rfl⟩ := Option.map_eq_some_iff.mp isSecond
  exact before

theorem nodup_places {found : List (List Nat × β)} (ordered : InDocumentOrder found) :
    (found.map (·.1)).Nodup :=
  List.pairwise_map.mpr (ordered.imp ne_of_lt)

theorem number_unique {found : List (List Nat × β)} (ordered : InDocumentOrder found)
    {number number' : Nat} {place : List Nat} {value value' : β}
    (isAt : found[number]? = some (place, value)) (isAt' : found[number']? = some (place, value')) :
    number' = number := by
  have inRange : number' < (found.map (·.1)).length := by
    rw [List.length_map]
    exact (List.getElem?_eq_some_iff.mp isAt').1
  refine (List.getElem?_inj inRange (nodup_places ordered)).mp ?_
  rw [List.getElem?_map, List.getElem?_map, isAt, isAt']
  rfl

theorem map_located (read : β → γ) :
    (node.located enters test).map (fun found => read found.2) =
      (visited enters node).filterMap fun met => (test met.2).map read := by
  unfold Node.located
  rw [List.map_filterMap]
  simp only [Option.map_map]
  rfl

end

/-! ### Declarations and scopes with their places -/

/-- The children of a node that opens a scope. -/
def Node.container? : Node → Option (List Node)
  | .branch construct label children => if opensScope construct label then some children else none
  | _ => none

/-- The declarations among the children of a container, with their places in the tree. -/
def locatedBelow (container : List Nat) (children : List Node) : List (List Nat × Declaration) :=
  (declared children).map fun child => (container ++ [child.1], child.2)

namespace SyntaxTree

/-- The declarations of a tree outside all blocks with their places, as a tree lists them. -/
def locatedDeclarations (tree : SyntaxTree) : List (List Nat × Declaration) :=
  tree.root.located outsideBlocks Node.declaration?

/-- The places of the containers of a tree and their children. -/
def containers (tree : SyntaxTree) : List (List Nat × List Node) :=
  tree.root.located outsideBlocks Node.container?

/-- The scopes of a tree with the places of the declarations in them. -/
def locatedScopes (tree : SyntaxTree) : List (List (List Nat × Declaration)) :=
  tree.containers.map fun container => locatedBelow container.1 container.2

end SyntaxTree

theorem container?_eq_some_iff {node : Node} {children : List Node} :
    node.container? = some children ↔
      ∃ construct label, opensScope construct label = true ∧
        node = .branch construct label children := by
  constructor
  · intro isContainer
    cases node with
    | ident leaf => cases isContainer
    | token leaf => cases isContainer
    | branch construct label below =>
        rw [Node.container?] at isContainer
        split at isContainer
        · rename_i opens
          obtain rfl := Option.some.inj isContainer
          exact ⟨construct, label, opens, rfl⟩
        · cases isContainer
  · rintro ⟨construct, label, opens, rfl⟩
    rw [Node.container?, if_pos opens]

theorem map_container? (node : Node) :
    (node.container?.map fun children => children.filterMap declaration?) = node.scope? := by
  cases node with
  | ident leaf => rfl
  | token leaf => rfl
  | branch construct label children =>
      rw [Node.container?, Node.scope?]
      split <;> rfl

section

variable {tree : SyntaxTree} {container place : List Nat} {children : List Node}
  {declaration : Declaration}

theorem map_locatedDeclarations : tree.locatedDeclarations.map (·.2) = tree.declarations :=
  calc tree.locatedDeclarations.map (·.2)
      = (visited outsideBlocks tree.root).filterMap fun met => met.2.declaration?.map id :=
        map_located id
    _ = (visited outsideBlocks tree.root).filterMap fun met => met.2.declaration? := by
        simp only [Option.map_id_fun, id_eq]
    _ = tree.declarations := (declarations_eq_visited tree.root).symm

theorem map_locatedBelow : (locatedBelow container children).map (·.2) =
    children.filterMap declaration? := by
  rw [← map_declared, locatedBelow, List.map_map]
  rfl

theorem map_locatedScopes :
    tree.locatedScopes.map (fun scope => scope.map (·.2)) = tree.scopes := by
  rw [SyntaxTree.locatedScopes, List.map_map]
  calc tree.containers.map ((fun scope => scope.map (·.2)) ∘
          fun container => locatedBelow container.1 container.2)
      = tree.containers.map fun container => container.2.filterMap declaration? :=
        List.map_congr_left fun _ _ => map_locatedBelow
    _ = (visited outsideBlocks tree.root).filterMap fun met =>
          met.2.container?.map fun children => children.filterMap declaration? :=
        map_located _
    _ = (visited outsideBlocks tree.root).filterMap fun met => met.2.scope? := by
        simp only [map_container?]
    _ = tree.scopes := (scopes_eq_visited tree.root).symm

theorem mem_locatedDeclarations : (place, declaration) ∈ tree.locatedDeclarations ↔
    tree.root.Reaches outsideBlocks place declaration.node := by
  refine mem_located.trans ?_
  simp only [declaration?_eq_some_iff, exists_eq_right]

theorem mem_containers : (container, children) ∈ tree.containers ↔
    tree.Opens container children := by
  refine mem_located.trans ?_
  simp only [container?_eq_some_iff]
  constructor
  · rintro ⟨_, reached, construct, label, opens, rfl⟩
    exact ⟨construct, label, opens, reached⟩
  · rintro ⟨construct, label, opens, reached⟩
    exact ⟨_, reached, construct, label, opens, rfl⟩

theorem mem_locatedBelow :
    (place, declaration) ∈ locatedBelow container children ↔
      ∃ index, place = container ++ [index] ∧ children[index]? = some declaration.node := by
  have isChild (index : Nat) : (index, declaration) ∈ declared children ↔
      children[index]? = some declaration.node := by
    rw [mem_declared, Option.bind_eq_some_iff]
    simp only [declaration?_eq_some_iff, exists_eq_right]
  unfold locatedBelow
  rw [List.mem_map]
  constructor
  · rintro ⟨⟨index, _⟩, isIn, same⟩
    obtain ⟨rfl, rfl⟩ := Prod.mk.inj same
    exact ⟨index, rfl, (isChild index).mp isIn⟩
  · rintro ⟨index, rfl, isThere⟩
    exact ⟨(index, declaration), (isChild index).mpr isThere, rfl⟩

theorem locatedBelow_ordered (container : List Nat) (children : List Node) :
    InDocumentOrder (locatedBelow container children) := by
  unfold InDocumentOrder locatedBelow
  rw [List.pairwise_map]
  refine (declared_ordered children).imp fun before => ?_
  exact List.append_left_lt (List.cons_lt_cons_iff.mpr (Or.inl before))

/-! ### Declarations below a container -/

theorem reaches_child_iff (opens : tree.Opens container children) {index : Nat} {child : Node} :
    tree.root.Reaches outsideBlocks (container ++ [index]) child ↔
      children[index]? = some child := by
  obtain ⟨construct, label, opens, reached⟩ := opens
  rw [reaches_append_iff]
  constructor
  · rintro ⟨above, toAbove, fromAbove⟩
    have same := (at?_of_reaches toAbove).symm.trans (at?_of_reaches reached)
    obtain rfl := Option.some.inj same
    cases fromAbove with
    | step _ isChild reached =>
        cases reached
        exact isChild
  · intro isChild
    have notBlock : construct ≠ .block := by
      rintro rfl
      exact nomatch opens
    have entered := (outsideBlocks_ofConstruct construct).mpr notBlock
    exact ⟨_, reached, .step entered isChild (.here child)⟩

theorem mem_locatedBelow_iff (opens : tree.Opens container children) :
    (place, declaration) ∈ locatedBelow container children ↔
      (place, declaration) ∈ tree.locatedDeclarations ∧ ∃ index, place = container ++ [index] := by
  rw [mem_locatedBelow, mem_locatedDeclarations]
  constructor
  · rintro ⟨index, rfl, isChild⟩
    exact ⟨(reaches_child_iff opens).mpr isChild, index, rfl⟩
  · rintro ⟨reached, index, rfl⟩
    exact ⟨index, rfl, (reaches_child_iff opens).mp reached⟩

/-- A declaration outside all blocks that is in place stands one step below a container. -/
theorem opens_of_declaresInPlace (inPlace : tree.declaresInPlace = true)
    (isIn : (place, declaration) ∈ tree.locatedDeclarations) :
    ∃ container index children, place = container ++ [index] ∧ tree.Opens container children := by
  have reached := mem_locatedDeclarations.mp isIn
  obtain ⟨container, index, construct, label, children, rfl, isContainer, opensOrBlock⟩ :=
    declaresInPlace_iff.mp inPlace place declaration (at?_of_reaches reached)
  obtain ⟨above, toAbove, fromAbove⟩ := reaches_append_iff.mp reached
  obtain rfl := Option.some.inj ((at?_of_reaches toAbove).symm.trans isContainer)
  refine ⟨container, index, children, rfl, construct, label, ?_, toAbove⟩
  cases fromAbove with
  | step entered _ _ =>
      exact opensOrBlock.resolve_right ((outsideBlocks_ofConstruct construct).mp entered)

/-! ### The partition -/

theorem exists_unique_scope (inPlace : tree.declaresInPlace = true)
    (isIn : (place, declaration) ∈ tree.locatedDeclarations) :
    ∃! number : Nat, ∃ scope, tree.locatedScopes[number]? = some scope ∧
      (place, declaration) ∈ scope := by
  obtain ⟨container, index, children, isBelow, opens⟩ := opens_of_declaresInPlace inPlace isIn
  obtain ⟨number, isAt⟩ := List.mem_iff_getElem?.mp (mem_containers.mpr opens)
  refine ⟨number, ⟨locatedBelow container children, ?_, ?_⟩, ?_⟩
  · rw [SyntaxTree.locatedScopes, List.getElem?_map, isAt]
    rfl
  · exact (mem_locatedBelow_iff opens).mpr ⟨isIn, index, isBelow⟩
  · rintro number' ⟨scope, isScope, inScope⟩
    rw [SyntaxTree.locatedScopes, List.getElem?_map] at isScope
    obtain ⟨⟨container', children'⟩, isAt', rfl⟩ := Option.map_eq_some_iff.mp isScope
    obtain ⟨index', isBelow', _⟩ := mem_locatedBelow.mp inScope
    -- One place has one place right above it, and no container is listed twice.
    obtain ⟨rfl, _⟩ := List.append_singleton_inj.mp (isBelow.symm.trans isBelow')
    exact number_unique located_ordered isAt isAt'

theorem nodup_flatten_locatedScopes : tree.locatedScopes.flatten.Nodup := by
  rw [List.nodup_flatten, SyntaxTree.locatedScopes, List.forall_mem_map, List.pairwise_map]
  constructor
  · rintro ⟨container, children⟩ _
    exact (nodup_places (locatedBelow_ordered container children)).of_map
  · have ordered : InDocumentOrder tree.containers := located_ordered
    refine ordered.imp ?_
    rintro ⟨earlier, _⟩ ⟨later, _⟩ before ⟨place, declaration⟩ inEarlier inLater
    obtain ⟨index, isBelow, _⟩ := mem_locatedBelow.mp inEarlier
    obtain ⟨index', isBelow', _⟩ := mem_locatedBelow.mp inLater
    obtain ⟨rfl, _⟩ := List.append_singleton_inj.mp (isBelow.symm.trans isBelow')
    exact lt_irrefl earlier before

/-- The scopes together hold the declarations outside all blocks, each of them once. -/
theorem flatten_locatedScopes_perm (inPlace : tree.declaresInPlace = true) :
    tree.locatedScopes.flatten.Perm tree.locatedDeclarations := by
  have nodup : tree.locatedDeclarations.Nodup := (nodup_places located_ordered).of_map
  refine (List.perm_ext_iff_of_nodup nodup_flatten_locatedScopes nodup).mpr ?_
  rintro ⟨place, declaration⟩
  rw [List.mem_flatten]
  constructor
  · rintro ⟨scope, isScope, inScope⟩
    obtain ⟨⟨container, children⟩, isContainer, rfl⟩ := List.mem_map.mp isScope
    exact ((mem_locatedBelow_iff (mem_containers.mp isContainer)).mp inScope).1
  · intro isIn
    obtain ⟨number, ⟨scope, isScope, inScope⟩, _⟩ := exists_unique_scope inPlace isIn
    exact ⟨scope, List.mem_of_getElem? isScope, inScope⟩

end

/-- A tree lists its declarations and its scopes in document order, a declaration once for the place
where it stands. The declarations are those with no block above them. There is one scope for each
container with no block above it, and the scope holds what is declared one step below the container.
Where every declaration is in place, each one outside all blocks is in exactly one scope, and the
scopes put together are a permutation of the declarations. -/
theorem scopes_partition_declarations (tree : SyntaxTree) (inPlace : tree.declaresInPlace = true) :
    tree.locatedDeclarations.map (·.2) = tree.declarations ∧
      InDocumentOrder tree.locatedDeclarations ∧
      (∀ place declaration, (place, declaration) ∈ tree.locatedDeclarations ↔
        tree.root.Reaches outsideBlocks place declaration.node) ∧
      tree.locatedScopes.map (fun scope => scope.map (·.2)) = tree.scopes ∧
      InDocumentOrder tree.containers ∧
      (∀ container children, (container, children) ∈ tree.containers ↔
        tree.Opens container children) ∧
      List.Forall₂ (fun container scope =>
          InDocumentOrder scope ∧
            ∀ item, item ∈ scope ↔
              item ∈ tree.locatedDeclarations ∧ ∃ index, item.1 = container.1 ++ [index])
        tree.containers tree.locatedScopes ∧
      (∀ item, item ∈ tree.locatedDeclarations →
        ∃! number : Nat, ∃ scope, tree.locatedScopes[number]? = some scope ∧ item ∈ scope) ∧
      tree.locatedScopes.flatten.Perm tree.locatedDeclarations ∧
      tree.scopes.flatten.Perm tree.declarations := by
  refine ⟨map_locatedDeclarations, located_ordered, fun _ _ => mem_locatedDeclarations,
    map_locatedScopes, located_ordered, fun _ _ => mem_containers, ?_,
    fun _ isIn => exists_unique_scope inPlace isIn, flatten_locatedScopes_perm inPlace,
    (declarations_perm_scopes inPlace).symm⟩
  refine List.forall₂_map_right_iff.mpr (List.forall₂_same.mpr ?_)
  rintro ⟨container, children⟩ isContainer
  exact ⟨locatedBelow_ordered container children,
    fun _ => mem_locatedBelow_iff (mem_containers.mp isContainer)⟩

/-- A module whose function declares one of its own, an empty implementation and a function. -/
def threeScopesSource : String :=
  "mod m\x7bfn f()\x7bfn g()\x7b\x7d\x7dstruct S;\x7dimpl S\x7b\x7dfn h()\x7b\x7d"

/-- The function behind the module is the last declaration but stands in the first scope. -/
theorem scopes_partition_declarations_nested :
    ∃ tree, parse threeScopesSource = .ok tree ∧ tree.declaresInPlace = true ∧
      tree.locatedDeclarations.map (·.1) = [[0], [0, 2, 1], [0, 2, 2], [2]] ∧
      tree.containers.map (·.1) = [[], [0, 2], [1, 2]] ∧
      tree.locatedScopes.map (fun scope => scope.map (·.1)) =
        [[[0], [2]], [[0, 2, 1], [0, 2, 2]], []] ∧
      (∀ item, item ∈ tree.locatedDeclarations →
        ∃! number : Nat, ∃ scope, tree.locatedScopes[number]? = some scope ∧ item ∈ scope) ∧
      tree.locatedScopes.flatten.Perm tree.locatedDeclarations ∧
      tree.scopes.flatten.Perm tree.declarations := by
  obtain ⟨cst, isTree, inPlace, items, containers, scopes⟩ :
      ∃ cst, concreteTree? threeScopesSource = some cst ∧
        (convert threeScopesSource cst).declaresInPlace = true ∧
        (convert threeScopesSource cst).locatedDeclarations.map (·.1) =
          [[0], [0, 2, 1], [0, 2, 2], [2]] ∧
        (convert threeScopesSource cst).containers.map (·.1) = [[], [0, 2], [1, 2]] ∧
        (convert threeScopesSource cst).locatedScopes.map (fun scope => scope.map (·.1)) =
          [[[0], [2]], [[0, 2, 1], [0, 2, 2]], []] :=
    ⟨(concreteTree? threeScopesSource).get (by decide +kernel), (Option.some_get _).symm,
      by decide +kernel⟩
  obtain ⟨_, _, _, _, _, _, _, inOne, located, plain⟩ :=
    scopes_partition_declarations (convert threeScopesSource cst) inPlace
  exact ⟨_, (parse_eq_ok_iff threeScopesSource _).mpr ⟨cst, isTree, rfl⟩, inPlace, items,
    containers, scopes, inOne, located, plain⟩

end Codemod.Tree
