import Mathlib.Data.List.Lex
import Codemod.Proofs.Tree.Edit

/-!
Places in a tree, in document order.

A place is a path of child indices from the root. In the order of lists a node comes before the
nodes below it, and these come before the nodes below its later siblings, which is the order in which
a visit meets them. A visit that enters only some constructs reaches the nodes that have no other
construct above them.

Main statements: a visit meets exactly the nodes it reaches, and it meets them in the order of their
places. So the first of them that passes a test is the one at the least place.
-/

set_option autoImplicit false

namespace Codemod.Tree

namespace Node

/-- A node is reached from another one along a path if every construct above it is entered. -/
inductive Reaches (enters : Hook → Bool) : Node → List Nat → Node → Prop where
  | here (node : Node) : Reaches enters node [] node
  | step {construct : Construct} {label : Label} {children : List Node} {index : Nat}
      {child found : Node} {path : List Nat} (entered : enters (Hook.ofConstruct construct) = true)
      (isChild : children[index]? = some child) (reached : Reaches enters child path found) :
      Reaches enters (.branch construct label children) (index :: path) found

mutual

/-- The nodes that a visit meets, with their places, in the order in which it meets them. -/
def visited (enters : Hook → Bool) : Node → List (List Nat × Node)
  | .ident leaf => [([], .ident leaf)]
  | .token leaf => [([], .token leaf)]
  | .branch construct label children =>
      ([], .branch construct label children) ::
        if enters (Hook.ofConstruct construct) then visitedFrom enters 0 children else []

/-- The nodes that a visit of siblings meets, the first of which is the child `index`. -/
def visitedFrom (enters : Hook → Bool) : (index : Nat) → List Node → List (List Nat × Node)
  | _, [] => []
  | index, node :: rest =>
      ((visited enters node).map fun met => (index :: met.1, met.2)) ++
        visitedFrom enters (index + 1) rest

end

end Node

open Node

variable {enters : Hook → Bool}

/-! ### The nodes met are those reached -/

theorem reaches_leaf_iff {node found : Node} (isLeaf : node.children = []) {path : List Nat} :
    Reaches enters node path found ↔ path = [] ∧ found = node := by
  constructor
  · intro reached
    cases reached with
    | here => exact ⟨rfl, rfl⟩
    | step _ isChild _ =>
        obtain rfl : _ = [] := isLeaf
        exact nomatch isChild
  · rintro ⟨rfl, rfl⟩
    exact .here found

theorem reaches_branch_iff {construct : Construct} {label : Label} {children : List Node}
    {path : List Nat} {found : Node} :
    Reaches enters (.branch construct label children) path found ↔
      (path = [] ∧ found = .branch construct label children) ∨
        (enters (Hook.ofConstruct construct) = true ∧
          ∃ index child rest, path = index :: rest ∧ children[index]? = some child ∧
            Reaches enters child rest found) := by
  constructor
  · intro reached
    cases reached with
    | here => exact Or.inl ⟨rfl, rfl⟩
    | step entered isChild reached => exact Or.inr ⟨entered, _, _, _, rfl, isChild, reached⟩
  · rintro (⟨rfl, rfl⟩ | ⟨entered, index, child, rest, rfl, isChild, reached⟩)
    · exact .here _
    · exact .step entered isChild reached

mutual

theorem mem_visited : (node : Node) → (path : List Nat) → (found : Node) →
    ((path, found) ∈ visited enters node ↔ Reaches enters node path found)
  | .ident leaf, path, found => by
      rw [visited, List.mem_singleton, Prod.mk.injEq, reaches_leaf_iff rfl]
  | .token leaf, path, found => by
      rw [visited, List.mem_singleton, Prod.mk.injEq, reaches_leaf_iff rfl]
  | .branch construct label children, path, found => by
      have below := mem_visitedFrom 0 children path found
      rw [visited, List.mem_cons, Prod.mk.injEq, reaches_branch_iff]
      refine or_congr Iff.rfl ?_
      split
      · rename_i entered
        rw [below]
        simp only [entered, true_and, Nat.zero_add]
      · rename_i notEntered
        exact iff_of_false List.not_mem_nil fun reached => notEntered reached.1

theorem mem_visitedFrom : (start : Nat) → (nodes : List Node) → (path : List Nat) →
    (found : Node) →
    ((path, found) ∈ visitedFrom enters start nodes ↔
      ∃ index child rest, path = (start + index) :: rest ∧ nodes[index]? = some child ∧
        Reaches enters child rest found)
  | start, [], path, found => by
      rw [visitedFrom]
      refine iff_of_false List.not_mem_nil ?_
      rintro ⟨_, _, _, _, isChild, _⟩
      exact nomatch isChild
  | start, node :: nodes, path, found => by
      have first (rest : List Nat) := mem_visited node rest found
      have later := mem_visitedFrom (start + 1) nodes path found
      rw [visitedFrom, List.mem_append, later, List.mem_map]
      constructor
      · rintro (⟨⟨rest, _⟩, met, same⟩ | ⟨index, child, rest, rfl, isChild, reached⟩)
        · obtain ⟨rfl, rfl⟩ := Prod.mk.inj same
          exact ⟨0, node, rest, rfl, rfl, (first rest).mp met⟩
        · exact ⟨index + 1, child, rest, by rw [Nat.add_assoc, Nat.add_comm 1], isChild, reached⟩
      · rintro ⟨index, child, rest, rfl, isChild, reached⟩
        cases index with
        | zero =>
            obtain rfl := Option.some.inj isChild
            exact Or.inl ⟨(rest, found), (first rest).mpr reached, rfl⟩
        | succ index =>
            exact Or.inr ⟨index, child, rest, by rw [Nat.add_assoc, Nat.add_comm 1], isChild, reached⟩

end

theorem at?_of_reaches {node found : Node} {path : List Nat}
    (reached : Reaches enters node path found) : node.at? path = some found := by
  induction reached with
  | here node => rfl
  | step _ isChild _ ih =>
      rw [Node.at?, Node.children, isChild]
      exact ih

theorem reaches_of_at? (entersAll : ∀ hook, enters hook = true) {node found : Node}
    {path : List Nat} (isThere : node.at? path = some found) : Reaches enters node path found := by
  induction path generalizing node with
  | nil =>
      obtain rfl := Option.some.inj isThere
      exact .here node
  | cons index path ih =>
      obtain ⟨child, isChild, isBelow⟩ := Option.bind_eq_some_iff.mp isThere
      cases node with
      | ident leaf => exact nomatch isChild
      | token leaf => exact nomatch isChild
      | branch construct label children => exact .step (entersAll _) isChild (ih isBelow)

theorem at?_append (node : Node) (front back : List Nat) :
    node.at? (front ++ back) = (node.at? front).bind fun found => found.at? back := by
  induction front generalizing node with
  | nil => rfl
  | cons index front ih =>
      rw [List.cons_append, Node.at?, Node.at?]
      cases node.children[index]? with
      | none => rfl
      | some child => exact ih child

/-- What stands at a place other than the root is a child of the inner node right above it. -/
theorem at?_concat_iff {node child : Node} {holder : List Nat} {index : Nat} :
    node.at? (holder ++ [index]) = some child ↔
      ∃ construct label children, node.at? holder = some (.branch construct label children) ∧
        children[index]? = some child := by
  have isOwn (above : Node) :
      above.at? [index] = some child ↔ above.children[index]? = some child := by
    change above.children[index]?.bind some = some child ↔ _
    rw [Option.bind_fun_some]
  rw [at?_append, Option.bind_eq_some_iff]
  constructor
  · rintro ⟨above, isAbove, isChild⟩
    rw [isOwn] at isChild
    cases above with
    | ident leaf => exact nomatch isChild
    | token leaf => exact nomatch isChild
    | branch construct label children => exact ⟨construct, label, children, isAbove, isChild⟩
  · rintro ⟨construct, label, children, isAbove, isChild⟩
    exact ⟨_, isAbove, (isOwn _).mpr isChild⟩

/-- A path that is taken in two parts leads through the node where the first part ends. -/
theorem reaches_append_iff {node found : Node} {front back : List Nat} :
    Reaches enters node (front ++ back) found ↔
      ∃ above, Reaches enters node front above ∧ Reaches enters above back found := by
  induction front generalizing node with
  | nil =>
      constructor
      · intro reached
        exact ⟨node, .here node, reached⟩
      · rintro ⟨above, toAbove, fromAbove⟩
        cases toAbove
        exact fromAbove
  | cons index front ih =>
      constructor
      · intro reached
        cases reached with
        | step entered isChild reached =>
            obtain ⟨above, toAbove, fromAbove⟩ := ih.mp reached
            exact ⟨above, .step entered isChild toAbove, fromAbove⟩
      · rintro ⟨above, toAbove, fromAbove⟩
        cases toAbove with
        | step entered isChild toAbove =>
            exact .step entered isChild (ih.mpr ⟨above, toAbove, fromAbove⟩)

/-! ### Document order -/

mutual

theorem visited_ordered : (node : Node) →
    (visited enters node).Pairwise fun earlier later => earlier.1 < later.1
  | .ident _ => List.pairwise_singleton ..
  | .token _ => List.pairwise_singleton ..
  | .branch construct label children => by
      have ordered := visitedFrom_ordered 0 children
      rw [visited]
      split
      · refine List.pairwise_cons.mpr ⟨?_, ordered⟩
        rintro ⟨path, found⟩ met
        obtain ⟨index, _, rest, rfl, _⟩ := (mem_visitedFrom 0 children path found).mp met
        exact List.nil_lt_cons ..
      · exact List.pairwise_singleton ..

theorem visitedFrom_ordered : (start : Nat) → (nodes : List Node) →
    (visitedFrom enters start nodes).Pairwise fun earlier later => earlier.1 < later.1
  | _, [] => List.Pairwise.nil
  | start, node :: nodes => by
      rw [visitedFrom, List.pairwise_append]
      refine ⟨?_, visitedFrom_ordered (start + 1) nodes, ?_⟩
      · rw [List.pairwise_map]
        refine (visited_ordered node).imp fun before => ?_
        exact List.cons_lt_cons_iff.mpr (Or.inr ⟨rfl, before⟩)
      · rintro earlier isEarlier ⟨path, found⟩ isLater
        obtain ⟨met, _, rfl⟩ := List.mem_map.mp isEarlier
        obtain ⟨index, _, rest, rfl, _⟩ := (mem_visitedFrom (start + 1) nodes path found).mp isLater
        exact List.cons_lt_cons_iff.mpr (Or.inl (by omega))

end

/-- The first item of an ordered list that passes a test comes before all that pass it. -/
theorem first_of_findSome? {α β : Type} {before : α → α → Prop} {items : List α}
    (reflexive : ∀ item, before item item) (ordered : items.Pairwise before) {test : α → Option β}
    {value : β} (found : items.findSome? test = some value) :
    ∃ item, item ∈ items ∧ test item = some value ∧
      ∀ other, other ∈ items → test other ≠ none → before item other := by
  obtain ⟨front, item, back, rfl, passes, noneBefore⟩ := List.findSome?_eq_some_iff.mp found
  have itemFirst := (List.pairwise_cons.mp (List.pairwise_append.mp ordered).2.1).1
  refine ⟨item, List.mem_append_right _ List.mem_cons_self, passes, ?_⟩
  intro other isIn passesToo
  rcases List.mem_append.mp isIn with inFront | inBack
  · exact absurd (noneBefore other inFront) passesToo
  · rcases List.mem_cons.mp inBack with rfl | later
    · exact reflexive other
    · exact itemFirst other later

theorem findSome?_filterMap {α β γ : Type} (pick : α → Option β) (test : β → Option γ)
    (items : List α) :
    (items.filterMap pick).findSome? test = items.findSome? fun item => (pick item).bind test := by
  rw [← List.head?_filterMap, List.filterMap_filterMap, List.head?_filterMap]

/-- The first node met that passes a test stands at the least place. -/
theorem least_place {β : Type} {node : Node} (test : Node → Option β) {value : β}
    (found : (visited enters node).findSome? (fun met => test met.2) = some value) :
    ∃ path reached, Reaches enters node path reached ∧ test reached = some value ∧
      ∀ path' reached', Reaches enters node path' reached' → test reached' ≠ none →
        path ≤ path' := by
  have ordered : (visited enters node).Pairwise fun earlier later => earlier.1 ≤ later.1 :=
    (visited_ordered node).imp le_of_lt
  obtain ⟨⟨path, reached⟩, isMet, passes, first⟩ :=
    first_of_findSome? (fun met => le_refl met.1) ordered found
  refine ⟨path, reached, (mem_visited node path reached).mp isMet, passes, ?_⟩
  intro path' reached' isReached passesToo
  exact first (path', reached') ((mem_visited node path' reached').mpr isReached) passesToo

/-! ### Identifiers -/

def Node.ident? : Node → Option Token
  | .ident leaf => some leaf
  | _ => none

theorem ident?_eq_some_iff {node : Node} {leaf : Token} :
    node.ident? = some leaf ↔ node = .ident leaf := by
  cases node <;> simp [Node.ident?]

mutual

/-- The identifiers of a node in order are those that a visit of the whole node meets. -/
theorem identifiers_eq_visited (entersAll : ∀ hook, enters hook = true) : (node : Node) →
    node.identifiers = (visited enters node).filterMap fun met => met.2.ident?
  | .ident _ => rfl
  | .token _ => rfl
  | .branch construct label children => by
      rw [identifiers, visited, if_pos (entersAll _), identifiersOf_eq_visited entersAll 0 children]
      rfl

theorem identifiersOf_eq_visited (entersAll : ∀ hook, enters hook = true) :
    (start : Nat) → (nodes : List Node) →
    identifiersOf nodes = (visitedFrom enters start nodes).filterMap fun met => met.2.ident?
  | _, [] => rfl
  | start, node :: nodes => by
      rw [identifiersOf, visitedFrom, List.filterMap_append, List.filterMap_map,
        identifiers_eq_visited entersAll node, identifiersOf_eq_visited entersAll (start + 1) nodes]
      rfl

end

theorem mem_identifiers_iff {node : Node} {leaf : Token} :
    leaf ∈ node.identifiers ↔ ∃ path, node.at? path = some (.ident leaf) := by
  have entersAll (hook : Hook) : (fun _ => true) hook = true := rfl
  rw [identifiers_eq_visited entersAll, List.mem_filterMap]
  constructor
  · rintro ⟨⟨path, found⟩, met, isLeaf⟩
    obtain rfl := ident?_eq_some_iff.mp isLeaf
    exact ⟨path, at?_of_reaches ((mem_visited _ _ _).mp met)⟩
  · rintro ⟨path, isThere⟩
    exact ⟨(path, .ident leaf),
      (mem_visited _ _ _).mpr (reaches_of_at? entersAll isThere), rfl⟩

end Codemod.Tree
