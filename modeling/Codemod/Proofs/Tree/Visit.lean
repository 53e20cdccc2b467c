import Codemod.Proofs.Tree.Place

/-!
What visits meet and what they change.

A visit does not go on below the constructs that it does not enter. So it leaves out exactly the nodes
with such a construct above them, however far above, and a change of leaves leaves out the same ones.

Main statement: a visit meets every other node once, in document order, and a change of the texts of
leaves changes the leaves among them and nothing else.
-/

set_option autoImplicit false

namespace Codemod.Tree

namespace Node

def hook : Node → Hook
  | ident _ => .ident
  | token _ => .token
  | branch construct _ _ => .ofConstruct construct

/-- What a visit reports of a node. -/
def meeting : Node → Meeting
  | ident leaf => ⟨.ident, leaf.text⟩
  | token leaf => ⟨.token, leaf.text⟩
  | branch construct label children =>
      ⟨.ofConstruct construct, branchDetail construct label children⟩

/-- All nodes properly above a place are entered. -/
def OpenTo (enters : Hook → Bool) (node : Node) (place : List Nat) : Prop :=
  ∀ front back above, place = front ++ back → back ≠ [] → node.at? front = some above →
    enters above.hook = true

end Node

/-- The change that writes other texts into leaves and keeps all else that they say. -/
def LeafEdit.rewriting (ident token : Token → String) (enters : Hook → Bool) : LeafEdit :=
  ⟨fun leaf => { leaf with text := ident leaf }, fun leaf => { leaf with text := token leaf }, enters⟩

open Node

variable {enters : Hook → Bool}

/-! ### Nodes above -/

theorem openTo_nil (node : Node) : node.OpenTo enters [] := by
  intro front back above whole nonempty _
  exact absurd (List.append_eq_nil_iff.mp whole.symm).2 nonempty

theorem openTo_cons {construct : Construct} {label : Label} {children : List Node} {index : Nat}
    {child : Node} (isChild : children[index]? = some child) {path : List Nat} :
    (Node.branch construct label children).OpenTo enters (index :: path) ↔
      enters (Hook.ofConstruct construct) = true ∧ child.OpenTo enters path := by
  constructor
  · intro isOpen
    refine ⟨isOpen [] _ _ rfl (List.cons_ne_nil _ _) rfl, ?_⟩
    intro front back above whole nonempty isAbove
    refine isOpen (index :: front) back above (congrArg (index :: ·) whole) nonempty ?_
    rw [Node.at?, Node.children, isChild]
    exact isAbove
  · rintro ⟨entered, isOpen⟩ front back above whole nonempty isAbove
    cases front with
    | nil =>
        obtain rfl := Option.some.inj isAbove
        exact entered
    | cons first front =>
        obtain ⟨rfl, rest⟩ := List.cons.inj whole
        rw [Node.at?, Node.children, isChild] at isAbove
        exact isOpen front back above rest nonempty isAbove

/-- A visit reaches what stands below entered nodes only. -/
theorem reaches_iff_openTo {node found : Node} {path : List Nat} :
    Reaches enters node path found ↔ node.at? path = some found ∧ node.OpenTo enters path := by
  constructor
  · intro reached
    refine ⟨at?_of_reaches reached, ?_⟩
    induction reached with
    | here node => exact openTo_nil node
    | step entered isChild _ ih => exact (openTo_cons isChild).mpr ⟨entered, ih⟩
  · rintro ⟨isThere, isOpen⟩
    induction path generalizing node with
    | nil =>
        obtain rfl := Option.some.inj isThere
        exact .here node
    | cons index path ih =>
        obtain ⟨child, isChild, isBelow⟩ := Option.bind_eq_some_iff.mp isThere
        cases node with
        | ident leaf => exact nomatch isChild
        | token leaf => exact nomatch isChild
        | branch construct label children =>
            obtain ⟨entered, isOpen⟩ := (openTo_cons isChild).mp isOpen
            exact .step entered isChild (ih isBelow isOpen)

/-! ### What is met -/

mutual

theorem meetings_eq_visited : (node : Node) →
    node.meetings enters = (visited enters node).map fun met => met.2.meeting
  | .ident _ => rfl
  | .token _ => rfl
  | .branch construct label children => by
      rw [meetings, visited, List.map_cons]
      congr 1
      split
      · exact meetingsOf_eq_visited 0 children
      · rfl

theorem meetingsOf_eq_visited : (start : Nat) → (nodes : List Node) →
    meetingsOf enters nodes = (visitedFrom enters start nodes).map fun met => met.2.meeting
  | _, [] => rfl
  | start, node :: nodes => by
      rw [meetingsOf, visitedFrom, List.map_append, List.map_map, meetings_eq_visited node,
        meetingsOf_eq_visited (start + 1) nodes]
      rfl

end

/-! ### What is changed -/

section

variable {change : LeafEdit}

theorem face_edit_self (node : Node) : (node.edit change).face = change.ofFace node.face := by
  cases node with
  | ident leaf => rfl
  | token leaf => rfl
  | branch construct label children =>
      rw [Node.edit]
      split
      · rw [editAll_eq_map, Node.face, List.length_map]
        rfl
      · rfl

theorem at?_edit_of_reaches {node found : Node} {path : List Nat}
    (reached : Reaches change.enters node path found) :
    (node.edit change).at? path = some (found.edit change) := by
  induction reached with
  | here node => rfl
  | step entered isChild _ ih =>
      rw [Node.edit, if_pos entered, editAll_eq_map, Node.at?, Node.children, List.getElem?_map,
        isChild]
      exact ih

theorem faceAt?_edit_of_not_reaches (node : Node) (path : List Nat)
    (notReached : ∀ found, ¬ Reaches change.enters node path found) :
    (node.edit change).faceAt? path = node.faceAt? path := by
  induction path generalizing node with
  | nil => exact absurd (.here node) (notReached node)
  | cons index path ih =>
      cases node with
      | ident leaf => rfl
      | token leaf => rfl
      | branch construct label children =>
          rw [Node.edit]
          split
          · rename_i entered
            rw [faceAt?_branch_cons, faceAt?_branch_cons, editAll_eq_map, List.getElem?_map]
            cases isChild : children[index]? with
            | none => rfl
            | some child =>
                exact ih child fun found reached => notReached found (.step entered isChild reached)
          · rfl

end

/-- A visit of a tree meets the nodes that have no construct above them that it does not enter, each
of them once and in document order. A change of the texts of leaves that enters the same constructs
writes the new texts into the leaves among these nodes. Whatever else there is to any leaf, all other
leaves, all inner nodes and what trails behind the last leaf are as they were. -/
theorem visits_prune_exactly (tree : SyntaxTree) (enters : Hook → Bool)
    (ident token : Token → String) :
    ∃ places : List (List Nat),
      (∀ place, place ∈ places ↔
        (∃ found, tree.root.at? place = some found) ∧ tree.root.OpenTo enters place) ∧
      places.Pairwise (· < ·) ∧
      (tree.meetings enters).map some =
        places.map (fun place => (tree.root.at? place).map Node.meeting) ∧
      let change := LeafEdit.rewriting ident token enters
      (∀ place, (tree.edit change).root.faceAt? place =
        (tree.root.faceAt? place).map fun face =>
          if place ∈ places then change.ofFace face else face) ∧
      (tree.edit change).trailing = tree.trailing := by
  have isMet (place : List Nat) :
      place ∈ (visited enters tree.root).map (·.1) ↔
        ∃ found, Reaches enters tree.root place found := by
    rw [List.mem_map]
    constructor
    · rintro ⟨⟨_, found⟩, met, rfl⟩
      exact ⟨found, (mem_visited _ _ _).mp met⟩
    · rintro ⟨found, reached⟩
      exact ⟨(place, found), (mem_visited _ _ _).mpr reached, rfl⟩
  refine ⟨(visited enters tree.root).map (·.1), ?_, ?_, ?_, ?_, rfl⟩
  · intro place
    rw [isMet]
    simp only [reaches_iff_openTo, exists_and_right]
  · rw [List.pairwise_map]
    exact visited_ordered tree.root
  · rw [SyntaxTree.meetings, meetings_eq_visited, List.map_map, List.map_map]
    refine List.map_congr_left fun met isIn => ?_
    have isThere := at?_of_reaches ((mem_visited tree.root met.1 met.2).mp isIn)
    rw [Function.comp_apply, Function.comp_apply, isThere]
    rfl
  · intro place
    by_cases reached : ∃ found, Reaches enters tree.root place found
    · rw [funext fun face => if_pos ((isMet place).mpr reached)]
      obtain ⟨found, reached⟩ := reached
      have after : (tree.root.edit (.rewriting ident token enters)).at? place =
          some (found.edit (.rewriting ident token enters)) := at?_edit_of_reaches reached
      rw [SyntaxTree.edit, faceAt?, faceAt?, after, at?_of_reaches reached, Option.map_some,
        Option.map_some, Option.map_some, face_edit_self]
    · rw [funext fun face => if_neg (mt (isMet place).mp reached), Option.map_id']
      exact faceAt?_edit_of_not_reaches tree.root place fun found isReached =>
        reached ⟨found, isReached⟩

end Codemod.Tree
