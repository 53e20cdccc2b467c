import Codemod.Tree.Visit

/-!
What a change of leaves does at every position of a tree.

A position is a path of child indices from the root. A change of leaves that enters every construct
leaves the shape of a tree as it is: at a position of an inner node there is the same inner node,
and at a position of a leaf there is the changed leaf. Trees that show the same at every position
are the same.
-/

set_option autoImplicit false

namespace Codemod.Tree

/-- What a node is by itself: a leaf, or an inner node with so many children. -/
inductive Face where
  | ident (leaf : Token)
  | token (leaf : Token)
  | branch (construct : Construct) (label : Label) (size : Nat)
deriving DecidableEq, Repr

namespace Node

def face : Node → Face
  | ident leaf => .ident leaf
  | token leaf => .token leaf
  | branch construct label children => .branch construct label children.length

def at? : Node → List Nat → Option Node
  | node, [] => some node
  | node, index :: path => node.children[index]?.bind fun child => child.at? path

def faceAt? (node : Node) (path : List Nat) : Option Face := (node.at? path).map face

end Node

def LeafEdit.ofFace (change : LeafEdit) : Face → Face
  | .ident leaf => .ident (change.ident leaf)
  | .token leaf => .token (change.token leaf)
  | .branch construct label size => .branch construct label size

/-- A change that enters every construct. -/
def LeafEdit.EntersAll (change : LeafEdit) : Prop := ∀ hook, change.enters hook = true

section

variable {change : LeafEdit}

theorem editAll_eq_map (nodes : List Node) :
    Node.editAll change nodes = nodes.map (Node.edit change) := by
  induction nodes with
  | nil => rfl
  | cons node rest ih => rw [Node.editAll, ih, List.map_cons]

theorem edit_branch (entersAll : change.EntersAll) (construct : Construct) (label : Label)
    (children : List Node) :
    Node.edit change (.branch construct label children) =
      .branch construct label (children.map (Node.edit change)) := by
  rw [Node.edit, if_pos (entersAll _), editAll_eq_map]

theorem children_edit (entersAll : change.EntersAll) (node : Node) :
    (node.edit change).children = node.children.map (Node.edit change) := by
  cases node with
  | ident leaf => rfl
  | token leaf => rfl
  | branch construct label children =>
      rw [edit_branch entersAll]
      rfl

theorem face_edit (entersAll : change.EntersAll) (node : Node) :
    (node.edit change).face = change.ofFace node.face := by
  cases node with
  | ident leaf => rfl
  | token leaf => rfl
  | branch construct label children =>
      rw [edit_branch entersAll, Node.face, List.length_map]
      rfl

theorem at?_edit (entersAll : change.EntersAll) (node : Node) (path : List Nat) :
    (node.edit change).at? path = (node.at? path).map (Node.edit change) := by
  induction path generalizing node with
  | nil => rfl
  | cons index path ih =>
      rw [Node.at?, Node.at?, children_edit entersAll, List.getElem?_map]
      cases node.children[index]? with
      | none => rfl
      | some child => exact ih child

theorem faceAt?_edit (entersAll : change.EntersAll) (node : Node) (path : List Nat) :
    (node.edit change).faceAt? path = (node.faceAt? path).map change.ofFace := by
  unfold Node.faceAt?
  rw [at?_edit entersAll, Option.map_map, Option.map_map]
  congr 1
  funext child
  exact face_edit entersAll child

end

/-! ### Equality by positions -/

theorem faceAt?_branch_cons (construct : Construct) (label : Label) (children : List Node)
    (index : Nat) (path : List Nat) :
    (Node.branch construct label children).faceAt? (index :: path) =
      children[index]?.bind fun child => child.faceAt? path := by
  unfold Node.faceAt?
  rw [Node.at?, Node.children, Option.map_bind]
  rfl

mutual

theorem eq_of_faceAt? : (left right : Node) → (∀ path, left.faceAt? path = right.faceAt? path) →
    left = right
  | .ident leaf, right, same => by
      have sameFace : Face.ident leaf = right.face := Option.some.inj (same [])
      cases right with
      | ident leaf' => rw [Face.ident.inj sameFace]
      | token leaf' => exact nomatch sameFace
      | branch construct label children => exact nomatch sameFace
  | .token leaf, right, same => by
      have sameFace : Face.token leaf = right.face := Option.some.inj (same [])
      cases right with
      | ident leaf' => exact nomatch sameFace
      | token leaf' => rw [Face.token.inj sameFace]
      | branch construct label children => exact nomatch sameFace
  | .branch construct label children, right, same => by
      have sameFace : Face.branch construct label children.length = right.face :=
        Option.some.inj (same [])
      cases right with
      | ident leaf => exact nomatch sameFace
      | token leaf => exact nomatch sameFace
      | branch construct' label' children' =>
          obtain ⟨rfl, rfl, sameLength⟩ := Face.branch.inj sameFace
          congr 1
          refine eq_of_faceAt?_children children children' sameLength fun index path => ?_
          have below := same (index :: path)
          rw [faceAt?_branch_cons, faceAt?_branch_cons] at below
          exact below

theorem eq_of_faceAt?_children : (lefts rights : List Node) → lefts.length = rights.length →
    (∀ (index : Nat) (path : List Nat), (lefts[index]?.bind fun child => child.faceAt? path) =
      rights[index]?.bind fun child => child.faceAt? path) → lefts = rights
  | [], [], _, _ => rfl
  | left :: lefts, right :: rights, sameLength, same => by
      rw [eq_of_faceAt? left right (same 0),
        eq_of_faceAt?_children lefts rights (Nat.succ.inj sameLength) fun index => same (index + 1)]

end

/-! ### Leaves, identifiers marked -/

namespace Node

mutual

/-- The leaves of a node in order, each marked with whether it is an identifier. -/
def markedLeaves : Node → List (Bool × Token)
  | ident leaf => [(true, leaf)]
  | token leaf => [(false, leaf)]
  | branch _ _ children => markedLeavesOf children

def markedLeavesOf : List Node → List (Bool × Token)
  | [] => []
  | node :: rest => markedLeaves node ++ markedLeavesOf rest

end

end Node

def LeafEdit.ofLeaf (change : LeafEdit) (leaf : Bool × Token) : Bool × Token :=
  if leaf.1 then (true, change.ident leaf.2) else (false, change.token leaf.2)

open Node

mutual

theorem leaves_eq_marked : (node : Node) → node.leaves = node.markedLeaves.map (·.2)
  | .ident _ => rfl
  | .token _ => rfl
  | .branch _ _ children => leavesOf_eq_marked children

theorem leavesOf_eq_marked : (nodes : List Node) →
    leavesOf nodes = (markedLeavesOf nodes).map (·.2)
  | [] => rfl
  | node :: rest => by
      rw [leavesOf, markedLeavesOf, List.map_append, leaves_eq_marked node, leavesOf_eq_marked rest]

end

mutual

theorem identifiers_eq_marked : (node : Node) →
    node.identifiers = (node.markedLeaves.filter (·.1)).map (·.2)
  | .ident _ => rfl
  | .token _ => rfl
  | .branch _ _ children => identifiersOf_eq_marked children

theorem identifiersOf_eq_marked : (nodes : List Node) →
    identifiersOf nodes = ((markedLeavesOf nodes).filter (·.1)).map (·.2)
  | [] => rfl
  | node :: rest => by
      rw [identifiersOf, markedLeavesOf, List.filter_append, List.map_append,
        identifiers_eq_marked node, identifiersOf_eq_marked rest]

end

section

variable {change : LeafEdit}

mutual

theorem markedLeaves_edit (entersAll : change.EntersAll) : (node : Node) →
    (node.edit change).markedLeaves = node.markedLeaves.map change.ofLeaf
  | .ident _ => rfl
  | .token _ => rfl
  | .branch construct label children => by
      rw [edit_branch entersAll, ← editAll_eq_map, markedLeaves, markedLeaves]
      exact markedLeavesOf_editAll entersAll children

theorem markedLeavesOf_editAll (entersAll : change.EntersAll) : (nodes : List Node) →
    markedLeavesOf (editAll change nodes) = (markedLeavesOf nodes).map change.ofLeaf
  | [] => rfl
  | node :: rest => by
      rw [editAll, markedLeavesOf, markedLeavesOf, List.map_append, markedLeaves_edit entersAll node,
        markedLeavesOf_editAll entersAll rest]

end

theorem identifiers_edit (entersAll : change.EntersAll) (node : Node) :
    (node.edit change).identifiers = node.identifiers.map change.ident := by
  rw [identifiers_eq_marked, identifiers_eq_marked, markedLeaves_edit entersAll]
  induction node.markedLeaves with
  | nil => rfl
  | cons leaf rest ih =>
      obtain ⟨isIdent, leaf⟩ := leaf
      cases isIdent with
      | false => exact ih
      | true => exact congrArg (change.ident leaf :: ·) ih

end

/-! ### Changes one behind the other -/

section

variable {change change' : LeafEdit}

mutual

theorem edit_congr (entersAll : change.EntersAll) (entersAll' : change'.EntersAll) :
    (node : Node) → (∀ leaf, leaf ∈ node.markedLeaves → change.ofLeaf leaf = change'.ofLeaf leaf) →
      node.edit change = node.edit change'
  | .ident leaf, agree => by
      have sameLeaf : change.ident leaf = change'.ident leaf :=
        congrArg Prod.snd (agree (true, leaf) List.mem_cons_self)
      rw [edit, edit, sameLeaf]
  | .token leaf, agree => by
      have sameLeaf : change.token leaf = change'.token leaf :=
        congrArg Prod.snd (agree (false, leaf) List.mem_cons_self)
      rw [edit, edit, sameLeaf]
  | .branch construct label children, agree => by
      rw [edit_branch entersAll, edit_branch entersAll', ← editAll_eq_map, ← editAll_eq_map,
        editAll_congr entersAll entersAll' children agree]

theorem editAll_congr (entersAll : change.EntersAll) (entersAll' : change'.EntersAll) :
    (nodes : List Node) →
    (∀ leaf, leaf ∈ markedLeavesOf nodes → change.ofLeaf leaf = change'.ofLeaf leaf) →
      editAll change nodes = editAll change' nodes
  | [], _ => rfl
  | node :: rest, agree => by
      rw [markedLeavesOf] at agree
      rw [editAll, editAll,
        edit_congr entersAll entersAll' node fun leaf isIn =>
          agree leaf (List.mem_append_left _ isIn),
        editAll_congr entersAll entersAll' rest fun leaf isIn =>
          agree leaf (List.mem_append_right _ isIn)]

end

end

/-- The change that leaves every leaf as it is. -/
def LeafEdit.idle : LeafEdit := ⟨id, id, fun _ => true⟩

/-- One change behind another. -/
def LeafEdit.andThen (first second : LeafEdit) : LeafEdit :=
  ⟨fun leaf => second.ident (first.ident leaf), fun leaf => second.token (first.token leaf),
    fun hook => first.enters hook && second.enters hook⟩

theorem entersAll_idle : LeafEdit.idle.EntersAll := fun _ => rfl

theorem entersAll_andThen {first second : LeafEdit} (entersAll : first.EntersAll)
    (entersAll' : second.EntersAll) : (first.andThen second).EntersAll :=
  fun hook => Bool.and_eq_true_iff.mpr ⟨entersAll hook, entersAll' hook⟩

mutual

theorem edit_idle : (node : Node) → node.edit .idle = node
  | .ident _ => rfl
  | .token _ => rfl
  | .branch construct label children => by
      rw [edit_branch entersAll_idle, ← editAll_eq_map, editAll_idle children]

theorem editAll_idle : (nodes : List Node) → editAll .idle nodes = nodes
  | [] => rfl
  | node :: rest => by rw [editAll, edit_idle node, editAll_idle rest]

end

section

variable {first second : LeafEdit}

mutual

/-- Two changes one behind the other are one change. -/
theorem edit_edit (entersAll : first.EntersAll) (entersAll' : second.EntersAll) :
    (node : Node) → (node.edit first).edit second = node.edit (first.andThen second)
  | .ident _ => rfl
  | .token _ => rfl
  | .branch construct label children => by
      rw [edit_branch entersAll, edit_branch entersAll',
        edit_branch (entersAll_andThen entersAll entersAll'), ← editAll_eq_map, ← editAll_eq_map,
        ← editAll_eq_map, editAll_editAll entersAll entersAll' children]

theorem editAll_editAll (entersAll : first.EntersAll) (entersAll' : second.EntersAll) :
    (nodes : List Node) →
      editAll second (editAll first nodes) = editAll (first.andThen second) nodes
  | [] => rfl
  | node :: rest => by
      rw [editAll, editAll, editAll, edit_edit entersAll entersAll' node,
        editAll_editAll entersAll entersAll' rest]

end

end

theorem edit_eq_self {change : LeafEdit} (entersAll : change.EntersAll) (node : Node)
    (same : ∀ leaf, leaf ∈ node.markedLeaves → change.ofLeaf leaf = leaf) :
    node.edit change = node := by
  refine (edit_congr entersAll entersAll_idle node ?_).trans (edit_idle node)
  rintro ⟨isIdent, leaf⟩ isIn
  rw [same _ isIn]
  cases isIdent <;> rfl

end Codemod.Tree
