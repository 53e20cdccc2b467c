import Mathlib.Data.List.Nodup
import Codemod.Proofs.Rule.Collision
import Codemod.Proofs.Rule.Redeclaration
import Codemod.Proofs.Tree.Item

/-!
A renaming of declarations changes exactly the names of those outside all blocks.

The name of a declaration is the first of its children that is an identifier in the field `name`. Three
walks have to agree on which declarations there are: the one that looks for something to rename, the
one that looks for collisions, and the one that renames. The first two go by the scopes, the third by
the tree.

Main statement: where every declaration is in place, a renaming that succeeds changes the name of each
declaration outside all blocks that has the old name and is of the kind asked for, and no other place.
There are as many of them as the scopes hold, and renaming again changes nothing.
-/

set_option autoImplicit false

namespace Codemod

open Codemod.Tree

/-! ### Names by their places -/

/-- The node at an index is the first name leaf of a run of nodes. -/
def Tree.IsFirstName (nodes : List Node) (index : Nat) (leaf : Token) : Prop :=
  nodes[index]?.bind Node.nameLeaf? = some leaf ∧
    ∀ earlier, earlier < index → nodes[earlier]?.bind Node.nameLeaf? = none

/-- The leaf at a place below a node is the name of a declaration outside all blocks. -/
def Tree.Node.NamesAt (node : Node) (path : List Nat) (declaration : Declaration)
    (leaf : Token) : Prop :=
  ∃ place index, path = place ++ [index] ∧ node.Reaches outsideBlocks place declaration.node ∧
    IsFirstName declaration.children index leaf

/-- A place holds the name of a declaration outside all blocks that is of the kind asked for and has
the old name. -/
def Renaming.Seeks (rule : Renaming) (tree : SyntaxTree) (path : List Nat) (leaf : Token) : Prop :=
  ∃ declaration, tree.root.NamesAt path declaration leaf ∧
    (∀ kind, rule.reach = .declarations (some kind) → declaration.kind = kind) ∧
    leaf.text = rule.old

section

variable {node : Node} {nodes : List Node} {index : Nat} {leaf : Token}

theorem isFirstName_cons_succ :
    IsFirstName (node :: nodes) (index + 1) leaf ↔
      node.nameLeaf? = none ∧ IsFirstName nodes index leaf := by
  unfold IsFirstName
  constructor
  · rintro ⟨isName, noneBefore⟩
    refine ⟨noneBefore 0 (Nat.succ_pos _), isName, fun earlier isEarlier => ?_⟩
    exact noneBefore (earlier + 1) (Nat.succ_lt_succ isEarlier)
  · rintro ⟨noName, isName, noneBefore⟩
    refine ⟨isName, fun earlier isEarlier => ?_⟩
    cases earlier with
    | zero => exact noName
    | succ earlier => exact noneBefore earlier (Nat.lt_of_succ_lt_succ isEarlier)

theorem isFirstName_zero :
    IsFirstName (node :: nodes) 0 leaf ↔ node.nameLeaf? = some leaf :=
  ⟨fun isFirst => isFirst.1, fun isName => ⟨isName, nofun⟩⟩

theorem findSome?_nameLeaf?_iff :
    nodes.findSome? Node.nameLeaf? = some leaf ↔ ∃ index, IsFirstName nodes index leaf := by
  induction nodes with
  | nil =>
      refine iff_of_false nofun ?_
      rintro ⟨_, isName, _⟩
      exact nomatch isName
  | cons node rest ih =>
      rw [List.findSome?_cons]
      cases isName : node.nameLeaf? with
      | some name =>
          constructor
          · intro same
            exact ⟨0, isFirstName_zero.mpr (isName.trans same)⟩
          · rintro ⟨index, isFirst⟩
            cases index with
            | zero => exact isName.symm.trans (isFirstName_zero.mp isFirst)
            | succ index => exact nomatch isName.symm.trans (isFirstName_cons_succ.mp isFirst).1
      | none =>
          rw [ih]
          constructor
          · rintro ⟨index, isFirst⟩
            exact ⟨index + 1, isFirstName_cons_succ.mpr ⟨isName, isFirst⟩⟩
          · rintro ⟨index, isFirst⟩
            cases index with
            | zero => exact nomatch isName.symm.trans (isFirstName_zero.mp isFirst)
            | succ index => exact ⟨index, (isFirstName_cons_succ.mp isFirst).2⟩

end

section

variable {construct : Construct} {label : Label} {children : List Node} {index : Nat}
  {path : List Nat} {declaration : Declaration} {leaf : Token}

theorem not_namesAt_nil (node : Node) : ¬ node.NamesAt [] declaration leaf := by
  rintro ⟨place, index, isPath, _⟩
  exact absurd isPath.symm (List.append_ne_nil_of_right_ne_nil _ (List.cons_ne_nil _ _))

theorem not_namesAt_leaf {node : Node} (isLeaf : node.children = []) :
    ¬ node.NamesAt path declaration leaf := by
  rintro ⟨place, index, _, reached, isName, _⟩
  obtain ⟨_, rfl⟩ := (reaches_leaf_iff isLeaf).mp reached
  rw [show declaration.children = [] from isLeaf] at isName
  exact nomatch isName

/-- A name below an inner node is that of the node itself or one below a child. -/
theorem namesAt_cons_iff :
    (Node.branch construct label children).NamesAt (index :: path) declaration leaf ↔
      (path = [] ∧ declaration.node = .branch construct label children ∧
          IsFirstName children index leaf) ∨
        (construct ≠ .block ∧
          ∃ child, children[index]? = some child ∧ child.NamesAt path declaration leaf) := by
  constructor
  · rintro ⟨place, last, isPath, reached, isFirst⟩
    rcases reaches_branch_iff.mp reached with
      ⟨rfl, isNode⟩ | ⟨entered, first, child, rest, rfl, isChild, reachedChild⟩
    · obtain ⟨rfl, rfl⟩ := List.cons.inj isPath
      obtain rfl : declaration.children = children := (Node.branch.inj isNode).2.2
      exact Or.inl ⟨rfl, isNode, isFirst⟩
    · obtain ⟨rfl, rfl⟩ := List.cons.inj isPath
      exact Or.inr ⟨(outsideBlocks_ofConstruct construct).mp entered, child, isChild, rest, last,
        rfl, reachedChild, isFirst⟩
  · rintro (⟨rfl, isNode, isFirst⟩ | ⟨notBlock, child, isChild, rest, last, rfl, reached, isFirst⟩)
    · obtain rfl : declaration.children = children := (Node.branch.inj isNode).2.2
      exact ⟨[], index, rfl, isNode ▸ .here _, isFirst⟩
    · exact ⟨index :: rest, last, rfl,
        .step ((outsideBlocks_ofConstruct construct).mpr notBlock) isChild reached, isFirst⟩

end

/-! ### What renaming does to a place -/

section

variable (rule : Renaming)

/-- Of a run of nodes, the first name leaf is renamed if it is asked for, and every other node is
changed by itself. -/
theorem getElem?_renameNamesOf (ownName : Bool) (nodes : List Node) (index : Nat) :
    (∃ leaf, ownName = true ∧ IsFirstName nodes index leaf ∧
        (rule.renameNamesOf ownName nodes)[index]? = some (.ident (rule.renameLeaf leaf))) ∨
      ((∀ leaf, ownName = true → ¬ IsFirstName nodes index leaf) ∧
        (rule.renameNamesOf ownName nodes)[index]? = nodes[index]?.map rule.renameNames) := by
  cases ownName with
  | false =>
      right
      rw [renameNamesOf_false, List.getElem?_map]
      exact ⟨nofun, rfl⟩
  | true =>
      induction nodes generalizing index with
      | nil =>
          right
          refine ⟨?_, rfl⟩
          rintro leaf _ ⟨isName, _⟩
          exact nomatch isName
      | cons node rest ih =>
          cases isName : node.nameLeaf? with
          | some name =>
              rw [renameNamesOf_name rule isName]
              cases index with
              | zero => exact Or.inl ⟨name, rfl, isFirstName_zero.mpr isName, rfl⟩
              | succ index =>
                  right
                  rw [List.getElem?_cons_succ, List.getElem?_cons_succ, List.getElem?_map]
                  refine ⟨?_, rfl⟩
                  intro leaf _ isFirst
                  exact nomatch isName.symm.trans (isFirstName_cons_succ.mp isFirst).1
          | none =>
              rw [renameNamesOf_other rule isName]
              cases index with
              | zero =>
                  refine Or.inr ⟨?_, rfl⟩
                  intro leaf _ isFirst
                  exact nomatch isName.symm.trans (isFirstName_zero.mp isFirst)
              | succ index =>
                  rw [List.getElem?_cons_succ, List.getElem?_cons_succ]
                  rcases ih index with ⟨leaf, _, isFirst, renamed⟩ | ⟨noneFirst, kept⟩
                  · exact Or.inl ⟨leaf, rfl, isFirstName_cons_succ.mpr ⟨isName, isFirst⟩, renamed⟩
                  · refine Or.inr ⟨?_, kept⟩
                    intro leaf own isFirst
                    exact noneFirst leaf own (isFirstName_cons_succ.mp isFirst).2

theorem length_renameNamesOf (ownName : Bool) (nodes : List Node) :
    (rule.renameNamesOf ownName nodes).length = nodes.length := by
  cases ownName with
  | false => rw [renameNamesOf_false, List.length_map]
  | true =>
      induction nodes with
      | nil => rfl
      | cons node rest ih =>
          cases isName : node.nameLeaf? with
          | some name =>
              rw [renameNamesOf_name rule isName, List.length_cons, List.length_map, List.length_cons]
          | none => rw [renameNamesOf_other rule isName, List.length_cons, ih, List.length_cons]

/-- Whether a node renames a name among its children. -/
def Renaming.ownName (construct : Construct) : Bool :=
  match construct with
  | .declaration kind => rule.reach.admits kind
  | _ => false

theorem renameNames_branch {construct : Construct} (notBlock : construct ≠ .block) (label : Label)
    (children : List Node) :
    rule.renameNames (.branch construct label children) =
      .branch construct label (rule.renameNamesOf (rule.ownName construct) children) := by
  cases construct with
  | block => exact absurd rfl notBlock
  | declaration kind => rfl
  | file => rfl
  | call => rfl
  | other => rfl

theorem face_renameNames (node : Node) : (rule.renameNames node).face = node.face := by
  cases node with
  | ident leaf => rfl
  | token leaf => rfl
  | branch construct label children =>
      by_cases isBlock : construct = .block
      · subst isBlock
        rfl
      · rw [renameNames_branch rule isBlock, Node.face, length_renameNamesOf]
        rfl

/-- A place below a node either holds the name of a declaration within reach, which is renamed, or it
holds what it held before. -/
def Renaming.RenamesAt (node : Node) (path : List Nat) : Prop :=
  (∃ declaration leaf, node.NamesAt path declaration leaf ∧
      rule.reach.admits declaration.kind = true ∧
      (rule.renameNames node).faceAt? path = some (.ident (rule.renameLeaf leaf))) ∨
    ((∀ declaration leaf, node.NamesAt path declaration leaf →
        rule.reach.admits declaration.kind = false) ∧
      (rule.renameNames node).faceAt? path = node.faceAt? path)

section

variable {construct : Construct} {label : Label} {children : List Node} {index : Nat}
  {path : List Nat}

theorem not_admits_of_noneFirst {declaration : Declaration} {leaf : Token}
    (noneFirst : ∀ leaf, rule.ownName construct = true → ¬ IsFirstName children index leaf)
    (isNode : declaration.node = .branch construct label children)
    (isFirst : IsFirstName children index leaf) : rule.reach.admits declaration.kind = false := by
  obtain rfl : .declaration declaration.kind = construct := (Node.branch.inj isNode).1
  cases admitted : rule.reach.admits declaration.kind with
  | false => rfl
  | true => exact absurd isFirst (noneFirst leaf admitted)

variable (notBlock : construct ≠ .block)

include notBlock

theorem renamesAt_ownName {leaf : Token} (own : rule.ownName construct = true)
    (isFirst : IsFirstName children index leaf)
    (renamed : (rule.renameNamesOf (rule.ownName construct) children)[index]? =
      some (.ident (rule.renameLeaf leaf))) :
    rule.RenamesAt (.branch construct label children) (index :: path) := by
  obtain ⟨child, isChild, isName⟩ := Option.bind_eq_some_iff.mp isFirst.1
  obtain ⟨rfl, _⟩ := nameLeaf?_eq_some_iff.mp isName
  unfold Renaming.RenamesAt
  rw [renameNames_branch rule notBlock, faceAt?_branch_cons, faceAt?_branch_cons, renamed, isChild]
  cases path with
  | nil =>
      cases construct with
      | declaration kind =>
          exact Or.inl ⟨⟨kind, label, children⟩, leaf,
            namesAt_cons_iff.mpr (Or.inl ⟨rfl, rfl, isFirst⟩), own, rfl⟩
      | block => exact absurd own Bool.false_ne_true
      | file => exact absurd own Bool.false_ne_true
      | call => exact absurd own Bool.false_ne_true
      | other => exact absurd own Bool.false_ne_true
  | cons next path =>
      refine Or.inr ⟨fun declaration leaf' names => ?_, rfl⟩
      rcases namesAt_cons_iff.mp names with ⟨isEnd, _⟩ | ⟨_, child, isChild', below⟩
      · exact nomatch isEnd
      · obtain rfl := Option.some.inj (isChild.symm.trans isChild')
        exact absurd below (not_namesAt_leaf rfl)

theorem renamesAt_child
    (noneFirst : ∀ leaf, rule.ownName construct = true → ¬ IsFirstName children index leaf)
    (kept : (rule.renameNamesOf (rule.ownName construct) children)[index]? =
      children[index]?.map rule.renameNames)
    (ih : ∀ child, rule.RenamesAt child path) :
    rule.RenamesAt (.branch construct label children) (index :: path) := by
  unfold Renaming.RenamesAt
  rw [renameNames_branch rule notBlock, faceAt?_branch_cons, faceAt?_branch_cons, kept]
  cases isChild : children[index]? with
  | none =>
      refine Or.inr ⟨fun declaration leaf names => ?_, rfl⟩
      rcases namesAt_cons_iff.mp names with ⟨_, isNode, isFirst⟩ | ⟨_, child, isChild', _⟩
      · exact not_admits_of_noneFirst rule noneFirst isNode isFirst
      · exact nomatch isChild.symm.trans isChild'
  | some child =>
      rcases ih child with ⟨declaration, leaf, names, admitted, renamed⟩ | ⟨noneAdmitted, same⟩
      · exact Or.inl ⟨declaration, leaf,
          namesAt_cons_iff.mpr (Or.inr ⟨notBlock, child, isChild, names⟩), admitted, renamed⟩
      · refine Or.inr ⟨fun declaration leaf names => ?_, same⟩
        rcases namesAt_cons_iff.mp names with ⟨_, isNode, isFirst⟩ | ⟨_, child', isChild', below⟩
        · exact not_admits_of_noneFirst rule noneFirst isNode isFirst
        · obtain rfl := Option.some.inj (isChild.symm.trans isChild')
          exact noneAdmitted declaration leaf below

end

theorem renamesAt (node : Node) (path : List Nat) : rule.RenamesAt node path := by
  induction path generalizing node with
  | nil =>
      refine Or.inr ⟨fun _ _ names => absurd names (not_namesAt_nil node), ?_⟩
      exact congrArg some (face_renameNames rule node)
  | cons index path ih =>
      cases node with
      | ident leaf => exact Or.inr ⟨fun _ _ names => absurd names (not_namesAt_leaf rfl), rfl⟩
      | token leaf => exact Or.inr ⟨fun _ _ names => absurd names (not_namesAt_leaf rfl), rfl⟩
      | branch construct label children =>
          by_cases isBlock : construct = .block
          · subst isBlock
            refine Or.inr ⟨fun declaration leaf names => ?_, rfl⟩
            rcases namesAt_cons_iff.mp names with ⟨_, isNode, _⟩ | ⟨notBlock, _⟩
            · exact nomatch isNode
            · exact absurd rfl notBlock
          · rcases getElem?_renameNamesOf rule (rule.ownName construct) children index with
              ⟨leaf, own, isFirst, renamed⟩ | ⟨noneFirst, kept⟩
            · exact renamesAt_ownName rule isBlock own isFirst renamed
            · exact renamesAt_child rule isBlock noneFirst kept ih

end

/-! ### What a renaming looks for -/

section

variable {rule : Renaming} {tree : SyntaxTree} {path : List Nat} {leaf : Token}

theorem name?_of_namesAt {node : Node} {declaration : Declaration}
    (names : node.NamesAt path declaration leaf) : declaration.name? = some leaf := by
  obtain ⟨_, index, _, _, isFirst⟩ := names
  exact findSome?_nameLeaf?_iff.mpr ⟨index, isFirst⟩

/-- At most one leaf stands at a place, and it is the name of at most one declaration. -/
theorem namesAt_unique {node : Node} {declaration declaration' : Declaration} {leaf' : Token}
    (names : node.NamesAt path declaration leaf) (names' : node.NamesAt path declaration' leaf') :
    declaration = declaration' ∧ leaf = leaf' := by
  obtain ⟨place, index, rfl, reached, isFirst⟩ := names
  obtain ⟨place', index', samePath, reached', isFirst'⟩ := names'
  obtain ⟨rfl, rfl⟩ := List.append_singleton_inj.mp samePath
  have sameNode := (at?_of_reaches reached).symm.trans (at?_of_reaches reached')
  have same := declaration?_eq_some_iff.mpr (Option.some.inj sameNode)
  obtain rfl : declaration = declaration' := Option.some.inj same
  exact ⟨rfl, Option.some.inj (isFirst.1.symm.trans isFirst'.1)⟩

theorem faceAt?_of_namesAt {node : Node} {declaration : Declaration}
    (names : node.NamesAt path declaration leaf) : node.faceAt? path = some (.ident leaf) := by
  obtain ⟨place, index, rfl, reached, isFirst⟩ := names
  obtain ⟨child, isChild, isName⟩ := Option.bind_eq_some_iff.mp isFirst.1
  obtain ⟨rfl, _⟩ := nameLeaf?_eq_some_iff.mp isName
  unfold Node.faceAt?
  rw [at?_append, at?_of_reaches reached, Option.bind_some, Node.at?, Declaration.node,
    Node.children, isChild]
  rfl

theorem seeks_iff :
    rule.Seeks tree path leaf ↔
      ∃ declaration, tree.root.NamesAt path declaration leaf ∧ rule.isSource declaration = true := by
  unfold Renaming.Seeks
  refine exists_congr fun declaration => and_congr_right fun names => ?_
  rw [isSource_iff, Declaration.nameText?, name?_of_namesAt names, Option.map_some,
    Option.some.injEq]

theorem faceAt?_of_seeks (seeks : rule.Seeks tree path leaf) :
    (rule.renameNames tree.root).faceAt? path = some (.ident { leaf with text := rule.new }) := by
  obtain ⟨declaration, names, ofKind, reads⟩ := seeks
  rcases renamesAt rule tree.root path with
    ⟨declaration', leaf', names', _, renamed⟩ | ⟨noneAdmitted, _⟩
  · obtain ⟨rfl, rfl⟩ := namesAt_unique names names'
    rw [renamed, Renaming.renameLeaf, if_pos reads]
  · have admitted := admits_iff.mpr ofKind
    rw [noneAdmitted declaration leaf names] at admitted
    exact nomatch admitted

theorem faceAt?_of_not_seeks (seeksNone : ∀ leaf, ¬ rule.Seeks tree path leaf) :
    (rule.renameNames tree.root).faceAt? path = tree.root.faceAt? path := by
  rcases renamesAt rule tree.root path with
    ⟨declaration, leaf, names, admitted, renamed⟩ | ⟨_, same⟩
  · have other : leaf.text ≠ rule.old := by
      intro reads
      exact seeksNone leaf ⟨declaration, names, admits_iff.mp admitted, reads⟩
    rw [renamed, faceAt?_of_namesAt names, Renaming.renameLeaf, if_neg other]
  · exact same

/-! ### The places of the names -/

/-- The index of the name among the children of a declaration. -/
def Tree.Declaration.nameIndex? (declaration : Declaration) : Option Nat :=
  declaration.children.findIdx? fun child => child.nameLeaf?.isSome

theorem nameIndex?_eq_some_iff {declaration : Declaration} {index : Nat} :
    declaration.nameIndex? = some index ↔ ∃ leaf, IsFirstName declaration.children index leaf := by
  unfold Declaration.nameIndex?
  rw [List.findIdx?_eq_some_iff_getElem]
  constructor
  · rintro ⟨within, isName, noneBefore⟩
    obtain ⟨leaf, isLeaf⟩ := Option.isSome_iff_exists.mp isName
    refine ⟨leaf, by rw [List.getElem?_eq_getElem within]; exact isLeaf, fun earlier isEarlier => ?_⟩
    rw [List.getElem?_eq_getElem (Nat.lt_trans isEarlier within)]
    exact Option.not_isSome_iff_eq_none.mp (noneBefore earlier isEarlier)
  · rintro ⟨leaf, isName, noneBefore⟩
    obtain ⟨child, isChild, isLeaf⟩ := Option.bind_eq_some_iff.mp isName
    obtain ⟨within, rfl⟩ := List.getElem?_eq_some_iff.mp isChild
    refine ⟨within, Option.isSome_iff_exists.mpr ⟨leaf, isLeaf⟩, fun earlier isEarlier => ?_⟩
    have noName := noneBefore earlier isEarlier
    rw [List.getElem?_eq_getElem (Nat.lt_trans isEarlier within)] at noName
    exact Option.not_isSome_iff_eq_none.mpr noName

/-- The place of the name that a renaming looks for in a node that a visit has met. -/
def Renaming.namePlace? (rule : Renaming) (met : List Nat × Node) : Option (List Nat) :=
  (met.2.declaration?.filter rule.isSource).bind fun declaration =>
    declaration.nameIndex?.map fun index => met.1 ++ [index]

def Renaming.namePlaces (rule : Renaming) (tree : SyntaxTree) : List (List Nat) :=
  (Node.visited outsideBlocks tree.root).filterMap rule.namePlace?

theorem namePlace?_eq_some_iff {place : List Nat} {node : Node} :
    rule.namePlace? (place, node) = some path ↔
      ∃ declaration index, node = declaration.node ∧ rule.isSource declaration = true ∧
        declaration.nameIndex? = some index ∧ path = place ++ [index] := by
  unfold Renaming.namePlace?
  simp only [Option.bind_eq_some_iff, Option.filter_eq_some_iff, Option.map_eq_some_iff,
    declaration?_eq_some_iff]
  constructor
  · rintro ⟨declaration, ⟨isNode, isSource⟩, index, isIndex, rfl⟩
    exact ⟨declaration, index, isNode, isSource, isIndex, rfl⟩
  · rintro ⟨declaration, index, isNode, isSource, isIndex, rfl⟩
    exact ⟨declaration, ⟨isNode, isSource⟩, index, isIndex, rfl⟩

theorem mem_namePlaces_iff : path ∈ rule.namePlaces tree ↔ ∃ leaf, rule.Seeks tree path leaf := by
  unfold Renaming.namePlaces
  rw [List.mem_filterMap]
  constructor
  · rintro ⟨⟨place, node⟩, met, isPlace⟩
    obtain ⟨declaration, index, rfl, isSource, isIndex, rfl⟩ := namePlace?_eq_some_iff.mp isPlace
    obtain ⟨leaf, isFirst⟩ := nameIndex?_eq_some_iff.mp isIndex
    exact ⟨leaf, seeks_iff.mpr ⟨declaration,
      ⟨place, index, rfl, (mem_visited _ _ _).mp met, isFirst⟩, isSource⟩⟩
  · rintro ⟨leaf, seeks⟩
    obtain ⟨declaration, ⟨place, index, rfl, reached, isFirst⟩, isSource⟩ := seeks_iff.mp seeks
    exact ⟨(place, declaration.node), (mem_visited _ _ _).mpr reached,
      namePlace?_eq_some_iff.mpr ⟨declaration, index, rfl, isSource,
        nameIndex?_eq_some_iff.mpr ⟨leaf, isFirst⟩, rfl⟩⟩

theorem nodup_namePlaces (rule : Renaming) (tree : SyntaxTree) : (rule.namePlaces tree).Nodup := by
  refine List.pairwise_filterMap.mpr ((visited_ordered tree.root).imp ?_)
  rintro ⟨place, node⟩ ⟨place', node'⟩ before path isPlace path' isPlace' rfl
  obtain ⟨_, index, _, _, _, isPath⟩ := namePlace?_eq_some_iff.mp isPlace
  obtain ⟨_, index', _, _, _, isPath'⟩ := namePlace?_eq_some_iff.mp isPlace'
  obtain ⟨rfl, _⟩ := List.append_singleton_inj.mp (isPath.symm.trans isPath')
  exact absurd before (lt_irrefl place)

theorem length_namePlaces (rule : Renaming) (tree : SyntaxTree) :
    (rule.namePlaces tree).length = tree.declarations.countP rule.isSource := by
  unfold Renaming.namePlaces SyntaxTree.declarations
  rw [declarations_eq_visited, List.length_filterMap_eq_countP, List.countP_filterMap]
  refine List.countP_congr fun met _ => ?_
  unfold Renaming.namePlace?
  cases met.2.declaration? with
  | none => exact Iff.rfl
  | some declaration =>
      cases isSource : rule.isSource declaration with
      | false => simp [isSource]
      | true =>
          obtain ⟨leaf, isName, _⟩ := Option.map_eq_some_iff.mp (isSource_iff.mp isSource).2
          obtain ⟨index, isFirst⟩ := findSome?_nameLeaf?_iff.mp isName
          have isIndex := nameIndex?_eq_some_iff.mpr ⟨leaf, isFirst⟩
          have kept : Option.filter rule.isSource (some declaration) = some declaration :=
            Option.filter_eq_some_iff.mpr ⟨rfl, isSource⟩
          rw [kept, Option.bind_some, isIndex]
          exact iff_of_true rfl isSource

end

/-! ### Renaming declarations -/

section

variable {rule : Renaming} {tree : SyntaxTree}

theorem namespaces_ne_nil (declaration : Declaration) : declaration.namespaces ≠ [] := by
  unfold Declaration.namespaces
  cases declaration.kind with
  | struct =>
      dsimp only
      split <;> exact List.cons_ne_nil _ _
  | _ => exact List.cons_ne_nil _ _

theorem exists_source_of_not_isIdle {only : Option DeclKind}
    (declarations : rule.reach = .declarations only) (busy : rule.isIdle tree = false) :
    ∃ scope, scope ∈ tree.scopes ∧ ∃ source, source ∈ scope ∧ rule.isSource source = true := by
  unfold Renaming.isIdle at busy
  rw [declarations] at busy
  simpa using busy

theorem apply_of_isIdle (idle : rule.isIdle tree = true) : rule.apply tree = ⟨tree, none⟩ :=
  if_pos idle

/-- What a renaming of declarations that succeeds has found and done. If there was something to
rename, the two names differ, as otherwise each declaration would be in its own way. -/
theorem apply_declarations {only : Option DeclKind}
    (declarations : rule.reach = .declarations only)
    (succeeds : (rule.apply tree).error = none) :
    (rule.isIdle tree = true ∧ rule.apply tree = ⟨tree, none⟩) ∨
      (rule.old ≠ rule.new ∧
        rule.apply tree = ⟨{ tree with root := rule.renameNames tree.root }, none⟩) := by
  have free : rule.collision? tree = none := by
    rw [error_eq] at succeeds
    exact Option.map_eq_none_iff.mp succeeds
  cases idle : rule.isIdle tree with
  | true => exact Or.inl ⟨rfl, apply_of_isIdle idle⟩
  | false =>
      right
      constructor
      · intro same
        obtain ⟨scope, isScope, source, isIn, isSource⟩ :=
          exists_source_of_not_isIdle declarations idle
        obtain ⟨ofKind, reads⟩ := isSource_iff.mp isSource
        obtain ⟨space, spaceIn⟩ := List.exists_mem_of_ne_nil _ (namespaces_ne_nil source)
        exact collision?_ne_none_iff.mpr ⟨scope, isScope, source, isIn, source, isIn, ofKind, reads,
          same ▸ reads, space, spaceIn, spaceIn⟩ free
      · unfold Renaming.apply Renaming.rename
        rw [idle, free, declarations]
        rfl

/-- What there is nothing to rename in is not looked for, if every declaration is in place. -/
theorem not_seeks_of_isIdle {only : Option DeclKind}
    (declarations : rule.reach = .declarations only) (inPlace : tree.declaresInPlace = true)
    (idle : rule.isIdle tree = true) (path : List Nat) (leaf : Token) :
    ¬ rule.Seeks tree path leaf := by
  intro seeks
  obtain ⟨declaration, ⟨place, _, _, reached, _⟩, isSource⟩ := seeks_iff.mp seeks
  have isDeclared := mem_declarations_iff.mpr ⟨place, reached⟩
  obtain ⟨scope, isScope, isIn⟩ :=
    List.mem_flatten.mp ((declarations_perm_scopes inPlace).mem_iff.mp isDeclared)
  have some : (tree.scopes.any fun scope => scope.any rule.isSource) = true :=
    List.any_eq_true.mpr ⟨scope, isScope, List.any_eq_true.mpr ⟨declaration, isIn, isSource⟩⟩
  unfold Renaming.isIdle at idle
  rw [declarations] at idle
  simp only [some] at idle
  exact nomatch idle

theorem isIdle_rename (tree : SyntaxTree) {only : Option DeclKind}
    (declarations : rule.reach = .declarations only) (differ : rule.old ≠ rule.new) :
    rule.isIdle (rule.rename tree) = true := by
  cases idle : rule.isIdle (rule.rename tree) with
  | true => rfl
  | false =>
      exfalso
      obtain ⟨scope, isScope, after, isIn, isSource⟩ := exists_source_of_not_isIdle declarations idle
      obtain ⟨container, index, declares⟩ := declares_of_mem isScope isIn
      obtain ⟨before, _, redeclares⟩ := declares_rename declares
      obtain ⟨ofKind, reads⟩ := isSource_iff.mp isSource
      rw [redeclares.nameText] at reads
      split at reads
      · exact differ (Option.some.inj reads).symm
      · rename_i notSource
        refine notSource (isSource_iff.mpr ⟨fun kind isKind => ?_, reads⟩)
        rw [← redeclares.kind]
        exact ofKind kind isKind

/-- What a renaming of declarations that succeeds makes of the places it looks for and of all others.
It looks for a place only if its two names differ. -/
theorem faceAt?_apply {only : Option DeclKind} (declarations : rule.reach = .declarations only)
    (inPlace : tree.declaresInPlace = true) (succeeds : (rule.apply tree).error = none) :
    (∀ path leaf, rule.Seeks tree path leaf → rule.old ≠ rule.new ∧
        (rule.apply tree).tree.root.faceAt? path = some (.ident { leaf with text := rule.new })) ∧
      ∀ path, (∀ leaf, ¬ rule.Seeks tree path leaf) →
        (rule.apply tree).tree.root.faceAt? path = tree.root.faceAt? path := by
  rcases apply_declarations declarations succeeds with ⟨idle, applied⟩ | ⟨differ, applied⟩
  · have seeksNone := not_seeks_of_isIdle declarations inPlace idle
    rw [applied]
    exact ⟨fun path leaf seeks => absurd seeks (seeksNone path leaf), fun _ _ => rfl⟩
  · rw [applied]
    exact ⟨fun path leaf seeks => ⟨differ, faceAt?_of_seeks seeks⟩,
      fun path seeksNone => faceAt?_of_not_seeks seeksNone⟩

theorem apply_again {only : Option DeclKind} (declarations : rule.reach = .declarations only)
    (succeeds : (rule.apply tree).error = none) :
    rule.apply (rule.apply tree).tree = ⟨(rule.apply tree).tree, none⟩ := by
  refine apply_of_isIdle ?_
  rcases apply_declarations declarations succeeds with ⟨idle, applied⟩ | ⟨differ, applied⟩
  · rw [applied]
    exact idle
  · have renamed := isIdle_rename tree declarations differ
    unfold Renaming.rename at renamed
    rw [declarations] at renamed
    rw [applied]
    exact renamed

/-- A renaming of declarations that succeeds changes exactly the names that it looks for: at the place
of such a name there is the same leaf with the new name, and every other place holds what it held
before. The places that differ are as many as the scopes hold declarations about to be renamed, and
renaming again succeeds and changes nothing. -/
theorem declaration_renaming_exact (rule : Renaming) (tree : SyntaxTree) (only : Option DeclKind)
    (declarations : rule.reach = .declarations only) (inPlace : tree.declaresInPlace = true)
    (succeeds : (rule.apply tree).error = none) :
    let result := (rule.apply tree).tree
    (∀ path leaf, rule.Seeks tree path leaf →
        result.root.faceAt? path = some (.ident { leaf with text := rule.new })) ∧
      (∀ path, (∀ leaf, ¬ rule.Seeks tree path leaf) →
        result.root.faceAt? path = tree.root.faceAt? path) ∧
      result.trailing = tree.trailing ∧
      (∃ places : List (List Nat), places.Nodup ∧
        (∀ path, path ∈ places ↔ result.root.faceAt? path ≠ tree.root.faceAt? path) ∧
        places.length = tree.scopes.flatten.countP rule.isSource) ∧
      rule.apply result = ⟨result, none⟩ := by
  obtain ⟨sought, others⟩ := faceAt?_apply declarations inPlace succeeds
  refine ⟨fun path leaf seeks => (sought path leaf seeks).2, others, ?_, ?_,
    apply_again declarations succeeds⟩
  · rcases apply_declarations declarations succeeds with ⟨_, applied⟩ | ⟨_, applied⟩
    · rw [applied]
    · rw [applied]
  · refine ⟨rule.namePlaces tree, nodup_namePlaces rule tree, fun path => ?_, ?_⟩
    · rw [mem_namePlaces_iff]
      constructor
      · rintro ⟨leaf, seeks⟩ same
        obtain ⟨differ, renamed⟩ := sought path leaf seeks
        obtain ⟨declaration, names, _, reads⟩ := seeks
        rw [renamed, faceAt?_of_namesAt names] at same
        have sameText : rule.new = leaf.text := congrArg Token.text (Face.ident.inj (Option.some.inj same))
        exact differ (reads.symm.trans sameText.symm)
      · intro changed
        apply Classical.byContradiction
        intro seeksNone
        exact changed (others path fun leaf seeks => seeksNone ⟨leaf, seeks⟩)
    · rw [length_namePlaces]
      exact (declarations_perm_scopes inPlace).countP_eq rule.isSource

/-- Functions `f` in the file, in a module and in a block, a module `f` and a call. -/
def localSource : String :=
  "mod f;mod m\x7bfn f()\x7b\x7d\x7dfn f()\x7bfn f()\x7b\x7df()\x7d"

/-- The module is of another kind, and what stands in the block stays. -/
theorem declaration_renaming_exact_local :
    ∃ rule tree, rule = ⟨"f to g", "f", "g", .declarations (some .function)⟩ ∧
      parse localSource = .ok tree ∧ tree.declaresInPlace = true ∧
      (Renaming.apply rule tree).error = none ∧
      (Renaming.apply rule tree).tree.toSource =
        "mod f;mod m\x7bfn g()\x7b\x7d\x7dfn g()\x7bfn f()\x7b\x7df()\x7d" ∧
      (∃ places : List (List Nat), places.Nodup ∧ places.length = 2 ∧
        ∀ path, path ∈ places ↔
          (Renaming.apply rule tree).tree.root.faceAt? path ≠ tree.root.faceAt? path) ∧
      Renaming.apply rule (Renaming.apply rule tree).tree =
        ⟨(Renaming.apply rule tree).tree, none⟩ := by
  obtain ⟨rule, cst, isRule, isTree, inPlace, succeeds, text, two⟩ :
      ∃ rule cst, rule = ⟨"f to g", "f", "g", .declarations (some .function)⟩ ∧
        concreteTree? localSource = some cst ∧ (convert localSource cst).declaresInPlace = true ∧
        (Renaming.apply rule (convert localSource cst)).error = none ∧
        (Renaming.apply rule (convert localSource cst)).tree.toSource =
          "mod f;mod m\x7bfn g()\x7b\x7d\x7dfn g()\x7bfn f()\x7b\x7df()\x7d" ∧
        (convert localSource cst).scopes.flatten.countP rule.isSource = 2 :=
    ⟨_, (concreteTree? localSource).get (by decide +kernel), rfl, (Option.some_get _).symm,
      by decide +kernel, by decide +kernel, by decide +kernel, by decide +kernel⟩
  obtain ⟨_, _, _, ⟨places, nodup, arePlaces, length⟩, again⟩ :=
    declaration_renaming_exact rule (convert localSource cst) (some .function)
      (congrArg Renaming.reach isRule) inPlace succeeds
  exact ⟨rule, _, isRule, (parse_eq_ok_iff localSource _).mpr ⟨cst, isTree, rfl⟩, inPlace, succeeds,
    text, ⟨places, nodup, length.trans two, arePlaces⟩, again⟩

end

end Codemod
