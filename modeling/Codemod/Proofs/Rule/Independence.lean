import Codemod.Proofs.Rule.Image
import Codemod.Proofs.Rule.ItemName
import Codemod.Proofs.Rule.Pipeline

/-!
Renamings that have no name in common do not notice each other.

Neither takes away or gives a name that the other one reads, so each finds behind the other what it
would have found before: whether there is something to rename, and what is in the way. And neither
touches a leaf that the other one changes.

Main statement: two such renamings may change places in a pipeline, and neither makes the other fail
or keeps it from failing.
-/

set_option autoImplicit false

namespace Codemod

open Codemod.Files (Path)
open Codemod.Tree
open Codemod.Tree.Node

/-- No name of one renaming is one of the other. -/
structure Renaming.Apart (first second : Renaming) : Prop where
  old_old : first.old ≠ second.old
  old_new : first.old ≠ second.new
  new_old : first.new ≠ second.old
  new_new : first.new ≠ second.new

theorem Renaming.Apart.symm {first second : Renaming} (apart : first.Apart second) :
    second.Apart first :=
  ⟨apart.old_old.symm, apart.new_old.symm, apart.old_new.symm, apart.new_new.symm⟩

section

variable {first second : Renaming}

section

variable (apart : first.Apart second)

include apart

/-! ### What one renaming finds behind the other -/

theorem follows_of_apart (tree : SyntaxTree) : first.Follows second second tree where
  source scope _ declaration _ := by
    unfold Renaming.isSource
    rw [(redeclares_redeclare first declaration).kind,
      reads_redeclare first apart.old_old.symm apart.new_old.symm]
  taken scope _ declaration _ :=
    reads_redeclare first apart.old_new.symm apart.new_new.symm declaration

theorem count_old_rename (tree : SyntaxTree) :
    (first.rename tree).countIdentifier second.old = tree.countIdentifier second.old := by
  have respelt := identifiers_rename first tree
  unfold SyntaxTree.countIdentifier
  generalize tree.identifiers = before, (first.rename tree).identifiers = after at respelt
  induction respelt with
  | nil => rfl
  | @cons before after _ _ respells _ ih =>
      have reads : (after.text == second.old) = (before.text == second.old) := by
        rcases respells with rfl | rfl
        · rfl
        · rw [renameLeaf_text]
          split
          · rename_i isOld
            rw [isOld, beq_eq_false_iff_ne.mpr apart.new_old, beq_eq_false_iff_ne.mpr apart.old_old]
          · rfl
      rw [List.countP_cons, List.countP_cons, ih, reads]

theorem isIdle_rename_of_apart (tree : SyntaxTree) :
    second.isIdle (first.rename tree) = second.isIdle tree := by
  unfold Renaming.isIdle
  rw [count_old_rename apart, any_isSource_rename (follows_of_apart apart tree)]

theorem collision?_rename_of_apart (tree : SyntaxTree) :
    second.collision? (first.rename tree) = (second.collision? tree).map first.redeclare :=
  collision?_rename (follows_of_apart apart tree)

/-- A renaming fails behind the other exactly if it fails without it, and with the same error. -/
theorem error_behind (tree : SyntaxTree) :
    (second.apply (first.apply tree).tree).error = (second.apply tree).error := by
  rcases tree_apply first tree with same | ⟨_, renamed⟩
  · rw [same]
  · rw [renamed, error_eq, error_eq, collision?_rename_of_apart apart, Option.map_map]
    congr 1
    funext existing
    exact collisionError_redeclare first second existing

/-! ### Both changes of a tree -/

theorem renameLeaf_comm (leaf : Token) :
    first.renameLeaf (second.renameLeaf leaf) = second.renameLeaf (first.renameLeaf leaf) := by
  unfold Renaming.renameLeaf
  by_cases readsFirst : leaf.text = first.old
  · have notSecond : leaf.text ≠ second.old := readsFirst ▸ apart.old_old
    rw [if_neg notSecond, if_pos readsFirst, if_neg apart.new_old]
  · rw [if_neg readsFirst]
    by_cases readsSecond : leaf.text = second.old
    · rw [if_pos readsSecond, if_neg apart.old_new.symm]
    · rw [if_neg readsSecond, if_neg readsFirst]

theorem edit_comm (node : Node) :
    (node.edit second.everywhereEdit).edit first.everywhereEdit =
      (node.edit first.everywhereEdit).edit second.everywhereEdit := by
  rw [edit_edit (entersAll_everywhereEdit second) (entersAll_everywhereEdit first),
    edit_edit (entersAll_everywhereEdit first) (entersAll_everywhereEdit second)]
  congr 1
  unfold LeafEdit.andThen Renaming.everywhereEdit
  congr 1
  funext leaf
  exact renameLeaf_comm apart leaf

end

mutual

theorem renameNames_edit (apart : first.Apart second) : (node : Node) →
    first.renameNames (node.edit second.everywhereEdit) =
      (first.renameNames node).edit second.everywhereEdit
  | .ident _ => rfl
  | .token _ => rfl
  | .branch construct label children => by
      by_cases isBlock : construct = .block
      · subst isBlock
        rw [edit_branch (entersAll_everywhereEdit second), Renaming.renameNames,
          Renaming.renameNames, edit_branch (entersAll_everywhereEdit second)]
      · rw [edit_branch (entersAll_everywhereEdit second), renameNames_branch first isBlock,
          renameNames_branch first isBlock, edit_branch (entersAll_everywhereEdit second),
          ← editAll_eq_map, ← editAll_eq_map, renameNamesOf_editAll apart _ children]

theorem renameNamesOf_editAll (apart : first.Apart second) (ownName : Bool) :
    (nodes : List Node) →
    first.renameNamesOf ownName (editAll second.everywhereEdit nodes) =
      editAll second.everywhereEdit (first.renameNamesOf ownName nodes)
  | [] => rfl
  | node :: rest => by
      rw [editAll]
      cases isName : node.nameLeaf? with
      | none =>
          have noName : (node.edit second.everywhereEdit).nameLeaf? = none := by
            rw [nameLeaf?_everywhereEdit, isName]
            rfl
          rw [renameNamesOf_noName first ownName isName, renameNamesOf_noName first ownName noName,
            renameNames_edit apart node, renameNamesOf_editAll apart ownName rest, editAll]
      | some leaf =>
          obtain ⟨rfl, isField⟩ := nameLeaf?_eq_some_iff.mp isName
          have isField' : (second.renameLeaf leaf).field = some "name" :=
            (renameLeaf_field second leaf).trans isField
          have sameLeaf : (if ownName then first.renameLeaf (second.renameLeaf leaf)
              else second.renameLeaf leaf) =
                second.renameLeaf (if ownName then first.renameLeaf leaf else leaf) := by
            cases ownName with
            | false => rfl
            | true => exact renameLeaf_comm apart leaf
          rw [renameNamesOf_nameLeaf first ownName isField, editAll,
            ← renameNamesOf_editAll apart false rest]
          refine (renameNamesOf_nameLeaf first ownName isField' _).trans ?_
          rw [sameLeaf]
          rfl

end

mutual

theorem renameNames_comm (apart : first.Apart second) : (node : Node) →
    first.renameNames (second.renameNames node) = second.renameNames (first.renameNames node)
  | .ident _ => rfl
  | .token _ => rfl
  | .branch construct label children => by
      by_cases isBlock : construct = .block
      · subst isBlock
        rfl
      · rw [renameNames_branch second isBlock, renameNames_branch first isBlock,
          renameNames_branch first isBlock, renameNames_branch second isBlock,
          renameNamesOf_comm apart _ _ children]

theorem renameNamesOf_comm (apart : first.Apart second) (own own' : Bool) :
    (nodes : List Node) →
    first.renameNamesOf own (second.renameNamesOf own' nodes) =
      second.renameNamesOf own' (first.renameNamesOf own nodes)
  | [] => rfl
  | node :: rest => by
      cases isName : node.nameLeaf? with
      | none =>
          have noName (rule : Renaming) : (rule.renameNames node).nameLeaf? = none :=
            (nameLeaf?_renameNames rule node).trans isName
          rw [renameNamesOf_noName second own' isName, renameNamesOf_noName first own isName,
            renameNamesOf_noName first own (noName second),
            renameNamesOf_noName second own' (noName first), renameNames_comm apart node,
            renameNamesOf_comm apart own own' rest]
      | some leaf =>
          -- Which leaf is the name depends on its field alone, and renaming leaves that.
          obtain ⟨rfl, isField⟩ := nameLeaf?_eq_some_iff.mp isName
          have isField' (rule : Renaming) (ownName : Bool) :
              (if ownName then rule.renameLeaf leaf else leaf).field = some "name" := by
            cases ownName with
            | false => exact isField
            | true => exact (renameLeaf_field rule leaf).trans isField
          rw [renameNamesOf_nameLeaf second own' isField, renameNamesOf_nameLeaf first own isField,
            renameNamesOf_nameLeaf first own (isField' second own'),
            renameNamesOf_nameLeaf second own' (isField' first own),
            renameNamesOf_comm apart false false rest]
          cases own with
          | false => rfl
          | true =>
              cases own' with
              | false => rfl
              | true => exact congrArg (Node.ident · :: _) (renameLeaf_comm apart leaf)

end

theorem rename_comm (apart : first.Apart second) (tree : SyntaxTree) :
    first.rename (second.rename tree) = second.rename (first.rename tree) := by
  have sameRoot :
      first.change (second.change tree.root) = second.change (first.change tree.root) := by
    unfold Renaming.change
    cases first.reach with
    | everywhere =>
        cases second.reach with
        | everywhere => exact edit_comm apart tree.root
        | declarations _ => exact (renameNames_edit apart.symm tree.root).symm
    | declarations _ =>
        cases second.reach with
        | everywhere => exact renameNames_edit apart tree.root
        | declarations _ => exact renameNames_comm apart tree.root
  simp only [rename_eq_change, sameRoot]

/-! ### Both renamings in a pipeline -/

/-- Without a collision a renaming changes the tree, unless there is nothing to rename. -/
theorem apply_of_free {rule : Renaming} {tree : SyntaxTree} (free : rule.collision? tree = none) :
    rule.apply tree = ⟨if rule.isIdle tree then tree else rule.rename tree, none⟩ := by
  unfold Renaming.apply
  split
  · rfl
  · rw [free]

theorem free_of_succeeds {rule : Renaming} {tree : SyntaxTree}
    (succeeds : (rule.apply tree).error = none) : rule.collision? tree = none := by
  rw [error_eq] at succeeds
  exact Option.map_eq_none_iff.mp succeeds

theorem tree_behind (apart : first.Apart second) {tree : SyntaxTree}
    (succeeds : (first.apply tree).error = none) (succeeds' : (second.apply tree).error = none) :
    (second.apply (first.apply tree).tree).tree = (first.apply (second.apply tree).tree).tree := by
  have behind := free_of_succeeds ((error_behind apart tree).trans succeeds')
  have behind' := free_of_succeeds ((error_behind apart.symm tree).trans succeeds)
  have idle := isIdle_rename_of_apart apart tree
  have idle' := isIdle_rename_of_apart apart.symm tree
  rw [apply_of_free behind, apply_of_free behind', apply_of_free (free_of_succeeds succeeds),
    apply_of_free (free_of_succeeds succeeds')]
  cases isIdle : first.isIdle tree <;> cases isIdle' : second.isIdle tree <;>
    simp [isIdle, isIdle', idle, idle', rename_comm apart]

theorem applyAll_pair (first second : Renaming) (file : Path) (tree : SyntaxTree) :
    ((Pipeline.applyAll [.rename first, .rename second] file tree).error = none ↔
        (first.apply tree).error = none ∧
          (second.apply (first.apply tree).tree).error = none) ∧
      ((first.apply tree).error = none →
        (Pipeline.applyAll [.rename first, .rename second] file tree).tree =
          (second.apply (first.apply tree).tree).tree) := by
  unfold Pipeline.applyAll
  rw [Pipeline.applyFrom_cons, Pipeline.applyFrom_cons]
  simp only [Rule.apply, Pipeline.applyFrom]
  cases (first.apply tree).error with
  | some cause =>
      refine ⟨iff_of_false ?_ ?_, ?_⟩
      · exact Option.some_ne_none _
      · exact fun both => Option.some_ne_none cause both.1
      · exact fun impossible => absurd impossible (Option.some_ne_none cause)
  | none =>
      cases (second.apply (first.apply tree).tree).error with
      | some cause =>
          refine ⟨iff_of_false ?_ ?_, fun _ => rfl⟩
          · exact Option.some_ne_none _
          · exact fun both => Option.some_ne_none cause both.2
      | none => exact ⟨iff_of_true rfl ⟨rfl, rfl⟩, fun _ => rfl⟩

/-- Of two renamings that have no name in common, a pipeline may apply either first: it succeeds in
both orders or in none, and if it succeeds it leaves the same tree. Behind the other one, each of
them fails exactly if it fails without it, and with the same error. -/
theorem independent_renamings_commute (first second : Renaming) (apart : first.Apart second)
    (file : Path) (tree : SyntaxTree) :
    let forth := Pipeline.applyAll [.rename first, .rename second] file tree
    let back := Pipeline.applyAll [.rename second, .rename first] file tree
    (forth.error = none ↔ back.error = none) ∧ (forth.error = none → forth.tree = back.tree) ∧
      (second.apply (first.apply tree).tree).error = (second.apply tree).error ∧
      (first.apply (second.apply tree).tree).error = (first.apply tree).error := by
  obtain ⟨forthIff, forthTree⟩ := applyAll_pair first second file tree
  obtain ⟨backIff, backTree⟩ := applyAll_pair second first file tree
  have behind := error_behind apart tree
  have behind' := error_behind apart.symm tree
  rw [behind] at forthIff
  rw [behind'] at backIff
  refine ⟨?_, ?_, behind, behind'⟩
  · rw [forthIff, backIff]
    exact and_comm
  · intro succeeds
    obtain ⟨firstSucceeds, secondSucceeds⟩ := forthIff.mp succeeds
    rw [forthTree firstSucceeds, backTree secondSucceeds]
    exact tree_behind apart firstSucceeds secondSucceeds

/-- A renaming of a module and its uses, and one of a function alone. -/
theorem independent_renamings_commute_call :
    ∃ first second tree, first = ⟨"f to g", "f", "g", .everywhere⟩ ∧
      second = ⟨"p to q", "p", "q", .declarations (some .function)⟩ ∧ first.Apart second ∧
      parse "mod f;fn p()\x7bf::p()\x7d" = .ok tree ∧
      (Pipeline.applyAll [.rename first, .rename second] (.ofText "a.rs") tree).tree.toSource =
        "mod g;fn q()\x7bg::p()\x7d" ∧
      (Pipeline.applyAll [.rename second, .rename first] (.ofText "a.rs") tree).error = none ∧
      (Pipeline.applyAll [.rename second, .rename first] (.ofText "a.rs") tree).tree.toSource =
        "mod g;fn q()\x7bg::p()\x7d" := by
  obtain ⟨first, second, cst, isFirst, isSecond, isTree, apart, succeeds, text⟩ :
      ∃ first second cst, first = ⟨"f to g", "f", "g", .everywhere⟩ ∧
        second = ⟨"p to q", "p", "q", .declarations (some .function)⟩ ∧
        concreteTree? "mod f;fn p()\x7bf::p()\x7d" = some cst ∧ first.Apart second ∧
        (Pipeline.applyAll [.rename first, .rename second] (.ofText "a.rs")
          (convert "mod f;fn p()\x7bf::p()\x7d" cst)).error = none ∧
        (Pipeline.applyAll [.rename first, .rename second] (.ofText "a.rs")
          (convert "mod f;fn p()\x7bf::p()\x7d" cst)).tree.toSource =
            "mod g;fn q()\x7bg::p()\x7d" :=
    ⟨_, _, (concreteTree? "mod f;fn p()\x7bf::p()\x7d").get (by decide +kernel), rfl, rfl,
      (Option.some_get _).symm, ⟨by decide, by decide, by decide, by decide⟩, by decide +kernel,
      by decide +kernel⟩
  obtain ⟨bothSucceed, sameTree, _⟩ := independent_renamings_commute first second apart (.ofText "a.rs")
    (convert "mod f;fn p()\x7bf::p()\x7d" cst)
  exact ⟨first, second, _, isFirst, isSecond, apart, (parse_eq_ok_iff _ _).mpr ⟨cst, isTree, rfl⟩,
    text, bothSucceed.mp succeeds, sameTree succeeds ▸ text⟩

end

end Codemod
