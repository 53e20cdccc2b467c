import Codemod.Proofs.Tree.Convert
import Codemod.Proofs.Tree.Edit
import Codemod.Rule.Renaming

/-!
A renaming that reaches everywhere changes exactly the identifiers that read the old name.

Main statement: if it succeeds, every position of the tree holds what it held before, but for the
text of these identifiers. No identifier reads the old name any more, so renaming again changes
nothing. In the text of a parsed file, exactly the ranges of these identifiers are replaced.
-/

set_option autoImplicit false

namespace Codemod

open Codemod.Grammar (Cst)
open Codemod.Text
open Codemod.Tree

/-- A node of which the text is renamed if it is an identifier that reads the old name. -/
def Tree.Face.renamed (old new : String) : Face → Face
  | .ident leaf => .ident (if leaf.text = old then { leaf with text := new } else leaf)
  | face => face

section

variable (rule : Renaming)

theorem entersAll_everywhereEdit : rule.everywhereEdit.EntersAll := fun _ => rfl

theorem ofFace_everywhereEdit : rule.everywhereEdit.ofFace = Face.renamed rule.old rule.new := by
  funext face
  cases face <;> rfl

theorem identifiers_everywhereEdit (tree : SyntaxTree) :
    (tree.edit rule.everywhereEdit).identifiers = tree.identifiers.map rule.renameLeaf :=
  identifiers_edit (entersAll_everywhereEdit rule) tree.root

theorem edit_of_count_eq_zero {tree : SyntaxTree} (none : tree.countIdentifier rule.old = 0) :
    tree.edit rule.everywhereEdit = tree := by
  have rootSame : tree.root.edit rule.everywhereEdit = tree.root := by
    refine edit_eq_self (entersAll_everywhereEdit rule) tree.root ?_
    rintro ⟨isIdent, leaf⟩ isIn
    cases isIdent with
    | false => rfl
    | true =>
        have isIdentifier : leaf ∈ tree.identifiers := by
          change leaf ∈ tree.root.identifiers
          rw [identifiers_eq_marked]
          exact List.mem_map.mpr ⟨(true, leaf), List.mem_filter.mpr ⟨isIn, rfl⟩, rfl⟩
        have other : leaf.text ≠ rule.old := by
          intro reads
          exact List.countP_eq_zero.mp none leaf isIdentifier (beq_iff_eq.mpr reads)
        exact congrArg (Prod.mk true) (if_neg other)
  unfold SyntaxTree.edit
  rw [rootSame]

variable {rule}

/-- What a renaming that succeeds leaves behind. -/
theorem apply_everywhere {tree : SyntaxTree} (everywhere : rule.reach = .everywhere)
    (succeeds : (rule.apply tree).error = none) :
    rule.apply tree = ⟨tree.edit rule.everywhereEdit, none⟩ := by
  unfold Renaming.apply at succeeds ⊢
  split
  · rename_i idle
    unfold Renaming.isIdle at idle
    rw [everywhere] at idle
    rw [edit_of_count_eq_zero rule (beq_iff_eq.mp idle)]
  · rename_i busy
    rw [if_neg busy] at succeeds
    split
    · rename_i existing collides
      rw [collides] at succeeds
      exact nomatch succeeds
    · unfold Renaming.rename
      rw [everywhere]

/-! ### Counting names -/

theorem renameLeaf_text (leaf : Token) :
    (rule.renameLeaf leaf).text = if leaf.text = rule.old then rule.new else leaf.text := by
  unfold Renaming.renameLeaf
  split <;> rfl

theorem count_old_edit (tree : SyntaxTree) (differ : rule.old ≠ rule.new) :
    (tree.edit rule.everywhereEdit).countIdentifier rule.old = 0 := by
  unfold SyntaxTree.countIdentifier
  rw [identifiers_everywhereEdit, List.countP_eq_zero]
  intro leaf isIn reads
  obtain ⟨before, _, rfl⟩ := List.mem_map.mp isIn
  rw [beq_iff_eq, renameLeaf_text] at reads
  split at reads
  · exact differ reads.symm
  · rename_i other
    exact other reads

theorem count_new_edit (tree : SyntaxTree) (differ : rule.old ≠ rule.new) :
    (tree.edit rule.everywhereEdit).countIdentifier rule.new =
      tree.countIdentifier rule.old + tree.countIdentifier rule.new := by
  unfold SyntaxTree.countIdentifier
  rw [identifiers_everywhereEdit]
  induction tree.identifiers with
  | nil => rfl
  | cons leaf rest ih =>
      rw [List.map_cons, List.countP_cons, List.countP_cons, List.countP_cons, ih, renameLeaf_text]
      by_cases reads : leaf.text = rule.old
      · have notNew : (leaf.text == rule.new) = false := beq_eq_false_iff_ne.mpr (reads ▸ differ)
        rw [if_pos reads, notNew, beq_iff_eq.mpr reads, beq_self_eq_true]
        simp only [if_true, Bool.false_eq_true, if_false]
        omega
      · have notOld : (leaf.text == rule.old) = false := beq_eq_false_iff_ne.mpr reads
        rw [if_neg reads, notOld]
        simp only [Bool.false_eq_true, if_false]
        omega

theorem count_other_edit (tree : SyntaxTree) {name : String} (notOld : name ≠ rule.old)
    (notNew : name ≠ rule.new) :
    (tree.edit rule.everywhereEdit).countIdentifier name = tree.countIdentifier name := by
  unfold SyntaxTree.countIdentifier
  rw [identifiers_everywhereEdit, List.countP_map]
  refine List.countP_congr fun leaf _ => ?_
  rw [Function.comp_apply, beq_iff_eq, beq_iff_eq, renameLeaf_text]
  split
  · rename_i reads
    rw [reads]
    exact iff_of_false notNew.symm notOld.symm
  · exact Iff.rfl

/-! ### Text of the renamed tree -/

/-- Leaves whose spans start and end at boundaries and follow each other. -/
def Spaced (text : List Char) : (behind : Nat) → List Token → Prop
  | _, [] => True
  | behind, leaf :: rest =>
      (behind ≤ leaf.span.start ∧ leaf.span.start ≤ leaf.span.stop) ∧
        (Boundary text leaf.span.start ∧ Boundary text leaf.span.stop) ∧
        Spaced text leaf.span.stop rest

theorem spaced_of_spans {text : List Char} (index : LineIndex) {leaves : List Token}
    {tokens : List Cst} (spans : leaves.map (·.span) = tokens.map (spanOf index)) {behind : Nat}
    (onBoundary : ∀ token, token ∈ tokens → OnBoundary text token)
    (inOrder : InOrder behind tokens) : Spaced text behind leaves := by
  induction leaves generalizing tokens behind with
  | nil => trivial
  | cons leaf leaves ih =>
      cases tokens with
      | nil => exact absurd spans (List.cons_ne_nil _ _)
      | cons token tokens =>
          obtain ⟨spanEq, restEq⟩ := List.cons.inj spans
          have startEq : leaf.span.start = token.start := congrArg Span.start spanEq
          have stopEq : leaf.span.stop = token.stop := congrArg Span.stop spanEq
          unfold Spaced
          rw [startEq, stopEq]
          exact ⟨⟨inOrder.1, inOrder.2.1⟩, onBoundary token List.mem_cons_self,
            ih restEq (fun next isIn => onBoundary next (List.mem_cons_of_mem _ isIn)) inOrder.2.2⟩

def rangesOf (leaves : List Token) : List (Nat × Nat) :=
  leaves.map fun leaf => (leaf.span.start, leaf.span.stop)

/-- Whether a marked leaf is an identifier that reads the old name. -/
def Renaming.isTarget (rule : Renaming) (leaf : Bool × Token) : Bool :=
  leaf.1 && leaf.2.text == rule.old

theorem written_ofLeaf (leaf : Bool × Token) :
    (rule.everywhereEdit.ofLeaf leaf).2.written =
      leaf.2.leading.toList ++
        if rule.isTarget leaf then rule.new.toList else leaf.2.text.toList := by
  obtain ⟨isIdent, leaf⟩ := leaf
  cases isIdent with
  | false => rfl
  | true =>
      change (rule.renameLeaf leaf).written = _
      unfold Renaming.renameLeaf Renaming.isTarget Token.written
      by_cases reads : leaf.text = rule.old
      · simp [reads]
      · simp [reads]

/-- Leaves that cover a text spell it with the ranges of those that are renamed replaced. What lies
between `behind` and `place` has been passed and is kept. -/
theorem renamed_spells {text trailing : List Char} (leaves : List (Bool × Token))
    {behind place : Nat} (behindBoundary : Boundary text behind)
    (placeBoundary : Boundary text place) (atMost : behind ≤ place)
    (covers : Covers text place (leaves.map (·.2)) trailing)
    (spaced : Spaced text place (leaves.map (·.2))) :
    sliceBytes text behind place ++
        ((leaves.map rule.everywhereEdit.ofLeaf).flatMap (·.2.written) ++ trailing) =
      replaceRanges text rule.new.toList behind
        (rangesOf ((leaves.filter rule.isTarget).map (·.2))) := by
  induction leaves generalizing behind place with
  | nil =>
      obtain rfl : trailing = sliceBytes text place (byteCount text) := covers
      exact sliceBytes_append behindBoundary placeBoundary (boundary_length text) atMost
        (le_length_of_boundary placeBoundary)
  | cons leaf rest ih =>
      obtain ⟨leading, body, restCovers⟩ := covers
      obtain ⟨⟨startBehind, ordered⟩, ⟨startBoundary, stopBoundary⟩, restSpaced⟩ := spaced
      have toStart := sliceBytes_append behindBoundary placeBoundary startBoundary atMost startBehind
      rw [List.map_cons, List.flatMap_cons, written_ofLeaf, leading, List.filter_cons]
      cases rule.isTarget leaf with
      | true =>
          have further := ih stopBoundary stopBoundary (Nat.le_refl _) restCovers restSpaced
          rw [sliceBytes_self, List.nil_append] at further
          simp only [if_true, List.map_cons, rangesOf, replaceRanges]
          rw [← rangesOf, ← further, ← toStart]
          simp only [List.append_assoc]
      | false =>
          have toStop := sliceBytes_append behindBoundary startBoundary stopBoundary
            (Nat.le_trans atMost startBehind) ordered
          have further := ih behindBoundary stopBoundary
            (Nat.le_trans (Nat.le_trans atMost startBehind) ordered) restCovers restSpaced
          simp only [Bool.false_eq_true, if_false]
          rw [← further, ← toStop, ← toStart, body]
          simp only [List.append_assoc]

theorem identifiers_filter (tree : SyntaxTree) :
    tree.identifiers.filter (fun leaf => leaf.text == rule.old) =
      (tree.root.markedLeaves.filter rule.isTarget).map (·.2) := by
  unfold SyntaxTree.identifiers Renaming.isTarget
  rw [identifiers_eq_marked, List.filter_map, List.filter_filter]
  congr 2
  funext leaf
  exact Bool.and_comm ..

theorem toSource_edit_convert {source : String} {cst : Cst} (onBoundaries : OnBoundaries source cst)
    (inOrder : InOrder 0 (forestTokens cst.children)) :
    ((convert source cst).edit rule.everywhereEdit).toSource.toList =
      replaceRanges source.toList rule.new.toList 0
        (rangesOf ((convert source cst).identifiers.filter fun leaf => leaf.text == rule.old)) := by
  have covers := convert_covers onBoundaries inOrder
  have spaced := spaced_of_spans _ (spans_convert source cst) onBoundaries inOrder
  rw [leaves_eq_marked] at covers spaced
  have zero : Boundary source.toList 0 := ⟨[], source.toList, rfl, rfl⟩
  have spells : _ = replaceRanges source.toList rule.new.toList 0 _ :=
    renamed_spells _ zero zero (Nat.le_refl 0) covers spaced
  rw [identifiers_filter, ← spells, sliceBytes_self, SyntaxTree.toSource, String.toList_append,
    toList_leafText, SyntaxTree.edit, leaves_eq_marked,
    markedLeaves_edit (entersAll_everywhereEdit rule), List.flatMap_map]
  rfl

/-- A renaming that reaches everywhere and succeeds changes the text of exactly the identifiers that
read the old name, and nothing else about the tree. The old name is counted no more, its identifiers
are counted under the new one, and renaming again changes nothing. If the tree was parsed from a
text, exactly the ranges of these identifiers are replaced in the text. -/
theorem renaming_exact (rule : Renaming) (tree : SyntaxTree) (everywhere : rule.reach = .everywhere)
    (differ : rule.old ≠ rule.new) (succeeds : (rule.apply tree).error = none) :
    let result := (rule.apply tree).tree
    (∀ path, result.root.faceAt? path =
        (tree.root.faceAt? path).map (Face.renamed rule.old rule.new)) ∧
      result.trailing = tree.trailing ∧
      result.countIdentifier rule.old = 0 ∧
      result.countIdentifier rule.new =
        tree.countIdentifier rule.old + tree.countIdentifier rule.new ∧
      (∀ name, name ≠ rule.old → name ≠ rule.new →
        result.countIdentifier name = tree.countIdentifier name) ∧
      rule.apply result = ⟨result, none⟩ ∧
      ∀ source cst, parse source = .ok tree → concreteTree? source = some cst →
        OnBoundaries source cst → InOrder 0 (forestTokens cst.children) →
        result.toSource.toList = replaceRanges source.toList rule.new.toList 0
          (rangesOf (tree.identifiers.filter fun leaf => leaf.text == rule.old)) := by
  have applied := apply_everywhere everywhere succeeds
  have noneLeft := count_old_edit tree differ
  simp only [applied]
  refine ⟨?_, rfl, noneLeft, count_new_edit tree differ, ?_, ?_, ?_⟩
  · intro path
    rw [← ofFace_everywhereEdit]
    exact faceAt?_edit (entersAll_everywhereEdit rule) tree.root path
  · intro name notOld notNew
    exact count_other_edit tree notOld notNew
  · unfold Renaming.apply Renaming.isIdle
    rw [everywhere, noneLeft]
    rfl
  · intro source cst isParsed isTree onBoundaries inOrder
    obtain ⟨cst', isTree', rfl⟩ := (parse_eq_ok_iff source tree).mp isParsed
    obtain rfl := Option.some.inj (isTree.symm.trans isTree')
    exact toSource_edit_convert onBoundaries inOrder

/-- The name in the comment is no identifier and stays. -/
theorem renaming_exact_comment :
    ∃ tree, parse "/*f*/mod f;" = .ok tree ∧
      (Renaming.apply ⟨"f to g", "f", "g", .everywhere⟩ tree).error = none ∧
      (Renaming.apply ⟨"f to g", "f", "g", .everywhere⟩ tree).tree.toSource = "/*f*/mod g;" ∧
      (Renaming.apply ⟨"f to g", "f", "g", .everywhere⟩ tree).tree.countIdentifier "f" = 0 := by
  obtain ⟨cst, isTree, onBoundaries, inOrder, succeeds, ranges⟩ :
      ∃ cst, concreteTree? "/*f*/mod f;" = some cst ∧ OnBoundaries "/*f*/mod f;" cst ∧
        InOrder 0 (forestTokens cst.children) ∧
        (Renaming.apply ⟨"f to g", "f", "g", .everywhere⟩
          (convert "/*f*/mod f;" cst)).error = none ∧
        rangesOf ((convert "/*f*/mod f;" cst).identifiers.filter fun leaf => leaf.text == "f") =
          [(9, 10)] :=
    ⟨(concreteTree? "/*f*/mod f;").get (by decide +kernel), (Option.some_get _).symm,
      by decide +kernel, by decide +kernel, by decide +kernel, by decide +kernel⟩
  have isParsed : parse "/*f*/mod f;" = .ok (convert "/*f*/mod f;" cst) :=
    (parse_eq_ok_iff _ _).mpr ⟨cst, isTree, rfl⟩
  obtain ⟨_, _, noneLeft, _, _, _, spells⟩ :=
    renaming_exact ⟨"f to g", "f", "g", .everywhere⟩ _ rfl (by decide) succeeds
  have text := spells _ _ isParsed isTree onBoundaries inOrder
  rw [ranges] at text
  refine ⟨_, isParsed, succeeds, String.toList_inj.mp (text.trans ?_), noneLeft⟩
  decide +kernel

end

end Codemod
