import Mathlib.Data.List.Induction
import Codemod.Proofs.Diff.Least
import Codemod.Proofs.Diff.Summary

/-!
A diff is minimal.

Settling and joining move what a script deletes and inserts, and neither adds to it, so the diff of
two texts has as many changes as the shortest script of their lines. Every other list of changes
that leads from the one text to the other is a path, and every list of lines that both texts have is
what some list of changes keeps.

Main statement: insertions and deletions are all lines of both texts but those of a longest list
that both have, and no changes from the one text to the other insert and delete fewer.
-/

set_option autoImplicit false

namespace Codemod.Diff

/-! ### Kept lines of a script -/

def Change.keptLine? : Change → Option String
  | keep line => some line
  | _ => none

/-- The lines that changes keep. -/
def keptLines (changes : List Change) : List String := changes.filterMap Change.keptLine?

theorem keptLines_append (front back : List Change) :
    keptLines (front ++ back) = keptLines front ++ keptLines back :=
  List.filterMap_append ..

theorem View.sublist_shown (view : View) (changes : List Change) :
    (keptLines changes).Sublist (changes.filterMap view.line?) := by
  induction changes with
  | nil => exact .slnil
  | cons change rest ih =>
      cases change with
      | keep line =>
          rw [List.filterMap_cons_some (view.keeps line)]
          exact ih.cons_cons line
      | delete line => exact ih.trans ((List.sublist_cons_self _ rest).filterMap view.line?)
      | insert line => exact ih.trans ((List.sublist_cons_self _ rest).filterMap view.line?)

theorem length_keptLines (changes : List Change) :
    changes.countP Change.isInsertion + changes.countP Change.isDeletion +
        2 * (keptLines changes).length =
      (oldSide changes).length + (newSide changes).length := by
  have oldLength : changes.countP Change.isInsertion + (oldSide changes).length = changes.length :=
    View.old.length_shown changes
  have newLength : changes.countP Change.isDeletion + (newSide changes).length = changes.length :=
    View.new.length_shown changes
  have all : changes.countP Change.isInsertion + changes.countP Change.isDeletion +
      (keptLines changes).length = changes.length := by
    clear oldLength newLength
    induction changes with
    | nil => rfl
    | cons change rest ih =>
        unfold keptLines at ih ⊢
        rw [List.countP_cons, List.countP_cons, List.filterMap_cons, List.length_cons, ← ih]
        cases change with
        | keep line => rfl
        | delete line => exact Nat.add_right_comm _ 1 _
        | insert line =>
            change _ + 1 + _ + _ = _
            rw [Nat.add_right_comm _ 1, Nat.add_right_comm _ 1]
            rfl
  omega

section

variable {old new : Array String} {anchors : Anchors} {start stop : Tally}

theorem kept_changes {op : Op} (fits : op.FitsJoined old new anchors start)
    (within : start.oldPlace + op.oldCount ≤ old.size) :
    (start.next op).kept = start.kept + (keptLines (op.changes old new)).length := by
  have noneDeleted (lines : List String) : keptLines (lines.map .delete) = [] :=
    filterMap_map_hidden (fun _ => rfl) lines
  have noneInserted (lines : List String) : keptLines (lines.map .insert) = [] :=
    filterMap_map_hidden (fun _ => rfl) lines
  cases tagEq : op.tag with
  | equal =>
      simp only [Op.FitsJoined, Op.Fits, tagEq] at fits
      have allKept (lines : List String) : keptLines (lines.map .keep) = lines :=
        filterMap_map_shown (fun _ => rfl) lines
      simp only [Op.changes, Tally.next, tagEq, allKept]
      rw [length_slice (by rw [fits.1]; exact within)]
  | delete => simp only [Op.changes, Tally.next, tagEq, noneDeleted, List.length_nil]; rfl
  | insert => simp only [Op.changes, Tally.next, tagEq, noneInserted, List.length_nil]; rfl
  | replace =>
      simp only [Op.changes, Tally.next, tagEq, keptLines_append, noneDeleted, noneInserted,
        List.append_nil, List.length_nil]
      rfl

theorem kept_run {ops : List Op} (run : Run (Op.FitsJoined old new anchors) start ops stop)
    (within : stop.oldPlace ≤ old.size) :
    stop.kept = start.kept + (keptLines (changesOf old new ops)).length := by
  induction ops generalizing start with
  | nil =>
      obtain rfl : start = stop := run
      rfl
  | cons op rest ih =>
      obtain ⟨fits, restRun⟩ := run
      obtain ⟨_, nextPlace⟩ := oldSide_changes fits
      obtain ⟨count, stopPlace, _⟩ := oldSide_run restRun
      rw [ih restRun, kept_changes fits (by omega), changesOf_cons, keptLines_append,
        List.length_append, Nat.add_assoc]

end

/-! ### The shortest script -/

section

variable {α : Type} {old new : Array α} {start stop : Tally}

theorem edits_next {op : Op} (stands : op.Exact old new start) :
    (start.next op).deleted + (start.next op).inserted =
      start.deleted + start.inserted + op.edits := by
  obtain ⟨_, _, shape⟩ := stands
  cases tagEq : op.tag with
  | replace =>
      rw [tagEq] at shape
      exact shape.elim
  | equal =>
      simp only [Tally.next, Op.edits, tagEq, if_true, Nat.add_zero]
  | delete =>
      simp only [tagEq] at shape
      simp only [Tally.next, Op.edits, tagEq, reduceCtorEq, if_false, shape.2]
      omega
  | insert =>
      simp only [tagEq] at shape
      simp only [Tally.next, Op.edits, tagEq, reduceCtorEq, if_false, shape.2]
      omega

theorem edits_run {ops : List Op} (run : Run (Op.Exact old new) start ops stop) :
    stop.deleted + stop.inserted = start.deleted + start.inserted + editsOf ops := by
  induction ops generalizing start with
  | nil =>
      obtain rfl : start = stop := run
      rfl
  | cons op rest ih =>
      obtain ⟨stands, restRun⟩ := run
      rw [ih restRun, edits_next stands, editsOf, Nat.add_assoc]

end

/-- The changes of two sequences of lines delete and insert as many lines as the shortest script. -/
theorem countP_lineOps (old new : Array String) :
    (changesOf old new (lineOps old new)).countP Change.isInsertion +
        (changesOf old new (lineOps old new)).countP Change.isDeletion =
      editsOf (script old new) := by
  obtain ⟨stop, oldAll, newAll, run⟩ := run_script old new
  have joined := run_lineOps_of_script run
  have edits := edits_run run
  have kept := kept_run joined (Nat.le_of_eq oldAll)
  have all := length_keptLines (changesOf old new (lineOps old new))
  obtain ⟨oldLines, newLines⟩ := sides_lineOps old new
  rw [congrArg List.length oldLines, congrArg List.length newLines] at all
  simp only [Tally.zero, Tally.oldPlace, Tally.newPlace, Array.length_toList] at *
  omega

/-! ### Other changes -/

theorem getElem?_of_toList {lines : Array String} {front rest : List String} {line : String}
    (all : front ++ line :: rest = lines.toList) :
    front.length < lines.size ∧ lines[0 + front.length]? = some line := by
  constructor
  · rw [← Array.length_toList, ← all, List.length_append, List.length_cons]
    omega
  · rw [Nat.zero_add, ← Array.getElem?_toList, ← all, List.getElem?_append_right (Nat.le_refl _),
      Nat.sub_self, List.getElem?_cons_zero]

/-- Changes from the one text to the other are a path, and so is every first part of them. -/
theorem path_of_changes {old new : Array String} (changes : List Change) :
    ∀ rest : List Change, oldSide (changes ++ rest) = old.toList →
      newSide (changes ++ rest) = new.toList →
      EditPath (Window.frontSame old new ⟨0, old.size, 0, new.size⟩)
        (changes.countP Change.isInsertion + changes.countP Change.isDeletion)
        (oldSide changes).length (newSide changes).length := by
  induction changes using List.reverseRecOn with
  | nil =>
      intro rest _ _
      exact .start
  | append_singleton front change ih =>
      intro rest oldAll newAll
      rw [List.append_assoc] at oldAll newAll
      have path := ih ([change] ++ rest) oldAll newAll
      rw [oldSide_append, List.singleton_append] at oldAll
      rw [newSide_append, List.singleton_append] at newAll
      rw [List.countP_append, List.countP_append, oldSide_append, newSide_append,
        List.length_append, List.length_append]
      cases change with
      | keep line =>
          -- The line stands behind what the changes so far have passed of both texts.
          obtain ⟨oldWithin, oldLine⟩ := getElem?_of_toList oldAll
          obtain ⟨newWithin, newLine⟩ := getElem?_of_toList newAll
          exact path.keep ⟨oldWithin, newWithin, oldLine.trans newLine.symm⟩
      | delete line => exact path.delete
      | insert line =>
          have inserted := path.insert
          rw [Nat.add_right_comm] at inserted
          exact inserted

/-- Lines that two texts have in this order are what some changes from the one to the other keep. -/
theorem exists_changes_of_common {common left right : List String} (inLeft : common.Sublist left) :
    common.Sublist right →
      ∃ changes, oldSide changes = left ∧ newSide changes = right ∧ keptLines changes = common := by
  induction inLeft generalizing right with
  | slnil =>
      intro _
      exact ⟨right.map .insert, oldSide_insert right, newSide_insert right,
        filterMap_map_hidden (fun _ => rfl) right⟩
  | cons line _ ih =>
      intro inRight
      obtain ⟨changes, oldLines, newLines, kept⟩ := ih inRight
      exact ⟨.delete line :: changes, congrArg (List.cons line) oldLines, newLines, kept⟩
  | cons_cons line _ ih =>
      intro inRight
      -- What the right text has in front of the common line is inserted before it.
      obtain ⟨skipped, behind, rfl, isIn, inBehind⟩ := List.cons_sublist_iff.mp inRight
      obtain ⟨before, after, rfl⟩ := List.append_of_mem isIn
      obtain ⟨changes, oldLines, newLines, kept⟩ :=
        ih (inBehind.trans (List.sublist_append_right after behind))
      refine ⟨before.map .insert ++ .keep line :: changes, ?_, ?_, ?_⟩
      · rw [oldSide_append, oldSide_insert]
        exact congrArg (List.cons line) oldLines
      · rw [newSide_append, newSide_insert, List.append_assoc, List.cons_append]
        exact congrArg (fun lines => before ++ line :: lines) newLines
      · rw [keptLines_append, keptLines, filterMap_map_hidden fun _ => rfl]
        exact congrArg (List.cons line) kept

/-! ### Minimality -/

/-- A longest list of lines that two lists both have, in this order. -/
structure LongestCommon (common left right : List String) : Prop where
  inLeft : common.Sublist left
  inRight : common.Sublist right
  longest : ∀ other : List String, other.Sublist left → other.Sublist right →
    other.length ≤ common.length

theorem stats_le_changes (old new : String) {changes : List Change}
    (oldAll : oldSide changes = (linesOf old).toList)
    (newAll : newSide changes = (linesOf new).toList) :
    (stats old new).insertions + (stats old new).deletions ≤
      changes.countP Change.isInsertion + changes.countP Change.isDeletion := by
  have path := path_of_changes changes [] ((List.append_nil changes).symm ▸ oldAll)
    ((List.append_nil changes).symm ▸ newAll)
  rw [oldAll, newAll] at path
  rw [stats_eq, textChanges]
  simp only
  rw [countP_lineOps]
  exact costs_script (linesOf old) (linesOf new) _ path

/-- The lines of a text are lines, and they make it up. -/
def AreLinesOf (lines : List String) (text : String) : Prop :=
  String.join lines = text ∧ ∀ line, line ∈ lines → IsLine line.toList

theorem areLinesOf_linesOf (text : String) : AreLinesOf (linesOf text).toList text :=
  ⟨join_linesOf text, fun _ isIn => isLine_of_mem_linesOf (Array.mem_toList_iff.mp isIn)⟩

/-- The insertions and deletions of two texts are all their lines but those of a longest list of
lines that both have, once in either. No changes that lead from the lines of the one text to those
of the other insert and delete fewer lines. -/
theorem stats_minimal (old new : String) :
    (AreLinesOf (linesOf old).toList old ∧ AreLinesOf (linesOf new).toList new) ∧
    (∃ common, LongestCommon common (linesOf old).toList (linesOf new).toList ∧
      (stats old new).insertions + (stats old new).deletions + 2 * common.length =
        (linesOf old).size + (linesOf new).size) ∧
    ∀ changes, oldSide changes = (linesOf old).toList → newSide changes = (linesOf new).toList →
      (stats old new).insertions + (stats old new).deletions ≤
        changes.countP Change.isInsertion + changes.countP Change.isDeletion := by
  obtain ⟨oldLines, newLines⟩ := sides_lineOps (linesOf old) (linesOf new)
  have all := length_keptLines (textChanges old new)
  unfold textChanges at all
  rw [oldLines, newLines] at all
  refine ⟨⟨areLinesOf_linesOf old, areLinesOf_linesOf new⟩,
    ⟨keptLines (textChanges old new), ⟨?_, ?_, ?_⟩, ?_⟩, fun _ => stats_le_changes old new⟩
  · rw [← oldLines]
    exact View.old.sublist_shown (textChanges old new)
  · rw [← newLines]
    exact View.new.sublist_shown (textChanges old new)
  · intro other inOld inNew
    obtain ⟨changes, oldAll, newAll, rfl⟩ := exists_changes_of_common inOld inNew
    have least := stats_le_changes old new oldAll newAll
    have others := length_keptLines changes
    rw [oldAll, newAll] at others
    rw [stats_eq, textChanges] at least
    simp only at least
    unfold textChanges
    omega
  · rw [Array.length_toList, Array.length_toList] at all
    exact all

end Codemod.Diff
