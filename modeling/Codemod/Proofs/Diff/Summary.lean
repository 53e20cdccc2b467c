import Mathlib.Algebra.GroupWithZero.Nat
import Mathlib.Data.List.Basic
import Codemod.Proofs.Diff.Lossless

/-!
The counts of a summary are those of the diff it stands for.

The counts are taken from the whole script, and the diff is written hunk by hunk. What hunks leave
out of a script are kept lines, so a count of other lines over the hunks is the count over the script.

Main statement: insertions, deletions and hunks are counted as often as they can be read from the
diff, and they balance the numbers of lines of the two texts. Equal texts are those without any.
-/

set_option autoImplicit false

namespace Codemod.Diff

/-! ### Hunks leave out kept lines only -/

section

variable {old new : Array String} {test : Change → Bool}

theorem countP_changesOf_append (front back : List Op) :
    (changesOf old new (front ++ back)).countP test =
      (changesOf old new front).countP test + (changesOf old new back).countP test := by
  rw [changesOf_append, List.countP_append]

variable (ofChanges : ∀ line, test (.keep line) = false)

include ofChanges

theorem countP_changesOf_kept (op : Op) (isEqual : op.tag = .equal) (rest : List Op) :
    (changesOf old new (op :: rest)).countP test = (changesOf old new rest).countP test := by
  have none : (op.changes old new).countP test = 0 := by
    unfold Op.changes
    rw [isEqual, List.countP_eq_zero]
    intro change isIn
    obtain ⟨line, _, rfl⟩ := List.mem_map.mp isIn
    rw [ofChanges line]
    exact Bool.false_ne_true
  rw [changesOf_cons, List.countP_append, none, Nat.zero_add]

theorem countP_trimStart (context : Nat) (ops : List Op) :
    (changesOf old new (trimStart context ops)).countP test =
      (changesOf old new ops).countP test := by
  cases ops with
  | nil => rfl
  | cons op rest =>
      rw [trimStart]
      split
      · rename_i isEqual
        rw [countP_changesOf_kept ofChanges op isEqual]
        exact countP_changesOf_kept ofChanges (lastKept context op) isEqual rest
      · rfl

theorem countP_trimEnd (context : Nat) (ops : List Op) :
    (changesOf old new (trimEnd context ops)).countP test =
      (changesOf old new ops).countP test := by
  fun_induction trimEnd context ops with
  | case1 => rfl
  | case2 op isEqual =>
      rw [countP_changesOf_kept ofChanges op isEqual]
      exact countP_changesOf_kept ofChanges (firstKept context op) isEqual []
  | case3 op isChange => rfl
  | case4 op rest _ ih =>
      change (changesOf old new ([op] ++ trimEnd context rest)).countP test =
        (changesOf old new ([op] ++ rest)).countP test
      rw [countP_changesOf_append, countP_changesOf_append, ih]

theorem sum_countP_asHunk (group : List Op) :
    ((asHunk group).map fun hunk => (changesOf old new hunk).countP test).sum =
      (changesOf old new group).countP test := by
  unfold asHunk
  split
  · rfl
  · split
    · rename_i isEqual
      exact (countP_changesOf_kept ofChanges _ isEqual []).symm
    · exact List.sum_singleton
  · exact List.sum_singleton

theorem sum_countP_groupFrom (context : Nat) (group ops : List Op) :
    ((groupFrom context group ops).map fun hunk => (changesOf old new hunk).countP test).sum =
      (changesOf old new (group ++ ops)).countP test := by
  fun_induction groupFrom context group ops with
  | case1 group =>
      rw [List.append_nil]
      exact sum_countP_asHunk ofChanges group
  | case2 group op rest long ih =>
      have first : (changesOf old new [firstKept context op]).countP test = 0 :=
        countP_changesOf_kept ofChanges (firstKept context op) long.1 []
      have last : (changesOf old new ([lastKept context op] ++ rest)).countP test =
          (changesOf old new rest).countP test :=
        countP_changesOf_kept ofChanges (lastKept context op) long.1 rest
      rw [List.map_cons, List.sum_cons, ih, last, countP_changesOf_append, first, Nat.add_zero,
        countP_changesOf_append, countP_changesOf_kept ofChanges op long.1]
  | case3 group op rest short ih =>
      rw [ih, List.append_assoc]
      rfl

/-- Counted over the hunks or over the script, there are as many changes of a sort. -/
theorem sum_countP_hunksOf (context : Nat) (ops : List Op) :
    ((hunksOf context ops).map fun hunk => (changesOf old new hunk).countP test).sum =
      (changesOf old new ops).countP test := by
  unfold hunksOf
  rw [sum_countP_groupFrom ofChanges, List.nil_append, countP_trimEnd ofChanges,
    countP_trimStart ofChanges]

end

/-! ### Both sides of a script -/

theorem oldSide_eq_newSide {changes : List Change}
    (noInsertion : changes.countP Change.isInsertion = 0)
    (noDeletion : changes.countP Change.isDeletion = 0) : oldSide changes = newSide changes := by
  rw [List.countP_eq_zero] at noInsertion noDeletion
  refine List.filterMap_congr fun change isIn => ?_
  cases change with
  | keep line => rfl
  | delete line => exact absurd rfl (noDeletion _ isIn)
  | insert line => exact absurd rfl (noInsertion _ isIn)

theorem sides_lineOps (old new : Array String) :
    oldSide (changesOf old new (lineOps old new)) = old.toList ∧
      newSide (changesOf old new (lineOps old new)) = new.toList := by
  obtain ⟨stop, oldAll, newAll, run⟩ := run_lineOps old new
  have zeroOld : Tally.zero.oldPlace = 0 := rfl
  have zeroNew : Tally.zero.newPlace = 0 := rfl
  obtain ⟨oldCount, oldStop, oldLines⟩ := oldSide_run run
  obtain ⟨newCount, newStop, newLines⟩ := newSide_run run
  rw [zeroOld, Nat.zero_add, oldAll] at oldStop
  rw [zeroNew, Nat.zero_add, newAll] at newStop
  rw [oldLines, newLines, ← oldStop, ← newStop, zeroOld, zeroNew, slice_all, slice_all]
  exact ⟨rfl, rfl⟩

/-! ### The summary -/

section

variable (oldPath old newPath new : String)

def textChanges : List Change :=
  changesOf (linesOf old) (linesOf new) (lineOps (linesOf old) (linesOf new))

theorem stats_eq : stats old new =
    ⟨(textChanges old new).countP Change.isInsertion, (textChanges old new).countP Change.isDeletion,
      (textHunks old new).length⟩ := rfl

theorem sum_countP_textHunks {test : Change → Bool} (ofChanges : ∀ line, test (.keep line) = false) :
    ((textHunks old new).map fun hunk =>
      (changesOf (linesOf old) (linesOf new) hunk).countP test).sum =
      (textChanges old new).countP test :=
  sum_countP_hunksOf ofChanges contextLines _

theorem isEmpty_stats_iff : (stats old new).isEmpty = true ↔ old = new := by
  unfold Stats.isEmpty
  rw [stats_eq, Bool.and_eq_true, beq_iff_eq, beq_iff_eq]
  constructor
  · rintro ⟨noInsertion, noDeletion⟩
    obtain ⟨oldLines, newLines⟩ := sides_lineOps (linesOf old) (linesOf new)
    have sameSides := oldSide_eq_newSide noInsertion noDeletion
    exact linesOf_inj.mp (Array.toList_inj.mp (oldLines.symm.trans (sameSides.trans newLines)))
  · rintro rfl
    have noHunks := (textHunks_eq_nil_iff old old).mpr rfl
    rw [← sum_countP_textHunks old old fun _ => rfl, ← sum_countP_textHunks old old fun _ => rfl,
      noHunks]
    exact ⟨rfl, rfl⟩

/-- A text is a diff with these hunks: it is empty and there are none, or it names the two files and
goes on with the hunks. -/
def ShowsHunks (diff : String) (hunks : List HunkText) : Prop :=
  (diff = "" ∧ hunks = []) ∨
    ∃ body, diff = s!"--- {oldPath}\n+++ {newPath}\n" ++ body ∧ readHunks? body = some hunks

theorem showsHunks_unified :
    ShowsHunks oldPath newPath (unified oldPath old newPath new)
      ((textHunks old new).map (hunkText (linesOf old) (linesOf new))) := by
  by_cases same : old = new
  · left
    subst same
    rw [(textHunks_eq_nil_iff old old).mpr rfl]
    exact ⟨unified_self .., rfl⟩
  · right
    exact ⟨diffBody old new, unified_of_ne oldPath newPath same, readHunks?_diffBody old new⟩

/-- The summary of two texts counts the inserted lines, the deleted lines and the hunks that can be
read from their diff. Insertions and old lines are as many as deletions and new lines. The texts
are equal exactly if the diff is empty, if the summary says so, and if it counts no hunk. -/
theorem stats_describe_diff :
    (∃ hunks, ShowsHunks oldPath newPath (unified oldPath old newPath new) hunks ∧
      (stats old new).insertions =
        (hunks.map fun hunk => hunk.changes.countP Change.isInsertion).sum ∧
      (stats old new).deletions =
        (hunks.map fun hunk => hunk.changes.countP Change.isDeletion).sum ∧
      (stats old new).hunks = hunks.length) ∧
    (stats old new).insertions + (linesOf old).size =
      (stats old new).deletions + (linesOf new).size ∧
    (unified oldPath old newPath new = "" ↔ old = new) ∧
    ((stats old new).isEmpty = true ↔ old = new) ∧
    ((stats old new).hunks = 0 ↔ old = new) := by
  refine ⟨⟨_, showsHunks_unified oldPath old newPath new, ?_, ?_, ?_⟩, ?_, ?_, ?_, ?_⟩
  · rw [map_hunkText_changes]
    exact (sum_countP_textHunks old new fun _ => rfl).symm
  · rw [map_hunkText_changes]
    exact (sum_countP_textHunks old new fun _ => rfl).symm
  · rw [List.length_map]
    rfl
  · have oldLength := View.old.length_shown (textChanges old new)
    have newLength := View.new.length_shown (textChanges old new)
    obtain ⟨oldLines, newLines⟩ := sides_lineOps (linesOf old) (linesOf new)
    rw [← Array.length_toList, ← Array.length_toList, ← oldLines, ← newLines, stats_eq]
    exact oldLength.trans newLength.symm
  · exact unified_eq_empty_iff oldPath old newPath new
  · exact isEmpty_stats_iff old new
  · rw [stats_eq]
    exact List.length_eq_zero_iff.trans (textHunks_eq_nil_iff old new)

end

end Codemod.Diff
