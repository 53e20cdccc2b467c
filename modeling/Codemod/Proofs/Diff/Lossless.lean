import Codemod.Proofs.Diff.Layout
import Codemod.Proofs.Diff.Reading

/-!
A diff loses no line and makes none up.

Main statement: the diff of two texts is empty exactly if they are equal. Otherwise the hunks that
are read from it, with the gaps between them, are all the lines of both texts.
-/

set_option autoImplicit false

namespace Codemod.Diff

section

variable (oldPath old newPath new : String)

/-- The hunks of two texts. -/
def textHunks : List Hunk := hunksOf contextLines (lineOps (linesOf old) (linesOf new))

/-- The part of a diff behind the names of the files. -/
def diffBody : String :=
  String.join ((textHunks old new).map (renderHunk (linesOf old) (linesOf new)))

theorem textHunks_eq_nil_iff : textHunks old new = [] ↔ old = new :=
  (hunksOf_lineOps_eq_nil_iff (by decide) _ _).trans linesOf_inj

theorem unified_self : unified oldPath old newPath old = "" := by
  have none : hunksOf contextLines (lineOps (linesOf old) (linesOf old)) = [] :=
    (textHunks_eq_nil_iff old old).mpr rfl
  unfold unified
  simp only [none]

variable {old new}

theorem unified_of_ne (differ : old ≠ new) :
    unified oldPath old newPath new =
      s!"--- {oldPath}\n+++ {newPath}\n" ++ diffBody old new := by
  have some : hunksOf contextLines (lineOps (linesOf old) (linesOf new)) ≠ [] :=
    mt (textHunks_eq_nil_iff old new).mp differ
  unfold unified diffBody textHunks
  simp only

variable (old new)

theorem unified_eq_empty_iff : unified oldPath old newPath new = "" ↔ old = new := by
  constructor
  · intro isEmpty
    apply Classical.byContradiction
    intro differ
    rw [unified_of_ne oldPath newPath differ] at isEmpty
    have noChars := congrArg String.toList isEmpty
    simp only [String.toList_append, toString, String.toList_empty, List.append_eq_nil_iff,
      String.toList_eq_nil_iff] at noChars
    exact absurd noChars.1.1.1.1.1 (by decide)
  · rintro rfl
    exact unified_self oldPath old newPath

theorem laid_textHunks :
    ∃ gaps stop, stop.oldPlace = (linesOf old).size ∧ stop.newPlace = (linesOf new).size ∧
      Laid (linesOf old) (linesOf new) (anchorsOf (script (linesOf old) (linesOf new))) Tally.zero
        gaps (textHunks old new) stop :=
  laid_hunksOf (by decide) _ _

theorem ne_nil_of_mem_textHunks (hunk : Hunk) (isIn : hunk ∈ textHunks old new) : hunk ≠ [] :=
  (hunksOf_nonempty (by decide) _ _ hunk isIn).1

theorem undoRemarks_diffBody :
    undoRemarks (splitLines (diffBody old new).toList) =
      (textHunks old new).flatMap (writtenLines (linesOf old) (linesOf new)) :=
  undoRemarks_renderHunk _ (fun _ => isLine_of_mem_linesOf) (fun _ => isLine_of_mem_linesOf)
    (hunksOf_nonempty (by decide) _ _)

theorem readHunks?_diffBody :
    readHunks? (diffBody old new) =
      some ((textHunks old new).map (hunkText (linesOf old) (linesOf new))) := by
  unfold readHunks?
  rw [undoRemarks_diffBody, readLines?_writtenLines _ (ne_nil_of_mem_textHunks old new)]

theorem map_hunkText_changes {β : Type} (side : List Change → β) :
    ((textHunks old new).map (hunkText (linesOf old) (linesOf new))).map
        (fun hunk => side hunk.changes) =
      (textHunks old new).map fun hunk => side (changesOf (linesOf old) (linesOf new) hunk) := by
  rw [List.map_map]
  refine List.map_congr_left fun hunk _ => ?_
  exact congrArg side (hunkText_changes ..)

/-- The diff of two texts is empty exactly if they are equal; otherwise it names the two files and
goes on with hunks. The lines of the old text are gaps with the old sides of the hunks between
them, and with the new sides in their place they are the lines of the new text. -/
theorem unified_lossless :
    (unified oldPath old newPath new = "" ↔ old = new) ∧
      (old = new ∨ ∃ body hunks gaps,
        unified oldPath old newPath new = s!"--- {oldPath}\n+++ {newPath}\n" ++ body ∧
        readHunks? body = some hunks ∧ hunks ≠ [] ∧ gaps.length = hunks.length + 1 ∧
        (linesOf old).toList = weave gaps (hunks.map fun hunk => oldSide hunk.changes) ∧
        (linesOf new).toList = weave gaps (hunks.map fun hunk => newSide hunk.changes)) := by
  by_cases same : old = new
  · subst same
    exact ⟨iff_of_true (unified_self ..) rfl, Or.inl rfl⟩
  · have diffEq := unified_of_ne oldPath newPath same
    constructor
    · refine iff_of_false ?_ same
      rw [diffEq]
      intro empty
      have noChars := congrArg String.toList empty
      simp only [String.toList_append, toString, String.toList_empty, List.append_eq_nil_iff,
        String.toList_eq_nil_iff] at noChars
      exact absurd noChars.1.1.1.1.1 (by decide)
    · right
      obtain ⟨gaps, stop, oldAll, newAll, laid⟩ := laid_textHunks old new
      obtain ⟨oldLines, newLines⟩ := toList_eq_weave oldAll newAll laid
      refine ⟨diffBody old new, _, gaps, diffEq, readHunks?_diffBody old new, ?_, ?_, ?_, ?_⟩
      · exact mt List.map_eq_nil_iff.mp (mt (textHunks_eq_nil_iff old new).mp same)
      · rw [List.length_map]
        exact length_of_laid laid
      · rw [map_hunkText_changes]
        exact oldLines
      · rw [map_hunkText_changes]
        exact newLines

end

end Codemod.Diff
