import Codemod.Proofs.Diff.Header

/-!
Applying a diff by the numbers in its headers.

A reader that goes by the numbers takes from a header how many old lines stand in front of the hunk
and how many lines the hunk has on either side, and looks for the next header behind that many.
Main statement: the headers are exact if and only if the edges of all hunks are in place, and such a
reader then makes the new text of the old one. Not every diff is like that.
-/

set_option autoImplicit false

namespace Codemod.Diff

/-- How many lines stand in front of a range. -/
def LineRange.before (range : LineRange) : Nat :=
  if range.count = 0 then range.first else range.first - 1

/-- Change old lines as the lines of a diff say. Of the current hunk, `oldLeft` lines of the old and
`newLeft` of the new side are still to come; `oldDone` old lines have been passed and `newDone` new
ones written. -/
def applyLines? : (lines : List (List Char)) → (oldLeft newLeft oldDone newDone : Nat) →
    (old : List String) → Option (List String)
  | [], 0, 0, _, _, old => some old
  | [], _, _, _, _, _ => none
  | line :: lines, 0, 0, oldDone, newDone, old => do
      let (oldRange, newRange) ← readHeader? line
      let skipped := oldRange.before - oldDone
      if oldDone ≤ oldRange.before ∧ skipped ≤ old.length ∧ newRange.before = newDone + skipped then
        let rest ← applyLines? lines oldRange.count newRange.count oldRange.before newRange.before
          (old.drop skipped)
        return old.take skipped ++ rest
      else none
  | line :: lines, oldLeft, newLeft, oldDone, newDone, old =>
      match readChange? line, oldLeft, newLeft, old with
      | some (.keep text), oldLeft + 1, newLeft + 1, next :: old =>
          if next = text then
            (applyLines? lines oldLeft newLeft (oldDone + 1) (newDone + 1) old).map (text :: ·)
          else none
      | some (.delete text), oldLeft + 1, newLeft, next :: old =>
          if next = text then applyLines? lines oldLeft newLeft (oldDone + 1) newDone old
          else none
      | some (.insert text), oldLeft, newLeft + 1, old =>
          (applyLines? lines oldLeft newLeft oldDone (newDone + 1) old).map (text :: ·)
      | _, _, _, _ => none

/-- The text that the body of a diff makes of a text. -/
def patch? (old body : String) : Option String :=
  (applyLines? (undoRemarks (splitLines body.toList)) 0 0 0 0 (linesOf old).toList).map String.join

section

variable {line : List Char} {lines : List (List Char)} {text : String}
  {oldLeft newLeft oldDone newDone : Nat} {old : List String}

theorem applyLines?_keep (read : readChange? line = some (.keep text)) :
    applyLines? (line :: lines) (oldLeft + 1) (newLeft + 1) oldDone newDone (text :: old) =
      (applyLines? lines oldLeft newLeft (oldDone + 1) (newDone + 1) old).map (text :: ·) := by
  simp [applyLines?, read]

theorem applyLines?_delete (read : readChange? line = some (.delete text)) :
    applyLines? (line :: lines) (oldLeft + 1) newLeft oldDone newDone (text :: old) =
      applyLines? lines oldLeft newLeft (oldDone + 1) newDone old := by
  simp [applyLines?, read]

theorem applyLines?_insert (read : readChange? line = some (.insert text)) :
    applyLines? (line :: lines) oldLeft (newLeft + 1) oldDone newDone old =
      (applyLines? lines oldLeft newLeft oldDone (newDone + 1) old).map (text :: ·) := by
  simp [applyLines?, read]

end

theorem applyLines?_written (changes : List Change) (lines : List (List Char))
    (oldDone newDone : Nat) (rest : List String) :
    applyLines? (changes.map Change.written ++ lines) (oldSide changes).length
        (newSide changes).length oldDone newDone (oldSide changes ++ rest) =
      (applyLines? lines 0 0 (oldDone + (oldSide changes).length)
        (newDone + (newSide changes).length) rest).map (newSide changes ++ ·) := by
  induction changes generalizing oldDone newDone with
  | nil => exact Option.map_id'.symm
  | cons change changes ih =>
      have read := readChange?_written change
      rw [List.map_cons, List.cons_append]
      cases change with
      | keep text =>
          have oldCons : oldSide (.keep text :: changes) = text :: oldSide changes := rfl
          have newCons : newSide (.keep text :: changes) = text :: newSide changes := rfl
          rw [oldCons, newCons, List.cons_append, List.length_cons, List.length_cons,
            applyLines?_keep read, ih, Option.map_map, Nat.add_right_comm, Nat.add_right_comm newDone]
          rfl
      | delete text =>
          have oldCons : oldSide (.delete text :: changes) = text :: oldSide changes := rfl
          have newSame : newSide (.delete text :: changes) = newSide changes := rfl
          rw [oldCons, newSame, List.cons_append, List.length_cons, applyLines?_delete read, ih,
            Nat.add_right_comm]
          rfl
      | insert text =>
          have oldSame : oldSide (.insert text :: changes) = oldSide changes := rfl
          have newCons : newSide (.insert text :: changes) = text :: newSide changes := rfl
          rw [oldSame, newCons, List.length_cons, applyLines?_insert read, ih, Option.map_map,
            Nat.add_right_comm]
          rfl

theorem before_of_names {range : LineRange} {before count : Nat} (names : range.Names before count) :
    range.before = before := by
  obtain ⟨rfl, first⟩ := names
  unfold LineRange.before
  rw [first]
  split
  · rfl
  · rfl

theorem applyLines?_header {line : List Char} {lines : List (List Char)}
    {oldRange newRange : LineRange} {oldDone newDone oldCount newCount : Nat} {gap old : List String}
    (read : readHeader? line = some (oldRange, newRange))
    (oldNames : oldRange.Names (oldDone + gap.length) oldCount)
    (newNames : newRange.Names (newDone + gap.length) newCount) :
    applyLines? (line :: lines) 0 0 oldDone newDone (gap ++ old) =
      (applyLines? lines oldCount newCount (oldDone + gap.length) (newDone + gap.length) old).map
        (gap ++ ·) := by
  have skipped : oldDone + gap.length - oldDone = gap.length := Nat.add_sub_cancel_left ..
  have fits : oldDone ≤ oldDone + gap.length ∧ gap.length ≤ (gap ++ old).length ∧ True :=
    ⟨Nat.le_add_right .., List.length_append ▸ Nat.le_add_right .., trivial⟩
  rw [applyLines?, read]
  simp only [Option.bind_eq_bind, Option.bind_some, before_of_names oldNames, before_of_names newNames,
    oldNames.1, newNames.1, skipped]
  rw [if_pos fits, List.drop_left, List.take_left]
  cases applyLines? lines oldCount newCount (oldDone + gap.length) (newDone + gap.length) old with
  | none => rfl
  | some rest => rfl

theorem applyLines?_writtenLines {old new : Array String} (hunks : List Hunk)
    (nonempty : ∀ hunk, hunk ∈ hunks → hunk ≠ []) (gaps : List (List String))
    (oneMore : gaps.length = hunks.length + 1) (oldDone newDone : Nat)
    (headers : HeadersExact oldDone newDone gaps (hunks.map (hunkText old new))) :
    applyLines? (hunks.flatMap (writtenLines old new)) 0 0 oldDone newDone
        (weave gaps (hunks.map fun hunk => oldSide (changesOf old new hunk))) =
      some (weave gaps (hunks.map fun hunk => newSide (changesOf old new hunk))) := by
  induction hunks generalizing gaps oldDone newDone with
  | nil => rfl
  | cons hunk hunks ih =>
      cases gaps with
      | nil => exact absurd oneMore.symm (Nat.succ_ne_zero _)
      | cons gap gaps =>
          obtain ⟨⟨oldNames, newNames⟩, restHeaders⟩ := headers
          rw [hunkText_changes] at oldNames newNames restHeaders
          have rest := ih (fun next isIn => nonempty next (List.mem_cons_of_mem _ isIn)) gaps
            (Nat.succ.inj oneMore) _ _ restHeaders
          rw [List.flatMap_cons, writtenLines, List.cons_append, List.map_cons, List.map_cons, weave,
            weave, List.append_assoc, applyLines?_header
              (readHeader?_hunkHeader old new (nonempty hunk List.mem_cons_self)) oldNames newNames,
            applyLines?_written, rest, Option.map_some, Option.map_some, List.append_assoc]

/-- The diff of two different texts has exact headers if and only if the edges of all its hunks are
in place, and then a reader that goes by the numbers makes the new text of the old one. -/
theorem headers_exact_iff_hunks_in_place (oldPath old newPath new : String) :
    old = new ∨ ∃ body hunks gaps,
      unified oldPath old newPath new = s!"--- {oldPath}\n+++ {newPath}\n" ++ body ∧
      readHunks? body = some hunks ∧ gaps.length = hunks.length + 1 ∧
      (linesOf old).toList = weave gaps (hunks.map fun hunk => oldSide hunk.changes) ∧
      (linesOf new).toList = weave gaps (hunks.map fun hunk => newSide hunk.changes) ∧
      (HeadersExact 0 0 gaps hunks ↔
        HunksInPlace (script (linesOf old) (linesOf new)) 0 0 (textHunks old new)) ∧
      (HeadersExact 0 0 gaps hunks → patch? old body = some new) := by
  by_cases same : old = new
  · exact Or.inl same
  · right
    obtain ⟨gaps, stop, oldAll, newAll, laid⟩ := laid_textHunks old new
    obtain ⟨oldLines, newLines⟩ := toList_eq_weave oldAll newAll laid
    have oneMore := length_of_laid laid
    have nonempty := ne_nil_of_mem_textHunks old new
    refine ⟨diffBody old new, _, gaps, unified_of_ne oldPath newPath same,
      readHunks?_diffBody old new, ?_, ?_, ?_, ?_, ?_⟩
    · rw [List.length_map]
      exact oneMore
    · rw [map_hunkText_changes]
      exact oldLines
    · rw [map_hunkText_changes]
      exact newLines
    · exact headersExact_iff nonempty laid (Nat.le_of_eq oldAll) (Nat.le_of_eq newAll)
    · intro headers
      have applied := applyLines?_writtenLines (textHunks old new) nonempty gaps oneMore 0 0 headers
      unfold patch?
      rw [undoRemarks_diffBody, oldLines, applied, ← newLines, Option.map_some, join_linesOf]

/-- A diff with a wrong header: its hunk has two lines on either side and starts with the first line
of both texts. The insertion stood in front of the deletion, changed places with it, and slid down
past the kept line. -/
theorem header_of_moved_insertion_wrong :
    unified "a.rs" "x\na\n" "b.rs" "a\na\n" =
        "--- a.rs\n+++ b.rs\n" ++ "@@ -1 +2 @@\n-x\n a\n+a\n" ∧
      readHunks? "@@ -1 +2 @@\n-x\n a\n+a\n" =
        some [⟨⟨1, 1⟩, ⟨2, 1⟩, [.delete "x\n", .keep "a\n", .insert "a\n"]⟩] ∧
      patch? "x\na\n" "@@ -1 +2 @@\n-x\n a\n+a\n" = none := by
  decide +kernel

end Codemod.Diff
