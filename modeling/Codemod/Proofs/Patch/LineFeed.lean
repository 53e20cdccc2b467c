import Codemod.Proofs.Diff.Lossless
import Codemod.Proofs.Patch.Revision

/-!
Patches for readers to whom only a line feed ends a line.

A diff also takes a carriage return alone for the end of a line, and then writes the next line right
behind it. To such a reader these are one line. Hence it reads the lines that were written if and only
if no line of a hunk ends in a carriage return alone; a carriage return with a line feed behind it does
no harm, and neither does a missing end.
-/

set_option autoImplicit false

namespace Codemod

open Codemod.Files (Path)

namespace Diff

/-! ### Splitting at line feeds -/

/-- The lines of a text, if only line feeds end lines. -/
def feedLines : List Char → List (List Char)
  | [] => []
  | c :: rest =>
      if c = '\n' then [c] :: feedLines rest
      else
        match feedLines rest with
        | [] => [[c]]
        | line :: more => (c :: line) :: more

def EndsInFeed (text : List Char) : Prop := text = [] ∨ text.getLast? = some '\n'

instance (text : List Char) : Decidable (EndsInFeed text) :=
  inferInstanceAs (Decidable (_ ∨ _))

/-- A line with a line feed at its end and nowhere else. -/
def FeedLine (line : List Char) : Prop := ∃ body, line = body ++ ['\n'] ∧ '\n' ∉ body

theorem feedLines_append {body : List Char} (noFeed : '\n' ∉ body) (rest : List Char) :
    feedLines (body ++ '\n' :: rest) = (body ++ ['\n']) :: feedLines rest := by
  induction body with
  | nil => exact if_pos rfl
  | cons c body ih =>
      rw [List.mem_cons, not_or] at noFeed
      obtain ⟨differ, noFeedBehind⟩ := noFeed
      rw [List.cons_append, feedLines, if_neg (Ne.symm differ), ih noFeedBehind]
      rfl

theorem feedLines_flatten {lines : List (List Char)}
    (feed : ∀ line, line ∈ lines → FeedLine line) : feedLines lines.flatten = lines := by
  induction lines with
  | nil => rfl
  | cons line rest ih =>
      obtain ⟨body, rfl, noFeed⟩ := feed line List.mem_cons_self
      rw [List.flatten_cons, List.append_assoc, List.singleton_append, feedLines_append noFeed,
        ih fun next isIn => feed next (List.mem_cons_of_mem _ isIn)]

theorem endsInFeed_flatten {lines : List (List Char)}
    (feed : ∀ line, line ∈ lines → FeedLine line) : EndsInFeed lines.flatten := by
  induction lines with
  | nil => exact Or.inl rfl
  | cons line rest ih =>
      obtain ⟨body, rfl, _⟩ := feed line List.mem_cons_self
      right
      rw [List.flatten_cons, List.getLast?_append]
      rcases ih fun next isIn => feed next (List.mem_cons_of_mem _ isIn) with none | ends
      · rw [none, List.getLast?_concat]
        rfl
      · rw [ends]
        rfl

theorem feedLines_eq_nil {text : List Char} (none : feedLines text = []) : text = [] := by
  cases text with
  | nil => rfl
  | cons c rest =>
      rw [feedLines] at none
      split at none
      · exact nomatch none
      · split at none
        · exact nomatch none
        · exact nomatch none

theorem getLast?_of_mem_feedLines {text : List Char} (ends : EndsInFeed text) {line : List Char}
    (isIn : line ∈ feedLines text) : line.getLast? = some '\n' := by
  induction text generalizing line with
  | nil => exact absurd isIn List.not_mem_nil
  | cons c rest ih =>
      have last := ends.resolve_left (List.cons_ne_nil c rest)
      have endsBehind : EndsInFeed rest := by
        cases rest with
        | nil => exact Or.inl rfl
        | cons next rest => exact Or.inr (List.getLast?_cons_cons ▸ last)
      rw [feedLines] at isIn
      split at isIn
      · rename_i isFeed
        rcases List.mem_cons.mp isIn with rfl | isBehind
        · exact congrArg some isFeed
        · exact ih endsBehind isBehind
      · rename_i differ
        split at isIn
        · rename_i none
          rw [feedLines_eq_nil none] at last
          exact absurd (Option.some.inj last) differ
        · rename_i first more isSplit
          rw [isSplit] at ih
          rcases List.mem_cons.mp isIn with rfl | isBehind
          · have firstEnds := ih endsBehind List.mem_cons_self
            cases first with
            | nil => exact nomatch firstEnds
            | cons next first => rw [List.getLast?_cons_cons, firstEnds]
          · exact ih endsBehind (List.mem_cons_of_mem _ isBehind)

/-! ### Lines that a carriage return may end -/

theorem feedLine_of_endedLine {line : List Char} (ended : EndedLine line)
    (noReturn : line.getLast? ≠ some '\r') : FeedLine line := by
  obtain ⟨body, ending, rfl, unbroken, isEnd⟩ := ended
  have noFeed : '\n' ∉ body := fun isIn => (unbroken '\n' isIn).1 rfl
  simp only [lineEnds, List.mem_cons, List.not_mem_nil, or_false] at isEnd
  rcases isEnd with rfl | rfl | rfl
  · exact ⟨body, rfl, noFeed⟩
  · exact absurd List.getLast?_concat noReturn
  · refine ⟨body ++ ['\r'], by rw [List.append_assoc]; rfl, ?_⟩
    rw [List.mem_append]
    exact not_or.mpr ⟨noFeed, by decide⟩

/-- Lines are read as they were put together exactly if none ends in a carriage return alone. -/
theorem feedLines_flatten_iff {lines : List (List Char)}
    (ended : ∀ line, line ∈ lines → EndedLine line) :
    EndsInFeed lines.flatten ∧ feedLines lines.flatten = lines ↔
      ∀ line, line ∈ lines → line.getLast? ≠ some '\r' := by
  constructor
  · rintro ⟨ends, isSplit⟩ line isIn isReturn
    rw [← isSplit] at isIn
    rw [getLast?_of_mem_feedLines ends isIn] at isReturn
    exact absurd (Option.some.inj isReturn) (by decide)
  · intro noReturn
    have feed (line : List Char) (isIn : line ∈ lines) : FeedLine line :=
      feedLine_of_endedLine (ended line isIn) (noReturn line isIn)
    exact ⟨endsInFeed_flatten feed, feedLines_flatten feed⟩

/-- A line and the line behind its mark end in the same way. -/
theorem getLast?_written_iff (change : Change) :
    change.written.getLast? = some '\r' ↔ change.line.toList.getLast? = some '\r' := by
  rw [Change.written]
  cases change.line.toList with
  | nil =>
      cases change <;> simp [Change.mark]
  | cons first rest => rw [List.getLast?_cons_cons]

theorem withRemark_of_return {line : List Char} (isLast : line.getLast? = some '\r') :
    withRemark line = [line] := by
  rw [withRemark, isEnded, String.toList_ofList, isLast]
  rfl

theorem getLast?_of_mem_withRemark {line written : List Char} (noReturn : line.getLast? ≠ some '\r')
    (isIn : written ∈ withRemark line) : written.getLast? ≠ some '\r' := by
  rw [withRemark] at isIn
  split at isIn
  · rw [List.mem_singleton.mp isIn]
    exact noReturn
  · rcases List.mem_cons.mp isIn with rfl | isRemark
    · rw [List.getLast?_concat]
      decide
    · rw [List.mem_singleton.mp isRemark]
      decide

end Diff

namespace Revision

open Diff

/-- What becomes of the lines in the hunks of a revision. -/
def changes (revision : Revision) : List Change :=
  (textHunks revision.before revision.after).flatMap
    (changesOf (linesOf revision.before) (linesOf revision.after))

/-- The lines of the diff of a revision: the names of the file, the headers of the hunks, every line
of a hunk behind its mark, and a remark behind each that has no end. -/
def lines (revision : Revision) : List (List Char) :=
  if revision.before = revision.after then []
  else
    ("--- ".toList ++ revision.path.display.toList ++ ['\n']) ::
    ("+++ ".toList ++ revision.path.display.toList ++ ['\n']) ::
    ((textHunks revision.before revision.after).flatMap
      (writtenLines (linesOf revision.before) (linesOf revision.after))).flatMap withRemark

theorem toList_diff (revision : Revision) :
    revision.diff.text.toList = revision.lines.flatten := by
  unfold diff lines
  by_cases same : revision.before = revision.after
  · rw [if_pos same, same, unified_self]
    rfl
  · have body : (diffBody revision.before revision.after).toList =
        (((textHunks revision.before revision.after).flatMap
          (writtenLines (linesOf revision.before) (linesOf revision.after))).flatMap
            withRemark).flatten :=
      toList_join_renderHunk _ (hunksOf_nonempty (by decide) _ _)
    rw [if_neg same, unified_of_ne _ _ same, String.toList_append, body, List.flatten_cons,
      List.flatten_cons, ← List.append_assoc]
    simp [toString]

theorem endedLine_of_mem_lines {revision : Revision}
    (unbroken : Unbroken revision.path.display.toList) {line : List Char}
    (isIn : line ∈ revision.lines) : EndedLine line := by
  unfold lines at isIn
  split at isIn
  · exact absurd isIn List.not_mem_nil
  · rcases List.mem_cons.mp isIn with rfl | isIn
    · exact endedLine_newline (unbroken_append (by decide) unbroken)
    · rcases List.mem_cons.mp isIn with rfl | isIn
      · exact endedLine_newline (unbroken_append (by decide) unbroken)
      · obtain ⟨plain, plainIn, isWritten⟩ := List.mem_flatMap.mp isIn
        obtain ⟨hunk, hunkIn, plainIn⟩ := List.mem_flatMap.mp plainIn
        have isLine := (isLine_of_mem_writtenLines (ne_nil_of_mem_textHunks _ _ hunk hunkIn)
          (fun _ => isLine_of_mem_linesOf) (fun _ => isLine_of_mem_linesOf) plainIn).1
        exact endedLine_of_mem_withRemark isLine isWritten

/-- Of the lines of a diff only those of the hunks can end in a carriage return. -/
theorem lines_end_iff (revision : Revision) :
    (∀ line, line ∈ revision.lines → line.getLast? ≠ some '\r') ↔
      ∀ change, change ∈ revision.changes → change.line.toList.getLast? ≠ some '\r' := by
  constructor
  · intro noReturn change isIn isReturn
    obtain ⟨hunk, hunkIn, changeIn⟩ := List.mem_flatMap.mp isIn
    have differ : revision.before ≠ revision.after := by
      intro same
      rw [(textHunks_eq_nil_iff _ _).mpr same] at hunkIn
      exact absurd hunkIn List.not_mem_nil
    have isWritten := (getLast?_written_iff change).mpr isReturn
    refine noReturn change.written ?_ isWritten
    unfold lines
    rw [if_neg differ]
    refine List.mem_cons_of_mem _ (List.mem_cons_of_mem _ (List.mem_flatMap.mpr
      ⟨change.written, List.mem_flatMap.mpr ⟨hunk, hunkIn, ?_⟩, ?_⟩))
    · exact List.mem_cons_of_mem _ (List.mem_map_of_mem changeIn)
    · rw [withRemark_of_return isWritten]
      exact List.mem_singleton_self _
  · intro noReturn line isIn
    have feedEnd (text : List Char) : (text ++ ['\n']).getLast? ≠ some '\r' := by
      rw [List.getLast?_concat]
      decide
    unfold lines at isIn
    split at isIn
    · exact absurd isIn List.not_mem_nil
    · rcases List.mem_cons.mp isIn with rfl | isIn
      · exact feedEnd _
      · rcases List.mem_cons.mp isIn with rfl | isIn
        · exact feedEnd _
        · obtain ⟨plain, plainIn, isWritten⟩ := List.mem_flatMap.mp isIn
          obtain ⟨hunk, hunkIn, plainIn⟩ := List.mem_flatMap.mp plainIn
          refine getLast?_of_mem_withRemark ?_ isWritten
          rcases List.mem_cons.mp plainIn with rfl | ofChange
          · exact feedEnd _
          · obtain ⟨change, changeIn, rfl⟩ := List.mem_map.mp ofChange
            rw [Ne, getLast?_written_iff]
            exact noReturn change (List.mem_flatMap.mpr ⟨hunk, hunkIn, changeIn⟩)

end Revision

/-! ### Patches -/

section

variable (pipeline : Pipeline) (files : List (Path × String))

/-- The patch of files whose texts are given, without those that fail. -/
def patchOf : Patch :=
  ⟨files.filterMap fun file => (processSource file.1 file.2 pipeline).toOption⟩

def revisionsOf : List Revision :=
  files.filterMap fun file => (reviseSource file.1 file.2 pipeline).toOption

theorem diffs_patchOf :
    (patchOf pipeline files).diffs = (revisionsOf pipeline files).map Revision.diff := by
  simp only [patchOf, processSource_eq]
  exact (map_filterMap_toOption ..).symm

theorem toList_patchOf :
    (patchOf pipeline files).text.toList =
      ((revisionsOf pipeline files).flatMap Revision.lines).flatten := by
  rw [Patch.text, diffs_patchOf, String.toList_join]
  induction revisionsOf pipeline files with
  | nil => rfl
  | cons revision rest ih =>
      rw [List.map_cons, List.map_cons, List.flatMap_cons, ih, revision.toList_diff,
        List.flatMap_cons, List.flatten_append]

variable {pipeline files}

theorem path_of_mem_revisionsOf {revision : Revision} (isIn : revision ∈ revisionsOf pipeline files) :
    ∃ file, file ∈ files ∧ revision.path = file.1 := by
  obtain ⟨file, fileIn, revised⟩ := (mem_filterMap_toOption ..).mp isIn
  exact ⟨file, fileIn, (reviseSource_eq_ok_iff.mp revised).1⟩

variable (pipeline files)

open Diff

/-- The patch of files whose names have no end of a line in them is empty or ends in a line feed, and
split at line feeds it is the names of the files that differ, the headers of their hunks, and every
line of a hunk behind its mark, if and only if no line of a hunk ends in a carriage return alone. -/
theorem patch_read_by_feeds_iff
    (unbroken : ∀ file, file ∈ files → Unbroken file.1.display.toList) :
    (patchOf pipeline files).diffs = (revisionsOf pipeline files).map Revision.diff ∧
      (EndsInFeed (patchOf pipeline files).text.toList ∧
          feedLines (patchOf pipeline files).text.toList =
            (revisionsOf pipeline files).flatMap Revision.lines ↔
        ∀ revision, revision ∈ revisionsOf pipeline files →
          ∀ change, change ∈ revision.changes → change.line.toList.getLast? ≠ some '\r') := by
  refine ⟨diffs_patchOf pipeline files, ?_⟩
  have ended (line : List Char)
      (isIn : line ∈ (revisionsOf pipeline files).flatMap Revision.lines) : EndedLine line := by
    obtain ⟨revision, revisionIn, lineIn⟩ := List.mem_flatMap.mp isIn
    obtain ⟨file, fileIn, isPath⟩ := path_of_mem_revisionsOf revisionIn
    exact Revision.endedLine_of_mem_lines (isPath ▸ unbroken file fileIn) lineIn
  rw [toList_patchOf, feedLines_flatten_iff ended]
  simp only [List.mem_flatMap]
  constructor
  · intro noReturn revision revisionIn
    exact revision.lines_end_iff.mp fun line lineIn => noReturn line ⟨revision, revisionIn, lineIn⟩
  · rintro noReturn line ⟨revision, revisionIn, lineIn⟩
    exact revision.lines_end_iff.mpr (noReturn revision revisionIn) line lineIn

end

open Diff

/-- A carriage return in front of a line feed, a line without an end, and a file that fails. -/
theorem patch_read_by_feeds_iff_mixed :
    let files := [(Path.ofText "a.rs", "mod f;\r\nmod g;"), (Path.ofText "b.rs", "mod f")]
    let pipeline : Pipeline := [.rename ⟨"f to h", "f", "h", .everywhere⟩]
    (∀ file, file ∈ files → Unbroken file.1.display.toList) ∧
      EndsInFeed (patchOf pipeline files).text.toList ∧
      feedLines (patchOf pipeline files).text.toList =
        ["--- a.rs\n", "+++ a.rs\n", "@@ -1,2 +1,2 @@\n", "-mod f;\r\n", "+mod h;\r\n", " mod g;\n",
          "\\ No newline at end of file\n"].map String.toList := by
  intro files pipeline
  have unbroken : ∀ file, file ∈ files → Unbroken file.1.display.toList := by decide +kernel
  obtain ⟨ends, isSplit⟩ :=
    (patch_read_by_feeds_iff pipeline files unbroken).2.mpr (by decide +kernel)
  exact ⟨unbroken, ends, isSplit.trans (by decide +kernel)⟩

/-- Of two files that end in a carriage return, the patch ends in one too, the names of the second file
do not start at a line of their own, and what is deleted and what is inserted is one line. -/
theorem lone_returns_join_lines :
    let files := [(Path.ofText "a.rs", "mod f;\r"), (Path.ofText "b.rs", "mod f;\r")]
    let pipeline : Pipeline := [.rename ⟨"f to h", "f", "h", .everywhere⟩]
    (∀ file, file ∈ files → Unbroken file.1.display.toList) ∧
      (revisionsOf pipeline files).map Revision.changes =
        [[.delete "mod f;\r", .insert "mod h;\r"], [.delete "mod f;\r", .insert "mod h;\r"]] ∧
      feedLines (patchOf pipeline files).text.toList =
        ["--- a.rs\n", "+++ a.rs\n", "@@ -1 +1 @@\n", "-mod f;\r+mod h;\r--- b.rs\n", "+++ b.rs\n",
          "@@ -1 +1 @@\n", "-mod f;\r+mod h;\r"].map String.toList ∧
      ¬ EndsInFeed (patchOf pipeline files).text.toList := by
  decide +kernel

end Codemod
