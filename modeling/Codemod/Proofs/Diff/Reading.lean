import Codemod.Proofs.Diff.Hunk
import Codemod.Proofs.Diff.Lines

/-!
Reading a diff back from its text.

The text is split into lines. A remark about a line without an end takes the end from the line in
front of it; what is left are the headers of hunks and their lines, each with a mark in front. The
hunks that are read are the hunks that were written.
-/

set_option autoImplicit false

namespace Codemod.Diff

/-- A range as a header names it: a number of a line, and how many lines there are. -/
structure LineRange where
  first : Nat
  count : Nat
deriving DecidableEq, Repr

/-- A hunk as it is read: the ranges of its header, and its lines. -/
structure HunkText where
  old : LineRange
  new : LineRange
  changes : List Change
deriving DecidableEq, Repr

/-- The line that says that the line before it has no end. -/
def remarkLine : List Char := "\\ No newline at end of file\n".toList

/-- Take the end from lines that a remark follows, and drop the remarks. -/
def undoRemarks : List (List Char) → List (List Char)
  | [] => []
  | [line] => [line]
  | line :: next :: rest =>
      if next = remarkLine then line.dropLast :: undoRemarks rest
      else line :: undoRemarks (next :: rest)

def readNumber? (digits : List Char) : Option Nat :=
  if digits ≠ [] ∧ digits.all Char.isDigit then some (Nat.ofDigitChars 10 digits 0) else none

/-- A range: a number and, behind a comma, a length, which is one if it is left out. -/
def readRange? (text : List Char) : Option LineRange :=
  match text.dropWhile (· ≠ ',') with
  | [] => do return ⟨← readNumber? text, 1⟩
  | _ :: count => do return ⟨← readNumber? (text.takeWhile (· ≠ ',')), ← readNumber? count⟩

def readHeader? : List Char → Option (LineRange × LineRange)
  | '@' :: '@' :: ' ' :: '-' :: text =>
      match text.dropWhile (· ≠ ' ') with
      | ' ' :: '+' :: more =>
          if more.dropWhile (· ≠ ' ') = " @@\n".toList then do
            return (← readRange? (text.takeWhile (· ≠ ' ')), ← readRange? (more.takeWhile (· ≠ ' ')))
          else none
      | _ => none
  | _ => none

def readChange? : List Char → Option Change
  | ' ' :: line => some (.keep (String.ofList line))
  | '-' :: line => some (.delete (String.ofList line))
  | '+' :: line => some (.insert (String.ofList line))
  | _ => none

/-- The changes up to the first header, and the hunks from there on. -/
def readLines? : List (List Char) → Option (List Change × List HunkText)
  | [] => some ([], [])
  | line :: rest => do
      let (changes, hunks) ← readLines? rest
      match readChange? line with
      | some change => return (change :: changes, hunks)
      | none =>
          let (old, new) ← readHeader? line
          return ([], ⟨old, new, changes⟩ :: hunks)

def readHunks? (text : String) : Option (List HunkText) :=
  match readLines? (undoRemarks (splitLines text.toList)) with
  | some ([], hunks) => some hunks
  | _ => none

/-! ### Headers -/

section

variable {c : Char} {left right : List Char}

theorem takeWhile_before (absent : c ∉ left) : (left ++ c :: right).takeWhile (· ≠ c) = left := by
  have passes (other : Char) (isIn : other ∈ left) : decide (other ≠ c) = true :=
    decide_eq_true fun same => absent (same ▸ isIn)
  rw [List.takeWhile_append_of_pos passes, List.takeWhile_cons_of_neg (by simp), List.append_nil]

theorem dropWhile_before (absent : c ∉ left) :
    (left ++ c :: right).dropWhile (· ≠ c) = c :: right := by
  have passes (other : Char) (isIn : other ∈ left) : decide (other ≠ c) = true :=
    decide_eq_true fun same => absent (same ▸ isIn)
  rw [List.dropWhile_append_of_pos passes, List.dropWhile_cons_of_neg (by simp)]

end

theorem not_mem_toDigits {c : Char} (notDigit : c.isDigit = false) (number : Nat) :
    c ∉ Nat.toDigits 10 number := by
  intro isIn
  have isDigit := Nat.isDigit_of_mem_toDigits (by decide) (by decide) isIn
  rw [notDigit] at isDigit
  exact Bool.false_ne_true isDigit

theorem readNumber?_toDigits (number : Nat) :
    readNumber? (Nat.toDigits 10 number) = some number := by
  have digits : (Nat.toDigits 10 number).all Char.isDigit = true :=
    List.all_eq_true.mpr fun c isIn => Nat.isDigit_of_mem_toDigits (by decide) (by decide) isIn
  unfold readNumber?
  rw [if_pos ⟨Nat.toDigits_ne_nil, digits⟩, Nat.ofDigitChars_ten_toDigits]

/-- The range of a header from its start to its end. -/
def rangeOf (start stop : Nat) : LineRange :=
  if stop - start = 0 then ⟨start, 0⟩ else ⟨start + 1, stop - start⟩

theorem readRange?_single (first : Nat) :
    readRange? (Nat.toDigits 10 first) = some ⟨first, 1⟩ := by
  have noComma : (Nat.toDigits 10 first).dropWhile (· ≠ ',') = [] := by
    have passes (c : Char) (isIn : c ∈ Nat.toDigits 10 first) : decide (c ≠ ',') = true :=
      decide_eq_true fun same => not_mem_toDigits (by decide) first (same ▸ isIn)
    rw [← List.append_nil (Nat.toDigits 10 first), List.dropWhile_append_of_pos passes]
    rfl
  rw [readRange?, noComma]
  simp only [readNumber?_toDigits]
  rfl

theorem readRange?_pair (first count : Nat) :
    readRange? (Nat.toDigits 10 first ++ ',' :: Nat.toDigits 10 count) = some ⟨first, count⟩ := by
  have noComma := not_mem_toDigits (c := ',') (by decide) first
  rw [readRange?, dropWhile_before noComma]
  simp only [takeWhile_before noComma, readNumber?_toDigits]
  rfl

theorem toList_renderRange (start stop : Nat) :
    (renderRange start stop).toList =
      if stop - start = 1 then Nat.toDigits 10 (start + 1)
      else Nat.toDigits 10 (rangeOf start stop).first ++
        ',' :: Nat.toDigits 10 (rangeOf start stop).count := by
  unfold renderRange rangeOf
  split
  · rename_i none
    rw [none, if_neg Nat.zero_ne_one, if_pos rfl, String.toList_append]
    simp only [Nat.toString_eq_repr, Nat.toList_repr]
    rfl
  · rename_i single
    rw [if_pos single]
    simp only [Nat.toString_eq_repr, Nat.toList_repr]
  · rename_i several notSingle
    rw [if_neg notSingle, if_neg several, String.toList_append, String.toList_append,
      List.append_assoc]
    simp only [Nat.toString_eq_repr, Nat.toList_repr]
    rfl

theorem readRange?_renderRange (start stop : Nat) :
    readRange? (renderRange start stop).toList = some (rangeOf start stop) := by
  rw [toList_renderRange]
  split
  · rename_i single
    rw [readRange?_single, rangeOf, single, if_neg Nat.one_ne_zero]
  · exact readRange?_pair _ _

theorem not_mem_renderRange {c : Char} (notDigit : c.isDigit = false) (notComma : c ≠ ',')
    (start stop : Nat) : c ∉ (renderRange start stop).toList := by
  have absent := not_mem_toDigits notDigit
  rw [toList_renderRange]
  split
  · exact absent _
  · rw [List.mem_append, List.mem_cons]
    exact not_or.mpr ⟨absent _, not_or.mpr ⟨notComma, absent _⟩⟩

theorem unbroken_renderRange (start stop : Nat) : Unbroken (renderRange start stop).toList := by
  intro c isIn
  constructor
  · rintro rfl
    exact not_mem_renderRange (by decide) (by decide) start stop isIn
  · rintro rfl
    exact not_mem_renderRange (by decide) (by decide) start stop isIn

theorem readHeader?_ranges (old new : List Char) (oldRange newRange : LineRange)
    (oldRead : readRange? old = some oldRange) (newRead : readRange? new = some newRange)
    (oldWhole : ' ' ∉ old) (newWhole : ' ' ∉ new) :
    readHeader? ("@@ -".toList ++ old ++ " +".toList ++ new ++ " @@".toList ++ ['\n']) =
      some (oldRange, newRange) := by
  have shape : "@@ -".toList ++ old ++ " +".toList ++ new ++ " @@".toList ++ ['\n'] =
      '@' :: '@' :: ' ' :: '-' :: (old ++ ' ' :: ('+' :: (new ++ ' ' :: ['@', '@', '\n']))) := by
    simp
  rw [shape, readHeader?, dropWhile_before oldWhole]
  simp only [dropWhile_before newWhole, takeWhile_before oldWhole, takeWhile_before newWhole,
    oldRead, newRead]
  rfl

/-! ### Lines and remarks -/

/-- A line as it is written: with an end and a remark if it has no end of its own. -/
def withRemark (line : List Char) : List (List Char) :=
  if isEnded (String.ofList line) then [line] else [line ++ ['\n'], remarkLine]

/-- A line that starts with a mark of a hunk. -/
def Marked (line : List Char) : Prop :=
  ∃ mark text, line = mark :: text ∧ mark ∈ ['@', ' ', '-', '+']

theorem marked_append {line : List Char} (marked : Marked line) (more : List Char) :
    Marked (line ++ more) := by
  obtain ⟨mark, text, rfl, isMark⟩ := marked
  exact ⟨mark, text ++ more, rfl, isMark⟩

theorem head?_ne_of_marked {line : List Char} (marked : Marked line) {c : Char}
    (other : c ∉ ['@', ' ', '-', '+']) : line.head? ≠ some c := by
  obtain ⟨mark, text, rfl, isMark⟩ := marked
  intro same
  exact other (Option.some.inj same ▸ isMark)

theorem ne_remarkLine_of_marked {line : List Char} (marked : Marked line) : line ≠ remarkLine := by
  rintro rfl
  exact head?_ne_of_marked marked (c := '\\') (by decide) rfl

theorem head?_withRemark_ne {lines : List (List Char)}
    (marked : ∀ line, line ∈ lines → Marked line) :
    (lines.flatMap withRemark).head? ≠ some remarkLine := by
  cases lines with
  | nil => exact nofun
  | cons line rest =>
      have lineMarked := marked line List.mem_cons_self
      rw [List.flatMap_cons, withRemark]
      split
      · exact fun same => ne_remarkLine_of_marked lineMarked (Option.some.inj same)
      · exact fun same =>
          ne_remarkLine_of_marked (marked_append lineMarked _) (Option.some.inj same)

theorem undoRemarks_cons {line : List Char} {lines : List (List Char)}
    (apart : lines.head? ≠ some remarkLine) :
    undoRemarks (line :: lines) = line :: undoRemarks lines := by
  cases lines with
  | nil => rfl
  | cons next rest => rw [undoRemarks, if_neg fun same => apart (congrArg some same)]

theorem undoRemarks_withRemark (lines : List (List Char))
    (marked : ∀ line, line ∈ lines → Marked line) :
    undoRemarks (lines.flatMap withRemark) = lines := by
  induction lines with
  | nil => rfl
  | cons line rest ih =>
      have restMarked (next : List Char) (isIn : next ∈ rest) :=
        marked next (List.mem_cons_of_mem _ isIn)
      rw [List.flatMap_cons, withRemark]
      split
      · change undoRemarks (line :: rest.flatMap withRemark) = _
        rw [undoRemarks_cons (head?_withRemark_ne restMarked), ih restMarked]
      · change undoRemarks ((line ++ ['\n']) :: remarkLine :: rest.flatMap withRemark) = _
        rw [undoRemarks, if_pos rfl, ih restMarked, List.dropLast_concat]

theorem endedLine_remarkLine : EndedLine remarkLine :=
  ⟨"\\ No newline at end of file".toList, ['\n'], by decide, by decide, by decide⟩

theorem endedLine_of_mem_withRemark {line written : List Char} (isLine : IsLine line)
    (isIn : written ∈ withRemark line) : EndedLine written := by
  rw [withRemark] at isIn
  split at isIn
  · rename_i ended
    rw [List.mem_singleton.mp isIn]
    exact (isEnded_ofList_iff isLine).mp ended
  · rename_i open'
    have unbroken : Unbroken line :=
      isLine.resolve_left fun ended => open' ((isEnded_ofList_iff isLine).mpr ended)
    rcases List.mem_cons.mp isIn with rfl | isRemark
    · exact endedLine_newline unbroken
    · rw [List.mem_singleton.mp isRemark]
      exact endedLine_remarkLine

theorem head?_of_mem_withRemark {line written : List Char} (marked : Marked line)
    (isIn : written ∈ withRemark line) : written.head? ≠ some '\n' := by
  rw [withRemark] at isIn
  split at isIn
  · rw [List.mem_singleton.mp isIn]
    exact head?_ne_of_marked marked (by decide)
  · rcases List.mem_cons.mp isIn with rfl | isRemark
    · exact head?_ne_of_marked (marked_append marked _) (by decide)
    · rw [List.mem_singleton.mp isRemark]
      decide

theorem splitLines_withRemark (lines : List (List Char))
    (isLine : ∀ line, line ∈ lines → IsLine line ∧ Marked line) :
    splitLines (lines.flatMap withRemark).flatten = lines.flatMap withRemark := by
  refine splitLines_flatten _ ?_
  intro written isIn
  obtain ⟨line, lineIn, writtenIn⟩ := List.mem_flatMap.mp isIn
  obtain ⟨lineShape, marked⟩ := isLine line lineIn
  exact ⟨endedLine_of_mem_withRemark lineShape writtenIn, head?_of_mem_withRemark marked writtenIn⟩

/-! ### Hunks -/

def Change.mark : Change → Char
  | keep _ => ' '
  | delete _ => '-'
  | insert _ => '+'

theorem Change.toList_sign (change : Change) : change.sign.toList = [change.mark] := by
  cases change <;> simp [sign, mark]

/-- A line of a hunk behind its mark. -/
def Change.written (change : Change) : List Char := change.mark :: change.line.toList

theorem readChange?_written (change : Change) : readChange? change.written = some change := by
  cases change <;>
    simp only [Change.written, Change.mark, Change.line, readChange?, String.ofList_toList]

theorem marked_written (change : Change) : Marked change.written := by
  refine ⟨change.mark, change.line.toList, rfl, ?_⟩
  cases change <;> simp [Change.mark]

theorem isLine_written {change : Change} (isLine : IsLine change.line.toList) :
    IsLine change.written := by
  refine isLine_cons ?_ isLine
  cases change <;> simp [Change.mark]

theorem isEnded_written (change : Change) :
    isEnded (String.ofList change.written) = isEnded change.line := by
  unfold isEnded Change.written
  rw [String.toList_ofList]
  cases change.line.toList with
  | nil => cases change <;> rfl
  | cons c rest => rw [List.getLast?_cons_cons]

theorem toList_render (change : Change) :
    change.render.toList = (withRemark change.written).flatten := by
  unfold withRemark Change.render
  rw [isEnded_written, String.toList_append, String.toList_append, Change.toList_sign]
  cases isEnded change.line with
  | true => rfl
  | false =>
      have remark : Change.noEndRemark.toList = '\n' :: remarkLine := by decide
      simp only [Bool.false_eq_true, if_false, List.flatten_cons, List.flatten_nil, List.append_nil,
        remark, Change.written, List.append_assoc]
      rfl

section

variable (old new : Array String)

/-- What can be read of a hunk. -/
def hunkText (hunk : Hunk) : HunkText :=
  match hunk.head?, hunk.getLast? with
  | some first, some last =>
      ⟨rangeOf first.oldStart last.oldStop, rangeOf first.newStart last.newStop,
        changesOf old new hunk⟩
  | _, _ => ⟨⟨0, 0⟩, ⟨0, 0⟩, []⟩

/-- The lines of a hunk, without remarks. -/
def writtenLines (hunk : Hunk) : List (List Char) :=
  ((hunkHeader hunk).toList ++ ['\n']) :: (changesOf old new hunk).map Change.written

theorem hunkHeader_eq {hunk : Hunk} (nonempty : hunk ≠ []) :
    ∃ oldStart oldStop newStart newStop,
      (hunkHeader hunk).toList =
        "@@ -".toList ++ (renderRange oldStart oldStop).toList ++ " +".toList ++
          (renderRange newStart newStop).toList ++ " @@".toList ∧
      hunkText old new hunk =
        ⟨rangeOf oldStart oldStop, rangeOf newStart newStop, changesOf old new hunk⟩ := by
  obtain ⟨first, firstEq⟩ := Option.ne_none_iff_exists'.mp (mt List.head?_eq_none_iff.mp nonempty)
  obtain ⟨last, lastEq⟩ := Option.ne_none_iff_exists'.mp (mt List.getLast?_eq_none_iff.mp nonempty)
  refine ⟨first.oldStart, last.oldStop, first.newStart, last.newStop, ?_, ?_⟩
  · unfold hunkHeader
    rw [firstEq, lastEq]
    simp [toString]
  · unfold hunkText
    rw [firstEq, lastEq]

theorem hunkText_changes (hunk : Hunk) :
    (hunkText old new hunk).changes = changesOf old new hunk := by
  cases hunk with
  | nil => rfl
  | cons op rest =>
      obtain ⟨_, _, _, _, _, textEq⟩ := hunkHeader_eq old new (List.cons_ne_nil op rest)
      rw [textEq]

theorem header_isLine {hunk : Hunk} (nonempty : hunk ≠ []) :
    EndedLine ((hunkHeader hunk).toList ++ ['\n']) ∧ Marked ((hunkHeader hunk).toList ++ ['\n']) ∧
      readChange? ((hunkHeader hunk).toList ++ ['\n']) = none := by
  obtain ⟨oldStart, oldStop, newStart, newStop, headerEq, _⟩ := hunkHeader_eq #[] #[] nonempty
  rw [headerEq]
  refine ⟨endedLine_newline ?_, ⟨'@', _, rfl, by decide⟩, rfl⟩
  have words : Unbroken "@@ -".toList ∧ Unbroken " +".toList ∧ Unbroken " @@".toList := by
    decide
  have oldUnbroken := unbroken_renderRange oldStart oldStop
  have newUnbroken := unbroken_renderRange newStart newStop
  exact unbroken_append (unbroken_append (unbroken_append (unbroken_append words.1 oldUnbroken)
    words.2.1) newUnbroken) words.2.2

theorem readHeader?_hunkHeader {hunk : Hunk} (nonempty : hunk ≠ []) :
    readHeader? ((hunkHeader hunk).toList ++ ['\n']) =
      some ((hunkText old new hunk).old, (hunkText old new hunk).new) := by
  obtain ⟨oldStart, oldStop, newStart, newStop, headerEq, textEq⟩ := hunkHeader_eq old new nonempty
  rw [textEq, headerEq]
  exact readHeader?_ranges _ _ _ _ (readRange?_renderRange ..) (readRange?_renderRange ..)
    (not_mem_renderRange (by decide) (by decide) _ _)
    (not_mem_renderRange (by decide) (by decide) _ _)

theorem mem_slice {lines : Array String} {start count : Nat} {line : String}
    (isIn : line ∈ slice lines start count) : line ∈ lines := by
  rw [slice_eq] at isIn
  exact Array.mem_toList_iff.mp (List.mem_of_mem_drop (List.mem_of_mem_take isIn))

theorem mem_of_mem_changesOf {hunk : Hunk} {change : Change}
    (isIn : change ∈ changesOf old new hunk) : change.line ∈ old ∨ change.line ∈ new := by
  obtain ⟨op, _, ofOp⟩ := List.mem_flatMap.mp isIn
  have fromOld {make : String → Change} (same : ∀ line, (make line).line = line)
      (isMade : change ∈ (slice old op.oldStart op.oldCount).map make) : change.line ∈ old := by
    obtain ⟨line, lineIn, rfl⟩ := List.mem_map.mp isMade
    rw [same]
    exact mem_slice lineIn
  have fromNew (isMade : change ∈ (slice new op.newStart op.newCount).map .insert) :
      change.line ∈ new := by
    obtain ⟨line, lineIn, rfl⟩ := List.mem_map.mp isMade
    exact mem_slice lineIn
  unfold Op.changes at ofOp
  split at ofOp
  · exact Or.inl (fromOld (fun _ => rfl) ofOp)
  · exact Or.inl (fromOld (fun _ => rfl) ofOp)
  · exact Or.inr (fromNew ofOp)
  · rcases List.mem_append.mp ofOp with ofOld | ofNew
    · exact Or.inl (fromOld (fun _ => rfl) ofOld)
    · exact Or.inr (fromNew ofNew)

variable {old new}

theorem toList_renderHunk {hunk : Hunk} (nonempty : hunk ≠ []) (some : changesOf old new hunk ≠ []) :
    (renderHunk old new hunk).toList = ((writtenLines old new hunk).flatMap withRemark).flatten := by
  have headerAlone : withRemark ((hunkHeader hunk).toList ++ ['\n']) =
      [(hunkHeader hunk).toList ++ ['\n']] := by
    have ended := (header_isLine nonempty).1
    rw [withRemark, if_pos ((isEnded_ofList_iff (Or.inl ended)).mpr ended)]
  have changesText (changes : List Change) :
      (String.join (changes.map Change.render)).toList =
        ((changes.map Change.written).flatMap withRemark).flatten := by
    rw [String.toList_join]
    induction changes with
    | nil => rfl
    | cons change rest ih =>
        rw [List.map_cons, List.flatMap_cons, ih, toList_render, List.map_cons, List.flatMap_cons,
          List.flatten_append]
  change (if (changesOf old new hunk).isEmpty then "" else _).toList = _
  rw [if_neg (mt List.isEmpty_iff.mp some), writtenLines, List.flatMap_cons, headerAlone,
    List.flatten_append, ← changesText, String.toList_append, String.toList_append,
    List.flatten_singleton]
  rfl

theorem readLines?_writtenLines (hunks : List Hunk) (nonempty : ∀ hunk, hunk ∈ hunks → hunk ≠ []) :
    readLines? (hunks.flatMap (writtenLines old new)) = some ([], hunks.map (hunkText old new)) := by
  have readChanges (changes : List Change) (lines : List (List Char)) (texts : List HunkText)
      (read : readLines? lines = some ([], texts)) :
      readLines? (changes.map Change.written ++ lines) = some (changes, texts) := by
    induction changes with
    | nil => exact read
    | cons change rest ih =>
        rw [List.map_cons, List.cons_append, readLines?, ih, readChange?_written]
        rfl
  induction hunks with
  | nil => rfl
  | cons hunk rest ih =>
      have restRead := ih fun next isIn => nonempty next (List.mem_cons_of_mem _ isIn)
      have hunkSome := nonempty hunk List.mem_cons_self
      rw [List.flatMap_cons, writtenLines, List.cons_append, readLines?,
        readChanges _ _ _ restRead]
      simp only [Option.bind_eq_bind, Option.bind_some, (header_isLine hunkSome).2.2,
        readHeader?_hunkHeader old new hunkSome, ← hunkText_changes old new hunk, List.map_cons]
      rfl

theorem toList_join_renderHunk (hunks : List Hunk)
    (some : ∀ hunk, hunk ∈ hunks → hunk ≠ [] ∧ changesOf old new hunk ≠ []) :
    (String.join (hunks.map (renderHunk old new))).toList =
      ((hunks.flatMap (writtenLines old new)).flatMap withRemark).flatten := by
  rw [String.toList_join]
  induction hunks with
  | nil => rfl
  | cons hunk rest ih =>
      have hunkSome := some hunk List.mem_cons_self
      rw [List.map_cons, List.flatMap_cons, toList_renderHunk hunkSome.1 hunkSome.2,
        ih fun next isIn => some next (List.mem_cons_of_mem _ isIn), List.flatMap_cons,
        List.flatMap_append, List.flatten_append]

theorem isLine_of_mem_writtenLines {hunk : Hunk} (nonempty : hunk ≠ [])
    (oldLines : ∀ line, line ∈ old → IsLine line.toList)
    (newLines : ∀ line, line ∈ new → IsLine line.toList) {line : List Char}
    (isIn : line ∈ writtenLines old new hunk) : IsLine line ∧ Marked line := by
  rcases List.mem_cons.mp isIn with rfl | ofChange
  · have header := header_isLine nonempty
    exact ⟨Or.inl header.1, header.2.1⟩
  · obtain ⟨change, changeIn, rfl⟩ := List.mem_map.mp ofChange
    refine ⟨isLine_written ?_, marked_written change⟩
    exact (mem_of_mem_changesOf old new changeIn).elim (oldLines _) (newLines _)

/-- The lines of the text of hunks are the lines that the hunks are written as. -/
theorem undoRemarks_renderHunk (hunks : List Hunk)
    (oldLines : ∀ line, line ∈ old → IsLine line.toList)
    (newLines : ∀ line, line ∈ new → IsLine line.toList)
    (some : ∀ hunk, hunk ∈ hunks → hunk ≠ [] ∧ changesOf old new hunk ≠ []) :
    undoRemarks (splitLines (String.join (hunks.map (renderHunk old new))).toList) =
      hunks.flatMap (writtenLines old new) := by
  have shape (line : List Char) (isIn : line ∈ hunks.flatMap (writtenLines old new)) :
      IsLine line ∧ Marked line := by
    obtain ⟨hunk, hunkIn, lineIn⟩ := List.mem_flatMap.mp isIn
    exact isLine_of_mem_writtenLines (some hunk hunkIn).1 oldLines newLines lineIn
  rw [toList_join_renderHunk hunks some, splitLines_withRemark _ shape,
    undoRemarks_withRemark _ fun line isIn => (shape line isIn).2]

end

end Codemod.Diff
