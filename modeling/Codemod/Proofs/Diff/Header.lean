import Codemod.Proofs.Diff.Lossless

/-!
When the numbers of headers are right.

A header takes its numbers from the ranges of the first and the last operation of its hunk. When
settling lets insertions and deletions change places, the ranges they leave empty are not moved with
them. So a header is exact unless its hunk starts or ends with an insertion or a deletion alone that
has come to stand behind more or fewer of the other kind than in the script before settling.
-/

set_option autoImplicit false

namespace Codemod.Diff

/-- A range names the `count` lines that follow the first `before` ones. -/
def LineRange.Names (range : LineRange) (before count : Nat) : Prop :=
  range.count = count ∧ range.first = if count = 0 then before else before + 1

/-- The headers of hunks say where the hunks stand between the gaps, and how many lines they have on
either side. -/
def HeadersExact : (oldBefore newBefore : Nat) → List (List String) → List HunkText → Prop
  | oldBefore, newBefore, gap :: gaps, hunk :: hunks =>
      (hunk.old.Names (oldBefore + gap.length) (oldSide hunk.changes).length ∧
        hunk.new.Names (newBefore + gap.length) (newSide hunk.changes).length) ∧
      HeadersExact (oldBefore + gap.length + (oldSide hunk.changes).length)
        (newBefore + gap.length + (newSide hunk.changes).length) gaps hunks
  | _, _, _, _ => True

/-- An operation behind deletions and insertions of so many lines has its empty range, if it has
one, where it stands: in the script before settling as many of the other kind were in front of it. -/
def Op.InPlace (raw : List Op) (deleted inserted : Nat) (op : Op) : Prop :=
  match op.tag with
  | .delete => countAhead .insert .delete raw deleted = inserted
  | .insert => countAhead .delete .insert raw inserted = deleted
  | _ => True

def deletedLines : List Op → Nat
  | [] => 0
  | op :: rest => (if op.tag = .equal then 0 else op.oldCount) + deletedLines rest

def insertedLines : List Op → Nat
  | [] => 0
  | op :: rest => (if op.tag = .equal then 0 else op.newCount) + insertedLines rest

/-- The first and the last operation of a hunk are in place. -/
def EdgesInPlace (raw : List Op) (deleted inserted : Nat) (hunk : Hunk) : Prop :=
  (∀ first rest, hunk = first :: rest → first.InPlace raw deleted inserted) ∧
    ∀ front last, hunk = front ++ [last] →
      last.InPlace raw (deleted + deletedLines front) (inserted + insertedLines front)

def HunksInPlace (raw : List Op) : (deleted inserted : Nat) → List Hunk → Prop
  | _, _, [] => True
  | deleted, inserted, hunk :: hunks =>
      EdgesInPlace raw deleted inserted hunk ∧
        HunksInPlace raw (deleted + deletedLines hunk) (inserted + insertedLines hunk) hunks

theorem rangeOf_names_iff {start stop before count : Nat} :
    (rangeOf start stop).Names before count ↔ start = before ∧ stop - start = count := by
  unfold LineRange.Names rangeOf
  split
  · rename_i none
    constructor
    · rintro ⟨rfl, first⟩
      exact ⟨first, none⟩
    · rintro ⟨rfl, rfl⟩
      exact ⟨none.symm, (if_pos none).symm⟩
  · rename_i some
    constructor
    · rintro ⟨rfl, first⟩
      rw [if_neg some] at first
      exact ⟨Nat.add_right_cancel first, rfl⟩
    · rintro ⟨rfl, rfl⟩
      exact ⟨rfl, (if_neg some).symm⟩

theorem countAhead_mono (counted marked : Tag) (ops : List Op) {low high : Nat}
    (atMost : low ≤ high) :
    countAhead counted marked ops low ≤ countAhead counted marked ops high := by
  induction ops generalizing low high with
  | nil => exact Nat.le_refl _
  | cons op rest ih =>
      rw [countAhead, countAhead]
      split
      · exact Nat.add_le_add_left (ih atMost) _
      · split
        · split
          · exact Nat.zero_le _
          · rename_i passed
            rw [if_neg (by omega)]
            exact ih (Nat.sub_le_sub_right atMost _)
        · exact ih atMost

section

variable {old new : Array String} {raw : List Op} {start stop : Tally}

theorem next_of_fitsJoined {op : Op} {anchors : Anchors}
    (fits : op.FitsJoined old new anchors start) :
    start.kept ≤ (start.next op).kept ∧
      (start.next op).deleted = start.deleted + (if op.tag = .equal then 0 else op.oldCount) ∧
      (start.next op).inserted = start.inserted + (if op.tag = .equal then 0 else op.newCount) := by
  cases tagEq : op.tag with
  | equal => simp [Tally.next, tagEq]
  | delete =>
      simp only [Op.FitsJoined, Op.Fits, tagEq] at fits
      simp [Tally.next, tagEq, fits.2.2.2]
  | insert =>
      simp only [Op.FitsJoined, Op.Fits, tagEq] at fits
      simp [Tally.next, tagEq, fits.2.2.2]
  | replace => simp [Tally.next, tagEq]

theorem tally_of_run {ops : List Op} {anchors : Anchors}
    (run : Run (Op.FitsJoined old new anchors) start ops stop) :
    start.kept ≤ stop.kept ∧ stop.deleted = start.deleted + deletedLines ops ∧
      stop.inserted = start.inserted + insertedLines ops := by
  induction ops generalizing start with
  | nil =>
      obtain rfl : start = stop := run
      exact ⟨Nat.le_refl _, rfl, rfl⟩
  | cons op rest ih =>
      obtain ⟨fits, restRun⟩ := run
      obtain ⟨kept, deleted, inserted⟩ := next_of_fitsJoined fits
      obtain ⟨keptRest, deletedRest, insertedRest⟩ := ih restRun
      rw [deletedLines, insertedLines]
      omega

theorem inPlace_iff {op : Op} (fits : op.FitsJoined old new (anchorsOf raw) start) :
    op.InPlace raw start.deleted start.inserted ↔
      op.oldStart = start.oldPlace ∧ op.newStart = start.newPlace := by
  unfold Op.InPlace Tally.oldPlace Tally.newPlace
  cases tagEq : op.tag with
  | equal =>
      simp only [Op.FitsJoined, Op.Fits, tagEq] at fits
      exact iff_of_true trivial ⟨fits.1, fits.2.1⟩
  | delete =>
      simp only [Op.FitsJoined, Op.Fits, tagEq, anchorsOf] at fits
      simp only [fits.2.1, Nat.add_left_cancel_iff]
      exact (and_iff_right fits.1).symm
  | insert =>
      simp only [Op.FitsJoined, Op.Fits, tagEq, anchorsOf] at fits
      simp only [fits.1, Nat.add_left_cancel_iff]
      exact (and_iff_left fits.2.1).symm
  | replace =>
      simp only [Op.FitsJoined, tagEq] at fits
      exact iff_of_true trivial ⟨fits.1, fits.2.1⟩

theorem inPlace_iff_stop {op : Op} (fits : op.FitsJoined old new (anchorsOf raw) start) :
    op.InPlace raw start.deleted start.inserted ↔
      op.oldStop = (start.next op).oldPlace ∧ op.newStop = (start.next op).newPlace := by
  rw [inPlace_iff fits, (oldSide_changes fits).2, (newSide_changes fits).2, Op.oldStop, Op.newStop,
    Nat.add_right_cancel_iff, Nat.add_right_cancel_iff]

theorem oldStart_of_empty {op : Op} (fits : op.FitsJoined old new (anchorsOf raw) start)
    (none : op.oldCount = 0) :
    op.oldStart = start.kept + countAhead .delete .insert raw start.inserted := by
  cases tagEq : op.tag with
  | equal =>
      simp only [Op.FitsJoined, Op.Fits, tagEq] at fits
      exact absurd none (Nat.ne_of_gt fits.2.2.1)
  | delete =>
      simp only [Op.FitsJoined, Op.Fits, tagEq] at fits
      exact absurd none (Nat.ne_of_gt fits.2.2.1)
  | insert =>
      simp only [Op.FitsJoined, Op.Fits, tagEq] at fits
      exact fits.1
  | replace =>
      simp only [Op.FitsJoined, tagEq] at fits
      exact absurd none (Nat.ne_of_gt fits.2.2.1)

theorem newStart_of_empty {op : Op} (fits : op.FitsJoined old new (anchorsOf raw) start)
    (none : op.newCount = 0) :
    op.newStart = start.kept + countAhead .insert .delete raw start.deleted := by
  cases tagEq : op.tag with
  | equal =>
      simp only [Op.FitsJoined, Op.Fits, tagEq] at fits
      exact absurd (fits.2.2.2.1.symm.trans none) (Nat.ne_of_gt fits.2.2.1)
  | delete =>
      simp only [Op.FitsJoined, Op.Fits, tagEq] at fits
      exact fits.2.1
  | insert =>
      simp only [Op.FitsJoined, Op.Fits, tagEq] at fits
      exact absurd none (Nat.ne_of_gt fits.2.2.1)
  | replace =>
      simp only [Op.FitsJoined, tagEq] at fits
      exact absurd none (Nat.ne_of_gt fits.2.2.2)

/-- A run without lines on a side does not end before it starts there, wherever its empty ranges
are: they follow the lines that are kept and those ahead on the side, and a run passes by more and
more of both. -/
theorem Side.start_le_stop {anchors : Anchors} (side : Side old new anchors)
    {begins : Op → Nat} {ahead : Tally → Nat}
    (begins_of_empty : ∀ {tally : Tally} {op : Op}, op.FitsJoined old new anchors tally →
      side.count op = 0 → begins op = tally.kept + ahead tally)
    (ahead_run : ∀ {before : Tally} {ops : List Op},
      Run (Op.FitsJoined old new anchors) start ops before → ahead start ≤ ahead before)
    {first last : Op} {rest front : List Op} (shape : first :: rest = front ++ [last])
    (run : Run (Op.FitsJoined old new anchors) start (first :: rest) stop)
    (still : side.place stop = side.place start) :
    begins first ≤ begins last + side.count last := by
  have firstFits := run.1
  obtain ⟨restCount, restPlace, _⟩ := side.shows_run run.2
  rw [shape] at run
  obtain ⟨before, frontRun, lastFits, rfl⟩ := run_append.mp run
  obtain ⟨frontCount, frontPlace, _⟩ := side.shows_run frontRun
  have firstNext := side.place_next firstFits
  have lastNext := side.place_next lastFits
  have kept := (tally_of_run frontRun).1
  have more := ahead_run frontRun
  rw [begins_of_empty firstFits (by omega), begins_of_empty lastFits (by omega)]
  omega

theorem oldStart_le_oldStop {first last : Op} {rest front : List Op}
    (shape : first :: rest = front ++ [last])
    (run : Run (Op.FitsJoined old new (anchorsOf raw)) start (first :: rest) stop)
    (still : stop.oldPlace = start.oldPlace) : first.oldStart ≤ last.oldStop := by
  refine (Side.ofOld old new (anchorsOf raw)).start_le_stop oldStart_of_empty ?_ shape run still
  intro before ops frontRun
  have inserted := (tally_of_run frontRun).2.2
  exact countAhead_mono .delete .insert raw (by omega)

theorem newStart_le_newStop {first last : Op} {rest front : List Op}
    (shape : first :: rest = front ++ [last])
    (run : Run (Op.FitsJoined old new (anchorsOf raw)) start (first :: rest) stop)
    (still : stop.newPlace = start.newPlace) : first.newStart ≤ last.newStop := by
  refine (Side.ofNew old new (anchorsOf raw)).start_le_stop newStart_of_empty ?_ shape run still
  intro before ops frontRun
  have deleted := (tally_of_run frontRun).2.1
  exact countAhead_mono .insert .delete raw (by omega)

theorem edgesInPlace_iff {first last : Op} {rest front : List Op} {deleted inserted : Nat}
    (shape : first :: rest = front ++ [last]) :
    EdgesInPlace raw deleted inserted (first :: rest) ↔
      first.InPlace raw deleted inserted ∧
        last.InPlace raw (deleted + deletedLines front) (inserted + insertedLines front) := by
  constructor
  · rintro ⟨firstIn, lastIn⟩
    exact ⟨firstIn first rest rfl, lastIn front last shape⟩
  · rintro ⟨firstIn, lastIn⟩
    refine ⟨?_, ?_⟩
    · rintro _ _ ⟨rfl, rfl⟩
      exact firstIn
    · intro front' last' shape'
      obtain ⟨rfl, sameLast⟩ := List.append_inj' (shape.symm.trans shape') rfl
      obtain rfl := List.singleton_inj.mp sameLast
      exact lastIn

/-- A header is exact if and only if the edges of its hunk are in place. -/
theorem names_iff_edgesInPlace {hunk : Hunk} (nonempty : hunk ≠ [])
    (run : Run (Op.FitsJoined old new (anchorsOf raw)) start hunk stop)
    (oldWithin : stop.oldPlace ≤ old.size) (newWithin : stop.newPlace ≤ new.size) :
    ((hunkText old new hunk).old.Names start.oldPlace (oldSide (changesOf old new hunk)).length ∧
        (hunkText old new hunk).new.Names start.newPlace
          (newSide (changesOf old new hunk)).length) ↔
      EdgesInPlace raw start.deleted start.inserted hunk := by
  obtain ⟨oldLength, newLength⟩ := length_sides run oldWithin newWithin
  obtain ⟨first, rest, rfl⟩ := List.exists_cons_of_ne_nil nonempty
  obtain ⟨front, last, shape⟩ := List.eq_nil_or_concat (first :: rest) |>.resolve_left nonempty
  rw [List.concat_eq_append] at shape
  have textEq : hunkText old new (first :: rest) =
      ⟨rangeOf first.oldStart last.oldStop, rangeOf first.newStart last.newStop,
        changesOf old new (first :: rest)⟩ := by
    unfold hunkText
    rw [show (first :: rest).getLast? = some last by rw [shape, List.getLast?_concat]]
    rfl
  have firstFits := run.1
  have oldLe := oldStart_le_oldStop shape run
  have newLe := newStart_le_newStop shape run
  rw [shape] at run
  obtain ⟨before, frontRun, lastFits, rfl⟩ := run_append.mp run
  obtain ⟨_, deleted, inserted⟩ := tally_of_run frontRun
  rw [textEq, rangeOf_names_iff, rangeOf_names_iff, edgesInPlace_iff shape, ← deleted, ← inserted,
    inPlace_iff firstFits, inPlace_iff_stop lastFits]
  constructor
  · rintro ⟨⟨oldStart, oldCount⟩, newStart, newCount⟩
    -- an empty side is where the subtraction would hide a wrong end
    refine ⟨⟨oldStart, newStart⟩, ?_, ?_⟩
    · by_cases still : (before.next last).oldPlace = start.oldPlace
      · have atLeast := oldLe still
        omega
      · omega
    · by_cases still : (before.next last).newPlace = start.newPlace
      · have atLeast := newLe still
        omega
      · omega
  · rintro ⟨⟨oldStart, newStart⟩, oldStop, newStop⟩
    omega

theorem headersExact_iff {gaps : List (List String)} {hunks : List Hunk}
    (nonempty : ∀ hunk, hunk ∈ hunks → hunk ≠ [])
    (laid : Laid old new (anchorsOf raw) start gaps hunks stop)
    (oldWithin : stop.oldPlace ≤ old.size) (newWithin : stop.newPlace ≤ new.size) :
    HeadersExact start.oldPlace start.newPlace gaps (hunks.map (hunkText old new)) ↔
      HunksInPlace raw start.deleted start.inserted hunks := by
  induction laid with
  | last => exact iff_of_true trivial trivial
  | @hunk start before behind stop gap gaps hunk hunks isGap hunkRun restLaid ih =>
      obtain ⟨oldCount, oldStop, _⟩ := weave_oldSide restLaid
      obtain ⟨newCount, newStop, _⟩ := weave_newSide restLaid
      have oldBehind : behind.oldPlace ≤ old.size := by omega
      have newBehind : behind.newPlace ≤ new.size := by omega
      have oldPlace : before.oldPlace = start.oldPlace + gap.length := by
        rw [isGap.1]
        exact Nat.add_right_comm ..
      have newPlace : before.newPlace = start.newPlace + gap.length := by
        rw [isGap.1]
        exact Nat.add_right_comm ..
      obtain ⟨oldLength, newLength⟩ := length_sides hunkRun oldBehind newBehind
      obtain ⟨_, deleted, inserted⟩ := tally_of_run hunkRun
      have header := names_iff_edgesInPlace (nonempty hunk List.mem_cons_self) hunkRun oldBehind
        newBehind
      have rest := ih (fun next isIn => nonempty next (List.mem_cons_of_mem _ isIn)) oldWithin
        newWithin
      rw [List.map_cons, HeadersExact, HunksInPlace, hunkText_changes, ← oldPlace, ← newPlace,
        oldLength, newLength, header, rest, deleted, inserted, isGap.1]

end

end Codemod.Diff
