import Codemod.Diff.Unified
import Codemod.Proofs.Diff.Settle

/-!
Hunks cut a script into runs with kept lines between them.

A hunk is a run of its own that starts behind some kept lines; no line is left out between two hunks
but kept ones. The lines that the changes of a run keep or delete are the old lines it passes, and
those they keep or insert are the new ones.
-/

set_option autoImplicit false

namespace Codemod.Diff

/-- The operations of two texts, by lines, lead where the shortest script does. -/
theorem run_lineOps_of_script {old new : Array String} {stop : Tally}
    (run : Run (Op.Exact old new) Tally.zero (script old new) stop) :
    Run (Op.FitsJoined old new (anchorsOf (script old new))) Tally.zero (lineOps old new) stop :=
  run_join (run_settle (run_fits_of_exact (follow_anchorsOf _) run))

theorem run_lineOps (old new : Array String) :
    ∃ stop : Tally, stop.oldPlace = old.size ∧ stop.newPlace = new.size ∧
      Run (Op.FitsJoined old new (anchorsOf (script old new))) Tally.zero (lineOps old new)
        stop := by
  obtain ⟨stop, oldAll, newAll, run⟩ := run_script old new
  exact ⟨stop, oldAll, newAll, run_lineOps_of_script run⟩

/-! ### Kept lines between hunks -/

section

variable {α : Type} {old new : Array α} {anchors : Anchors} {start middle stop : Tally}

/-- Nothing but kept lines lies between two tallies. -/
def Skips (old new : Array α) (start stop : Tally) : Prop :=
  ∃ count, stop = ⟨start.kept + count, start.deleted, start.inserted⟩ ∧
    Agree old new start.oldPlace start.newPlace count

theorem skips_refl (tally : Tally) : Skips old new tally tally :=
  ⟨0, rfl, fun offset within => absurd within (Nat.not_lt_zero offset)⟩

theorem skips_trans (first : Skips old new start middle) (second : Skips old new middle stop) :
    Skips old new start stop := by
  obtain ⟨count, rfl, agree⟩ := first
  obtain ⟨count', rfl, agree'⟩ := second
  refine ⟨count + count', ?_, agree_append agree ?_⟩
  · rw [Nat.add_assoc]
  · simp only [Tally.oldPlace, Tally.newPlace] at agree' ⊢
    rw [Nat.add_right_comm, Nat.add_right_comm start.kept start.inserted]
    exact agree'

/-- Hunks that are runs with nothing but kept lines before, between and behind them. -/
def HunksRun (old new : Array α) (anchors : Anchors) : Tally → List Hunk → Tally → Prop
  | start, [], stop => Skips old new start stop
  | start, hunk :: rest, stop =>
      ∃ before behind, Skips old new start before ∧
        Run (Op.FitsJoined old new anchors) before hunk behind ∧
        HunksRun old new anchors behind rest stop

theorem hunksRun_of_skips {hunks : List Hunk} (skips : Skips old new start middle)
    (runs : HunksRun old new anchors middle hunks stop) :
    HunksRun old new anchors start hunks stop := by
  cases hunks with
  | nil => exact skips_trans skips runs
  | cons hunk rest =>
      obtain ⟨before, behind, skips', hunkRun, restRuns⟩ := runs
      exact ⟨before, behind, skips_trans skips skips', hunkRun, restRuns⟩

theorem hunksRun_skips {hunks : List Hunk} (runs : HunksRun old new anchors start hunks middle)
    (skips : Skips old new middle stop) : HunksRun old new anchors start hunks stop := by
  induction hunks generalizing start with
  | nil => exact skips_trans runs skips
  | cons hunk rest ih =>
      obtain ⟨before, behind, skips', hunkRun, restRuns⟩ := runs
      exact ⟨before, behind, skips', hunkRun, ih restRuns⟩

theorem run_cons_kept {op : Op} {rest : List Op} (isEqual : op.tag = .equal) :
    Run (Op.FitsJoined old new anchors) start (op :: rest) stop ↔
      (op.oldStart = start.oldPlace ∧ op.newStart = start.newPlace ∧
        0 < op.oldCount ∧ op.newCount = op.oldCount ∧
        Agree old new op.oldStart op.newStart op.oldCount) ∧
      Run (Op.FitsJoined old new anchors)
        ⟨start.kept + op.oldCount, start.deleted, start.inserted⟩ rest stop := by
  simp only [Run, Op.FitsJoined, Op.Fits, Tally.next, isEqual]

theorem skips_lastKept {context : Nat} (some : 0 < context) {op : Op} {rest : List Op}
    (isEqual : op.tag = .equal)
    (run : Run (Op.FitsJoined old new anchors) start (op :: rest) stop) :
    ∃ middle, middle.kept = start.kept + (op.oldCount - context) ∧ Skips old new start middle ∧
      Run (Op.FitsJoined old new anchors) middle (lastKept context op :: rest) stop := by
  rw [run_cons_kept isEqual] at run
  obtain ⟨⟨oldAt, newAt, opSome, sameCount, agree⟩, restRun⟩ := run
  refine ⟨⟨start.kept + (op.oldCount - context), start.deleted, start.inserted⟩, rfl,
    ⟨_, rfl, ?_⟩, ?_⟩
  · rw [← oldAt, ← newAt]
    exact fun offset within => agree offset (by omega)
  · rw [run_cons_kept (show (lastKept context op).tag = .equal from isEqual)]
    simp only [lastKept, Op.shrinkLeft, Op.shiftRight, Op.shrinkRight, Tally.oldPlace,
      Tally.newPlace] at oldAt newAt ⊢
    refine ⟨⟨by omega, by omega, by omega, by omega, ?_⟩, ?_⟩
    · apply agree_back
      rw [Nat.add_sub_cancel' (Nat.sub_le _ _)]
      exact agree
    · rw [Nat.add_assoc, Nat.add_sub_cancel' (Nat.sub_le _ _)]
      exact restRun

theorem run_firstKept {context : Nat} (some : 0 < context) {op : Op} {rest : List Op}
    (isEqual : op.tag = .equal)
    (run : Run (Op.FitsJoined old new anchors) start (op :: rest) stop) :
    Run (Op.FitsJoined old new anchors) start [firstKept context op]
      ⟨start.kept + min op.oldCount context, start.deleted, start.inserted⟩ ∧
    Skips old new ⟨start.kept + min op.oldCount context, start.deleted, start.inserted⟩
      ⟨start.kept + op.oldCount, start.deleted, start.inserted⟩ := by
  rw [run_cons_kept isEqual] at run
  obtain ⟨⟨oldAt, newAt, opSome, sameCount, agree⟩, restRun⟩ := run
  constructor
  · rw [run_cons_kept (show (firstKept context op).tag = .equal from isEqual)]
    simp only [firstKept, Op.shrinkRight]
    rw [show op.oldCount - (op.oldCount - context) = min op.oldCount context by omega]
    refine ⟨⟨oldAt, newAt, by omega, by omega, ?_⟩, rfl⟩
    exact fun offset within => agree offset (by omega)
  · refine ⟨op.oldCount - min op.oldCount context, ?_, ?_⟩
    · rw [Nat.add_assoc, Nat.add_sub_cancel' (Nat.min_le_left _ _)]
    · simp only [Tally.oldPlace, Tally.newPlace] at oldAt newAt ⊢
      rw [Nat.add_right_comm, ← oldAt, Nat.add_right_comm, ← newAt]
      apply agree_back
      rw [Nat.add_sub_cancel' (Nat.min_le_left _ _)]
      exact agree

/-! ### Grouping -/

/-- A group that is dropped holds kept lines only. -/
theorem hunksRun_asHunk {group : List Op}
    (run : Run (Op.FitsJoined old new anchors) start group stop) :
    HunksRun old new anchors start (asHunk group) stop := by
  unfold asHunk
  split
  · obtain rfl : start = stop := run
    exact skips_refl start
  · rename_i op
    split
    · rename_i isEqual
      rw [run_cons_kept isEqual] at run
      obtain ⟨⟨oldAt, newAt, _, _, agree⟩, rfl⟩ := run
      rw [oldAt, newAt] at agree
      exact ⟨op.oldCount, rfl, agree⟩
    · exact ⟨start, stop, skips_refl start, run, skips_refl stop⟩
  · exact ⟨start, stop, skips_refl start, run, skips_refl stop⟩

theorem hunksRun_groupFrom {context : Nat} (some : 0 < context) (group ops : List Op)
    (run : Run (Op.FitsJoined old new anchors) start (group ++ ops) stop) :
    HunksRun old new anchors start (groupFrom context group ops) stop := by
  fun_induction groupFrom context group ops generalizing start with
  | case1 group =>
      rw [List.append_nil] at run
      exact hunksRun_asHunk run
  | case2 group op rest long ih =>
      obtain ⟨middle, groupRun, opRun⟩ := run_append.mp run
      obtain ⟨firstRun, _⟩ := run_firstKept some long.1 opRun
      obtain ⟨before, keptEq, skips, lastRun⟩ := skips_lastKept some long.1 opRun
      refine ⟨start, _, skips_refl start, run_append.mpr ⟨middle, groupRun, firstRun⟩, ?_⟩
      refine hunksRun_of_skips ?_ (ih lastRun)
      obtain ⟨count, rfl, agree⟩ := skips
      simp only [Nat.add_left_cancel_iff] at keptEq
      refine ⟨count - min op.oldCount context, ?_, ?_⟩
      · simp only [Tally.mk.injEq, and_self, and_true]
        omega
      · rw [show count = min op.oldCount context + (count - min op.oldCount context) by omega] at agree
        have behind := agree_back agree
        simp only [Tally.oldPlace, Tally.newPlace] at behind ⊢
        rw [Nat.add_right_comm, Nat.add_right_comm middle.kept middle.inserted] at behind
        exact behind
  | case3 group op rest short ih =>
      refine ih ?_
      rw [List.append_assoc]
      exact run

theorem run_trimStart {context : Nat} (some : 0 < context) {ops : List Op}
    (run : Run (Op.FitsJoined old new anchors) start ops stop) :
    ∃ middle, Skips old new start middle ∧
      Run (Op.FitsJoined old new anchors) middle (trimStart context ops) stop := by
  cases ops with
  | nil => exact ⟨start, skips_refl start, run⟩
  | cons op rest =>
      rw [trimStart]
      split
      · rename_i isEqual
        obtain ⟨middle, _, skips, trimmed⟩ := skips_lastKept some isEqual run
        exact ⟨middle, skips, trimmed⟩
      · exact ⟨start, skips_refl start, run⟩

theorem run_trimEnd {context : Nat} (some : 0 < context) (ops : List Op)
    (run : Run (Op.FitsJoined old new anchors) start ops stop) :
    ∃ middle, Run (Op.FitsJoined old new anchors) start (trimEnd context ops) middle ∧
      Skips old new middle stop := by
  fun_induction trimEnd context ops generalizing start with
  | case1 => exact ⟨stop, run, skips_refl stop⟩
  | case2 op isEqual =>
      obtain ⟨trimmed, skips⟩ := run_firstKept some isEqual run
      rw [run_cons_kept isEqual] at run
      obtain ⟨_, rfl⟩ := run
      exact ⟨_, trimmed, skips⟩
  | case3 op isChange => exact ⟨stop, run, skips_refl stop⟩
  | case4 op rest _ ih =>
      obtain ⟨middle, restRun, skips⟩ := ih run.2
      exact ⟨middle, ⟨run.1, restRun⟩, skips⟩

theorem hunksRun_hunksOf {context : Nat} (some : 0 < context) {ops : List Op}
    (run : Run (Op.FitsJoined old new anchors) start ops stop) :
    HunksRun old new anchors start (hunksOf context ops) stop := by
  obtain ⟨behindSkip, frontSkips, frontRun⟩ := run_trimStart some run
  obtain ⟨beforeSkip, trimmedRun, backSkips⟩ := run_trimEnd some _ frontRun
  exact hunksRun_of_skips frontSkips
    (hunksRun_skips (hunksRun_groupFrom some [] _ trimmedRun) backSkips)

end

/-! ### Lines of a run -/

theorem slice_eq (lines : Array String) (start count : Nat) :
    slice lines start count = (lines.toList.drop start).take count := by
  unfold slice
  rw [Array.toList_extract, List.extract_eq_take_drop, Nat.add_sub_cancel_left]

theorem slice_add (lines : Array String) (start first second : Nat) :
    slice lines start (first + second) =
      slice lines start first ++ slice lines (start + first) second := by
  simp only [slice_eq, List.take_add, List.drop_drop]

theorem slice_of_agree {old new : Array String} {oldStart newStart count : Nat}
    (agree : Agree old new oldStart newStart count) :
    slice old oldStart count = slice new newStart count := by
  rw [slice_eq, slice_eq]
  apply List.ext_getElem?
  intro offset
  rw [List.getElem?_take, List.getElem?_take]
  split
  · rename_i within
    rw [List.getElem?_drop, List.getElem?_drop, Array.getElem?_toList, Array.getElem?_toList]
    exact agree offset within
  · rfl

def changesOf (old new : Array String) (ops : List Op) : List Change :=
  ops.flatMap (Op.changes old new)

theorem changesOf_cons (old new : Array String) (op : Op) (rest : List Op) :
    changesOf old new (op :: rest) = op.changes old new ++ changesOf old new rest :=
  List.flatMap_cons

theorem changesOf_append (old new : Array String) (front back : List Op) :
    changesOf old new (front ++ back) = changesOf old new front ++ changesOf old new back :=
  List.flatMap_append

/-- The old line that a change keeps or deletes. -/
def Change.oldLine? : Change → Option String
  | keep line => some line
  | delete line => some line
  | insert _ => none

/-- The new line that a change keeps or inserts. -/
def Change.newLine? : Change → Option String
  | keep line => some line
  | delete _ => none
  | insert line => some line

def oldSide (changes : List Change) : List String := changes.filterMap Change.oldLine?

def newSide (changes : List Change) : List String := changes.filterMap Change.newLine?

@[simp] theorem oldSide_append (front back : List Change) :
    oldSide (front ++ back) = oldSide front ++ oldSide back := List.filterMap_append ..

@[simp] theorem newSide_append (front back : List Change) :
    newSide (front ++ back) = newSide front ++ newSide back := List.filterMap_append ..

section

variable {line? : Change → Option String} {change : String → Change}

theorem filterMap_map_shown (shown : ∀ line, line? (change line) = some line)
    (lines : List String) : (lines.map change).filterMap line? = lines := by
  rw [List.filterMap_map, show line? ∘ change = some from funext shown]
  exact List.filterMap_some

theorem filterMap_map_hidden (hidden : ∀ line, line? (change line) = none) (lines : List String) :
    (lines.map change).filterMap line? = [] := by
  rw [List.filterMap_map]
  exact List.filterMap_eq_nil_iff.mpr fun line _ => hidden line

end

section

variable (lines : List String)

@[simp] theorem oldSide_keep : oldSide (lines.map .keep) = lines :=
  filterMap_map_shown (fun _ => rfl) lines

@[simp] theorem oldSide_delete : oldSide (lines.map .delete) = lines :=
  filterMap_map_shown (fun _ => rfl) lines

@[simp] theorem oldSide_insert : oldSide (lines.map .insert) = [] :=
  filterMap_map_hidden (fun _ => rfl) lines

@[simp] theorem newSide_keep : newSide (lines.map .keep) = lines :=
  filterMap_map_shown (fun _ => rfl) lines

@[simp] theorem newSide_delete : newSide (lines.map .delete) = [] :=
  filterMap_map_hidden (fun _ => rfl) lines

@[simp] theorem newSide_insert : newSide (lines.map .insert) = lines :=
  filterMap_map_shown (fun _ => rfl) lines

end

/-- What one side of a diff shows of its changes: all lines but those of one sort of change, which is
not that of kept lines. -/
structure View where
  line? : Change → Option String
  hides : Change → Bool
  hides_eq : ∀ change, hides change = !(line? change).isSome
  keeps : ∀ line, line? (.keep line) = some line

def View.old : View where
  line? := Change.oldLine?
  hides := Change.isInsertion
  hides_eq := fun change => by cases change <;> rfl
  keeps := fun _ => rfl

def View.new : View where
  line? := Change.newLine?
  hides := Change.isDeletion
  hides_eq := fun change => by cases change <;> rfl
  keeps := fun _ => rfl

theorem View.length_shown (view : View) (changes : List Change) :
    changes.countP view.hides + (changes.filterMap view.line?).length = changes.length := by
  rw [List.length_filterMap_eq_countP, funext view.hides_eq, Nat.add_comm,
    List.length_eq_countP_add_countP (fun change => (view.line? change).isSome)]
  simp only [Bool.not_eq_true, Bool.decide_eq_false]

section

variable {old new : Array String} {anchors : Anchors} {start stop : Tally}

/-- What an operation keeps or deletes is the range of old lines that it passes. -/
theorem oldSide_changes {op : Op} (fits : op.FitsJoined old new anchors start) :
    oldSide (op.changes old new) = slice old start.oldPlace op.oldCount ∧
      (start.next op).oldPlace = start.oldPlace + op.oldCount := by
  cases tagEq : op.tag with
  | equal =>
      simp only [Op.FitsJoined, Op.Fits, tagEq] at fits
      simp only [Op.changes, Tally.next, Tally.oldPlace, tagEq, fits.1, oldSide_keep, true_and]
      exact Nat.add_right_comm ..
  | delete =>
      simp only [Op.FitsJoined, Op.Fits, tagEq] at fits
      simp only [Op.changes, Tally.next, Tally.oldPlace, tagEq, fits.1, oldSide_delete, true_and]
      exact (Nat.add_assoc ..).symm
  | insert =>
      simp only [Op.FitsJoined, Op.Fits, tagEq] at fits
      simp only [Op.changes, Tally.next, Tally.oldPlace, tagEq, fits.2.2.2, oldSide_insert,
        slice_eq, List.take_zero, Nat.add_zero, and_self]
  | replace =>
      simp only [Op.FitsJoined, tagEq] at fits
      simp only [Op.changes, Tally.next, Tally.oldPlace, tagEq, fits.1, oldSide_append,
        oldSide_delete, oldSide_insert, List.append_nil, true_and]
      exact (Nat.add_assoc ..).symm

theorem newSide_changes {op : Op} (fits : op.FitsJoined old new anchors start) :
    newSide (op.changes old new) = slice new start.newPlace op.newCount ∧
      (start.next op).newPlace = start.newPlace + op.newCount := by
  cases tagEq : op.tag with
  | equal =>
      simp only [Op.FitsJoined, Op.Fits, tagEq] at fits
      obtain ⟨oldAt, newAt, _, sameCount, agree⟩ := fits
      simp only [Op.changes, Tally.next, Tally.newPlace, tagEq, newSide_keep, sameCount]
      rw [slice_of_agree agree, newAt]
      exact ⟨rfl, Nat.add_right_comm ..⟩
  | delete =>
      simp only [Op.FitsJoined, Op.Fits, tagEq] at fits
      simp only [Op.changes, Tally.next, Tally.newPlace, tagEq, fits.2.2.2, newSide_delete,
        slice_eq, List.take_zero, Nat.add_zero, and_self]
  | insert =>
      simp only [Op.FitsJoined, Op.Fits, tagEq] at fits
      simp only [Op.changes, Tally.next, Tally.newPlace, tagEq, fits.2.1, newSide_insert, true_and]
      exact (Nat.add_assoc ..).symm
  | replace =>
      simp only [Op.FitsJoined, tagEq] at fits
      simp only [Op.changes, Tally.next, Tally.newPlace, tagEq, fits.2.1, newSide_append,
        newSide_delete, newSide_insert, List.nil_append, true_and]
      exact (Nat.add_assoc ..).symm

/-- One side of a diff: its lines, how far a run has come in them, and how many of them an operation
covers. An operation that fits shows the lines that it passes. -/
structure Side (old new : Array String) (anchors : Anchors) extends View where
  lines : Array String
  place : Tally → Nat
  count : Op → Nat
  place_kept : ∀ (tally : Tally) (more : Nat),
    place ⟨tally.kept + more, tally.deleted, tally.inserted⟩ = place tally + more
  place_next : ∀ {tally : Tally} {op : Op}, op.FitsJoined old new anchors tally →
    place (tally.next op) = place tally + count op
  shows : ∀ {tally : Tally} {op : Op}, op.FitsJoined old new anchors tally →
    (op.changes old new).filterMap line? = slice lines (place tally) (count op)

def Side.ofOld (old new : Array String) (anchors : Anchors) : Side old new anchors where
  toView := View.old
  lines := old
  place := Tally.oldPlace
  count := Op.oldCount
  place_kept := fun _ _ => Nat.add_right_comm ..
  place_next := fun fits => (oldSide_changes fits).2
  shows := fun fits => (oldSide_changes fits).1

def Side.ofNew (old new : Array String) (anchors : Anchors) : Side old new anchors where
  toView := View.new
  lines := new
  place := Tally.newPlace
  count := Op.newCount
  place_kept := fun _ _ => Nat.add_right_comm ..
  place_next := fun fits => (newSide_changes fits).2
  shows := fun fits => (newSide_changes fits).1

theorem Side.shows_run (side : Side old new anchors) {ops : List Op}
    (run : Run (Op.FitsJoined old new anchors) start ops stop) :
    ∃ count, side.place stop = side.place start + count ∧
      (changesOf old new ops).filterMap side.line? =
        slice side.lines (side.place start) count := by
  induction ops generalizing start with
  | nil =>
      obtain rfl : start = stop := run
      refine ⟨0, rfl, ?_⟩
      rw [slice_eq, List.take_zero]
      rfl
  | cons op rest ih =>
      obtain ⟨fits, restRun⟩ := run
      obtain ⟨count, stopPlace, restLines⟩ := ih restRun
      rw [side.place_next fits] at stopPlace restLines
      refine ⟨side.count op + count, by rw [stopPlace, Nat.add_assoc], ?_⟩
      rw [changesOf_cons, List.filterMap_append, side.shows fits, restLines, slice_add]

theorem oldSide_run {ops : List Op}
    (run : Run (Op.FitsJoined old new anchors) start ops stop) :
    ∃ count, stop.oldPlace = start.oldPlace + count ∧
      oldSide (changesOf old new ops) = slice old start.oldPlace count :=
  (Side.ofOld old new anchors).shows_run run

theorem newSide_run {ops : List Op}
    (run : Run (Op.FitsJoined old new anchors) start ops stop) :
    ∃ count, stop.newPlace = start.newPlace + count ∧
      newSide (changesOf old new ops) = slice new start.newPlace count :=
  (Side.ofNew old new anchors).shows_run run

end

end Codemod.Diff
