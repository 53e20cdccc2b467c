import Codemod.Diff.Settle
import Codemod.Proofs.Diff.Script

/-!
Settling and joining keep a script a script of the same two sequences.

Every move rewrites a few operations next to each other: an insertion slides past kept elements, an
insertion and a deletion change places, two of one kind are joined. When two operations change
places the ranges they leave empty keep the numbers they had, so of an insertion only the range of
the new sequence, and of a deletion only that of the old one, can be told from where it stands. What
the other range says instead is where the operation stood in the script before settling, and
`Anchors` keeps that.
-/

set_option autoImplicit false

namespace Codemod.Diff

/-- What the empty ranges of operations remember: how many elements were inserted in front of each
deleted one, and deleted in front of each inserted one. -/
structure Anchors where
  inserted : Nat → Nat
  deleted : Nat → Nat

section

variable {α : Type}

/-- An operation that is not empty and works on the ranges a run has come to; its empty range is
where the anchors say. -/
def Op.Fits (old new : Array α) (anchors : Anchors) (tally : Tally) (op : Op) : Prop :=
  match op.tag with
  | .equal =>
      op.oldStart = tally.oldPlace ∧ op.newStart = tally.newPlace ∧
        0 < op.oldCount ∧ op.newCount = op.oldCount ∧
        Agree old new op.oldStart op.newStart op.oldCount
  | .delete =>
      op.oldStart = tally.oldPlace ∧ op.newStart = tally.kept + anchors.inserted tally.deleted ∧
        0 < op.oldCount ∧ op.newCount = 0
  | .insert =>
      op.oldStart = tally.kept + anchors.deleted tally.inserted ∧ op.newStart = tally.newPlace ∧
        0 < op.newCount ∧ op.oldCount = 0
  | .replace => False

variable {old new : Array α} {anchors : Anchors} {start stop : Tally}

theorem run_cons_equal {op : Op} {rest : List Op} (isEqual : op.tag = .equal) :
    Run (Op.Fits old new anchors) start (op :: rest) stop ↔
      (op.oldStart = start.oldPlace ∧ op.newStart = start.newPlace ∧
        0 < op.oldCount ∧ op.newCount = op.oldCount ∧
        Agree old new op.oldStart op.newStart op.oldCount) ∧
      Run (Op.Fits old new anchors) ⟨start.kept + op.oldCount, start.deleted, start.inserted⟩
        rest stop := by
  simp only [Run, Op.Fits, Tally.next, isEqual]

theorem run_cons_delete {op : Op} {rest : List Op} (isDelete : op.tag = .delete) :
    Run (Op.Fits old new anchors) start (op :: rest) stop ↔
      (op.oldStart = start.oldPlace ∧
        op.newStart = start.kept + anchors.inserted start.deleted ∧
        0 < op.oldCount ∧ op.newCount = 0) ∧
      Run (Op.Fits old new anchors) ⟨start.kept, start.deleted + op.oldCount, start.inserted⟩
        rest stop := by
  simp only [Run, Op.Fits, Tally.next, isDelete]

theorem run_cons_insert {op : Op} {rest : List Op} (isInsert : op.tag = .insert) :
    Run (Op.Fits old new anchors) start (op :: rest) stop ↔
      (op.oldStart = start.kept + anchors.deleted start.inserted ∧
        op.newStart = start.newPlace ∧ 0 < op.newCount ∧ op.oldCount = 0) ∧
      Run (Op.Fits old new anchors) ⟨start.kept, start.deleted, start.inserted + op.newCount⟩
        rest stop := by
  simp only [Run, Op.Fits, Tally.next, isInsert]

theorem run_cons_not_replace {op : Op} {rest : List Op}
    (run : Run (Op.Fits old new anchors) start (op :: rest) stop) : op.tag ≠ .replace := by
  intro isReplace
  simp only [Run, Op.Fits, isReplace, false_and] at run

/-! ### Changing places and joining -/

/-- A deletion and an insertion behind it change places. -/
theorem run_swap_delete {deletion insertion : Op} {rest : List Op}
    (isDelete : deletion.tag = .delete) (isInsert : insertion.tag = .insert)
    (run : Run (Op.Fits old new anchors) start (deletion :: insertion :: rest) stop) :
    Run (Op.Fits old new anchors) start (insertion :: deletion :: rest) stop := by
  rw [run_cons_delete isDelete, run_cons_insert isInsert] at run
  rw [run_cons_insert isInsert, run_cons_delete isDelete]
  obtain ⟨deletionFits, insertionFits, restRun⟩ := run
  exact ⟨insertionFits, deletionFits, restRun⟩

theorem run_swap_insert {deletion insertion : Op} {rest : List Op}
    (isDelete : deletion.tag = .delete) (isInsert : insertion.tag = .insert)
    (run : Run (Op.Fits old new anchors) start (insertion :: deletion :: rest) stop) :
    Run (Op.Fits old new anchors) start (deletion :: insertion :: rest) stop := by
  rw [run_cons_insert isInsert, run_cons_delete isDelete] at run
  rw [run_cons_delete isDelete, run_cons_insert isInsert]
  obtain ⟨insertionFits, deletionFits, restRun⟩ := run
  exact ⟨deletionFits, insertionFits, restRun⟩

/-- Insertions and deletions are what settling moves. -/
def Tag.Moves (tag : Tag) : Prop := tag = .insert ∨ tag = .delete

theorem moves_of_run {op : Op} {rest : List Op} (notEqual : op.tag ≠ .equal)
    (run : Run (Op.Fits old new anchors) start (op :: rest) stop) : op.tag.Moves := by
  have notReplace := run_cons_not_replace run
  cases tagEq : op.tag with
  | equal => exact absurd tagEq notEqual
  | replace => exact absurd tagEq notReplace
  | insert => exact Or.inl rfl
  | delete => exact Or.inr rfl

/-- Two operations that are moved and not of one kind are a deletion and an insertion; they may
change places. -/
theorem run_swap {first second : Op} {rest : List Op} (firstMoves : first.tag.Moves)
    (secondMoves : second.tag.Moves) (different : first.tag ≠ second.tag)
    (run : Run (Op.Fits old new anchors) start (first :: second :: rest) stop) :
    Run (Op.Fits old new anchors) start (second :: first :: rest) stop := by
  rcases firstMoves with firstTag | firstTag <;> rcases secondMoves with secondTag | secondTag
  · exact absurd (firstTag.trans secondTag.symm) different
  · exact run_swap_insert secondTag firstTag run
  · exact run_swap_delete firstTag secondTag run
  · exact absurd (firstTag.trans secondTag.symm) different

theorem growRight_tag (op : Op) (count : Nat) : (op.growRight count).tag = op.tag := by
  unfold Op.growRight
  split <;> rfl

theorem run_grow {first second : Op} {rest : List Op} (sameTag : first.tag = second.tag)
    (isChange : first.tag ≠ .equal)
    (run : Run (Op.Fits old new anchors) start (first :: second :: rest) stop) :
    Run (Op.Fits old new anchors) start
      (first.growRight (second.oldCount + second.newCount) :: rest) stop := by
  cases firstTag : first.tag with
  | equal => exact absurd firstTag isChange
  | replace => exact absurd firstTag (run_cons_not_replace run)
  | delete =>
      have grownTag : (first.growRight (second.oldCount + second.newCount)).tag = .delete := by
        simp only [Op.growRight, firstTag]
      rw [run_cons_delete firstTag, run_cons_delete (sameTag ▸ firstTag)] at run
      obtain ⟨⟨oldAt, newAt, some, none⟩, ⟨_, _, _, none'⟩, restRun⟩ := run
      rw [run_cons_delete grownTag]
      simp only [Op.growRight, firstTag, none', Nat.add_zero] at restRun ⊢
      rw [Nat.add_assoc] at restRun
      exact ⟨⟨oldAt, newAt, by omega, none⟩, restRun⟩
  | insert =>
      have grownTag : (first.growRight (second.oldCount + second.newCount)).tag = .insert := by
        simp only [Op.growRight, firstTag]
      rw [run_cons_insert firstTag, run_cons_insert (sameTag ▸ firstTag)] at run
      obtain ⟨⟨oldAt, newAt, some, none⟩, ⟨_, _, _, none'⟩, restRun⟩ := run
      rw [run_cons_insert grownTag]
      simp only [Op.growRight, firstTag, none', Nat.zero_add] at restRun ⊢
      rw [Nat.add_assoc] at restRun
      exact ⟨⟨oldAt, newAt, by omega, none⟩, restRun⟩

theorem not_isEmpty_of_run {op : Op} {rest : List Op} (isEqual : op.tag = .equal)
    (run : Run (Op.Fits old new anchors) start (op :: rest) stop) : op.isEmpty = false := by
  rw [run_cons_equal isEqual] at run
  have some := run.1.2.2.1
  rw [Op.isEmpty, Bool.and_eq_false_iff, beq_eq_false_iff_ne]
  exact Or.inl (Nat.ne_of_gt some)

/-- What stands before an operation stays as it is when the operations behind it are rewritten. -/
theorem run_behind {before part part' : List Op}
    (leads : ∀ middle, Run (Op.Fits old new anchors) middle part stop →
      Run (Op.Fits old new anchors) middle part' stop)
    (run : Run (Op.Fits old new anchors) start (before ++ part) stop) :
    Run (Op.Fits old new anchors) start (before ++ part') stop := by
  obtain ⟨middle, beforeRun, partRun⟩ := run_append.mp run
  exact run_append.mpr ⟨middle, beforeRun, leads middle partRun⟩

/-! ### Sliding -/

theorem run_keep {count : Nat} {rest : List Op} (some : 0 < count)
    (agree : Agree old new start.oldPlace start.newPlace count)
    (run : Run (Op.Fits old new anchors) ⟨start.kept + count, start.deleted, start.inserted⟩
      rest stop) :
    Run (Op.Fits old new anchors) start (.equal start.oldPlace start.newPlace count :: rest)
      stop :=
  (run_cons_equal rfl).mpr ⟨⟨rfl, rfl, some, rfl, agree⟩, run⟩

theorem agree_append {oldStart newStart first second : Nat}
    (front : Agree old new oldStart newStart first)
    (back : Agree old new (oldStart + first) (newStart + first) second) :
    Agree old new oldStart newStart (first + second) := by
  intro offset within
  by_cases early : offset < first
  · exact front offset early
  · have late := back (offset - first) (by omega)
    rw [show oldStart + first + (offset - first) = oldStart + offset by omega,
      show newStart + first + (offset - first) = newStart + offset by omega] at late
    exact late

theorem agree_front {oldStart newStart first second : Nat}
    (agree : Agree old new oldStart newStart (first + second)) :
    Agree old new oldStart newStart first :=
  fun offset within => agree offset (by omega)

theorem agree_back {oldStart newStart first second : Nat}
    (agree : Agree old new oldStart newStart (first + second)) :
    Agree old new (oldStart + first) (newStart + first) second := by
  intro offset within
  rw [Nat.add_assoc, Nat.add_assoc]
  exact agree (first + offset) (by omega)

theorem agree_last {oldStart newStart count part : Nat}
    (agree : Agree old new oldStart newStart count) (atMost : part ≤ count) :
    Agree old new (oldStart + count - part) (newStart + count - part) part := by
  rw [Nat.add_sub_assoc atMost, Nat.add_sub_assoc atMost]
  apply agree_back
  rw [Nat.sub_add_cancel atMost]
  exact agree

theorem growLeft_of_equal {op : Op} (isEqual : op.tag = .equal) (count : Nat) :
    op.growLeft count =
      ⟨.equal, op.oldStart - count, op.oldCount + count, op.newStart - count, op.newCount + count⟩ := by
  simp only [Op.growLeft, Op.shiftLeft, Op.growRight, isEqual]

/-- Kept elements go in front of a script, into the kept run it starts with if it does. -/
theorem run_keepBehind {run focus : Op} {count : Nat} {after : List Op} (some : 0 < count)
    (oldAt : run.oldStop - count = start.oldPlace) (newAt : focus.newStop - count = start.newPlace)
    (agree : Agree old new start.oldPlace start.newPlace count)
    (afterRun : Run (Op.Fits old new anchors) ⟨start.kept + count, start.deleted, start.inserted⟩
      after stop) :
    Run (Op.Fits old new anchors) start (keepBehind run focus count after) stop := by
  cases after with
  | nil =>
      unfold keepBehind
      rw [oldAt, newAt]
      exact run_keep some agree afterRun
  | cons next rest =>
      rw [keepBehind]
      split
      · rename_i nextTag
        rw [run_cons_equal nextTag] at afterRun
        obtain ⟨⟨nextOld, nextNew, nextSome, sameCount, nextAgree⟩, restRun⟩ := afterRun
        simp only [Tally.oldPlace, Tally.newPlace] at nextOld nextNew
        rw [growLeft_of_equal nextTag, run_cons_equal rfl]
        dsimp only
        rw [show next.oldStart - count = start.oldPlace by unfold Tally.oldPlace; omega,
          show next.newStart - count = start.newPlace by unfold Tally.newPlace; omega]
        refine ⟨⟨rfl, rfl, by omega, by omega, ?_⟩, ?_⟩
        · rw [Nat.add_comm]
          apply agree_append agree
          rw [show start.oldPlace + count = next.oldStart by unfold Tally.oldPlace; omega,
            show start.newPlace + count = next.newStart by unfold Tally.newPlace; omega]
          exact nextAgree
        · rw [show start.kept + (next.oldCount + count) = start.kept + count + next.oldCount by
            omega]
          exact restRun
      · rw [oldAt, newAt]
        exact run_keep some agree afterRun

/-- Kept elements go behind a script, into the kept run it ends with if it does. -/
theorem run_keepBefore {next focus : Op} {count : Nat} {before : List Op} (some : 0 < count)
    (oldAt : next.oldStart = stop.oldPlace) (newAt : focus.newStart = stop.newPlace)
    (agree : Agree old new stop.oldPlace stop.newPlace count)
    (beforeRun : Run (Op.Fits old new anchors) start before.reverse stop) :
    Run (Op.Fits old new anchors) start (keepBefore next focus count before).reverse
      ⟨stop.kept + count, stop.deleted, stop.inserted⟩ := by
  have added : Run (Op.Fits old new anchors) stop [.equal next.oldStart focus.newStart count]
      ⟨stop.kept + count, stop.deleted, stop.inserted⟩ := by
    rw [oldAt, newAt]
    exact run_keep some agree rfl
  cases before with
  | nil =>
      unfold keepBefore
      rw [List.reverse_singleton]
      exact run_append.mpr ⟨stop, beforeRun, added⟩
  | cons previous rest =>
      rw [keepBefore]
      split
      · rename_i previousTag
        have grownTag : (previous.growRight count).tag = .equal := by
          simp only [Op.growRight, previousTag]
        rw [List.reverse_cons] at beforeRun ⊢
        obtain ⟨middle, restRun, previousRun⟩ := run_append.mp beforeRun
        rw [run_cons_equal previousTag] at previousRun
        obtain ⟨⟨previousOld, previousNew, previousSome, sameCount, previousAgree⟩, rfl⟩ :=
          previousRun
        refine run_append.mpr ⟨middle, restRun, ?_⟩
        simp only [Tally.oldPlace, Tally.newPlace] at previousOld previousNew agree
        rw [run_cons_equal grownTag]
        simp only [Op.growRight, previousTag]
        refine ⟨⟨previousOld, previousNew, by omega, by omega, ?_⟩, ?_⟩
        · apply agree_append previousAgree
          rw [show previous.oldStart + previous.oldCount =
              middle.kept + previous.oldCount + middle.deleted by omega,
            show previous.newStart + previous.oldCount =
              middle.kept + previous.oldCount + middle.inserted by omega]
          exact agree
        · rw [Nat.add_assoc]
          rfl
      · rw [List.reverse_cons]
        exact run_append.mpr ⟨stop, beforeRun, added⟩

/-- What is left of a kept run, if anything is. -/
def leftOver (op : Op) : List Op := if op.isEmpty then [] else [op]

theorem run_leftOver_shrinkRight {op : Op} {count : Nat} (isEqual : op.tag = .equal)
    (atMost : count ≤ op.oldCount)
    (fits : Op.Fits old new anchors start op) :
    Run (Op.Fits old new anchors) start (leftOver (op.shrinkRight count))
      ⟨start.kept + (op.oldCount - count), start.deleted, start.inserted⟩ := by
  simp only [Op.Fits, isEqual] at fits
  obtain ⟨oldAt, newAt, some, sameCount, agree⟩ := fits
  unfold leftOver
  split
  · rename_i empty
    simp only [Op.isEmpty, Op.shrinkRight, Bool.and_eq_true, beq_iff_eq] at empty
    rw [empty.1]
    rfl
  · rename_i notEmpty
    simp only [Op.isEmpty, Op.shrinkRight, Bool.and_eq_true, beq_iff_eq, sameCount] at notEmpty
    rw [run_cons_equal (show (op.shrinkRight count).tag = .equal from isEqual)]
    simp only [Op.shrinkRight]
    refine ⟨⟨oldAt, newAt, by omega, by omega, ?_⟩, rfl⟩
    rw [show op.oldCount = (op.oldCount - count) + count by omega] at agree
    exact agree_front agree

theorem run_leftOver_shrinkLeft {op : Op} {count : Nat} (isEqual : op.tag = .equal)
    (atMost : count ≤ op.oldCount) (oldAt : op.oldStart + count = start.oldPlace)
    (newAt : op.newStart + count = start.newPlace) (sameCount : op.newCount = op.oldCount)
    (agree : Agree old new op.oldStart op.newStart op.oldCount) :
    Run (Op.Fits old new anchors) start (leftOver (op.shrinkLeft count))
      ⟨start.kept + (op.oldCount - count), start.deleted, start.inserted⟩ := by
  unfold leftOver
  split
  · rename_i empty
    simp only [Op.isEmpty, Op.shrinkLeft, Op.shiftRight, Op.shrinkRight, Bool.and_eq_true,
      beq_iff_eq] at empty
    rw [empty.1]
    rfl
  · rename_i notEmpty
    simp only [Op.isEmpty, Op.shrinkLeft, Op.shiftRight, Op.shrinkRight, Bool.and_eq_true,
      beq_iff_eq, sameCount] at notEmpty
    rw [run_cons_equal (show (op.shrinkLeft count).tag = .equal from isEqual)]
    simp only [Op.shrinkLeft, Op.shiftRight, Op.shrinkRight]
    refine ⟨⟨oldAt, newAt, by omega, by omega, ?_⟩, rfl⟩
    rw [show op.oldCount = count + (op.oldCount - count) by omega] at agree
    exact agree_back agree

variable [BEq α]

theorem slideUp_insert {run focus : Op} (slides : 0 < slideUp old new run focus) :
    focus.tag = .insert := by
  unfold slideUp at slides
  split at slides
  · assumption
  · exact absurd slides (Nat.lt_irrefl 0)

theorem slideDown_insert {run focus : Op} (slides : 0 < slideDown old new run focus) :
    focus.tag = .insert := by
  unfold slideDown at slides
  split at slides
  · assumption
  · exact absurd slides (Nat.lt_irrefl 0)

variable [LawfulBEq α]

/-- An insertion slides up: the kept elements it passes equal its last ones, so what it inserts
there spells the same sequence. -/
theorem run_slideUp {run focus : Op} {after : List Op} (isEqual : run.tag = .equal)
    (slides : 0 < slideUp old new run focus)
    (runs : Run (Op.Fits old new anchors) start (run :: focus :: after) stop) :
    Run (Op.Fits old new anchors) start
      (leftOver (run.shrinkRight (slideUp old new run focus)) ++
        focus.shiftLeft (slideUp old new run focus) ::
          keepBehind run focus (slideUp old new run focus) after) stop := by
  have isInsert := slideUp_insert slides
  have fits := runs.1
  rw [run_cons_equal isEqual, run_cons_insert isInsert] at runs
  obtain ⟨⟨oldAt, newAt, some, sameCount, agree⟩, ⟨focusOld, focusNew, focusSome, focusNone⟩,
    afterRun⟩ := runs
  have atMost := slideUp_le old new run focus
  have ownAtMost : slideUp old new run focus ≤ focus.newCount := by
    unfold slideUp
    rw [if_pos isInsert]
    exact Nat.le_trans (commonBack_le ..) (Nat.min_le_right ..)
  have passed : Agree old new (run.oldStop - slideUp old new run focus)
      (focus.newStop - slideUp old new run focus) (slideUp old new run focus) := by
    unfold slideUp
    rw [if_pos isInsert]
    apply agree_commonBack
    · unfold Op.oldStop
      omega
    · unfold Op.newStop
      omega
  generalize slideUp old new run focus = count at slides atMost ownAtMost passed ⊢
  refine run_append.mpr ⟨_, run_leftOver_shrinkRight isEqual atMost fits, ?_⟩
  rw [run_cons_insert (show (focus.shiftLeft count).tag = .insert from isInsert)]
  simp only [Op.shiftLeft, Tally.oldPlace, Tally.newPlace] at oldAt newAt focusOld focusNew ⊢
  refine ⟨⟨by omega, by omega, focusSome, focusNone⟩, ?_⟩
  have oldBehind : run.oldStop - count = start.kept + (run.oldCount - count) + start.deleted := by
    unfold Op.oldStop
    omega
  have newBehind : focus.newStop - count =
      start.kept + (run.oldCount - count) + (start.inserted + focus.newCount) := by
    unfold Op.newStop
    omega
  rw [oldBehind, newBehind] at passed
  refine run_keepBehind slides oldBehind newBehind passed ?_
  rw [show start.kept + (run.oldCount - count) + count = start.kept + run.oldCount by omega]
  exact afterRun

/-- An insertion slides down: the kept elements it passes equal its first ones. -/
theorem run_slideDown {next focus : Op} {before rest : List Op} (isEqual : next.tag = .equal)
    (slides : 0 < slideDown old new next focus)
    (runs : Run (Op.Fits old new anchors) start (before.reverse ++ focus :: next :: rest) stop) :
    Run (Op.Fits old new anchors) start
      ((keepBefore next focus (slideDown old new next focus) before).reverse ++
        focus.shiftRight (slideDown old new next focus) ::
          (leftOver (next.shrinkLeft (slideDown old new next focus)) ++ rest)) stop := by
  have isInsert := slideDown_insert slides
  obtain ⟨middle, beforeRun, focusRun⟩ := run_append.mp runs
  rw [run_cons_insert isInsert, run_cons_equal isEqual] at focusRun
  obtain ⟨⟨focusOld, focusNew, focusSome, focusNone⟩, ⟨oldAt, newAt, some, sameCount, agree⟩,
    restRun⟩ := focusRun
  have atMost := slideDown_le old new next focus
  have passed : Agree old new next.oldStart focus.newStart (slideDown old new next focus) := by
    unfold slideDown
    rw [if_pos isInsert]
    apply agree_commonFront
  generalize slideDown old new next focus = count at slides atMost passed ⊢
  simp only [Tally.oldPlace, Tally.newPlace] at oldAt newAt
  refine run_append.mpr ⟨_, run_keepBefore slides oldAt focusNew
    (by rw [focusNew, oldAt] at passed; exact passed) beforeRun, ?_⟩
  rw [run_cons_insert (show (focus.shiftRight count).tag = .insert from isInsert)]
  simp only [Op.shiftRight, Tally.newPlace] at focusNew ⊢
  refine ⟨⟨by omega, by omega, focusSome, focusNone⟩, ?_⟩
  refine run_append.mpr ⟨_, run_leftOver_shrinkLeft isEqual atMost ?_ ?_ sameCount agree, ?_⟩
  · simp only [Tally.oldPlace]
    omega
  · simp only [Tally.newPlace]
    omega
  · simp only
    rw [show middle.kept + count + (next.oldCount - count) = middle.kept + next.oldCount by omega]
    exact restRun

/-! ### Settling -/

def Focused.ops (focused : Focused) : List Op :=
  focused.before.reverse ++ focused.focus :: focused.after

theorem run_moveUp (before : List Op) (focus : Op) (after : List Op) (moves : focus.tag.Moves)
    (run : Run (Op.Fits old new anchors) start (before.reverse ++ focus :: after) stop) :
    (moveUp old new before focus after).focus.tag.Moves ∧
      Run (Op.Fits old new anchors) start (moveUp old new before focus after).ops stop := by
  fun_induction moveUp old new before focus after with
  | case1 focus after => exact ⟨moves, run⟩
  | case2 focus after previous rest isEqual slides count kept empty ih =>
      rw [List.reverse_cons, List.append_assoc] at run
      refine ih moves (run_behind (fun middle part => ?_) run)
      have slid := run_slideUp isEqual slides part
      rw [leftOver, if_pos empty] at slid
      exact slid
  | case3 focus after previous rest isEqual slides count kept notEmpty ih =>
      rw [List.reverse_cons, List.append_assoc] at run
      refine ih moves ?_
      rw [List.reverse_cons, List.append_assoc]
      refine run_behind (fun middle part => ?_) run
      have slid := run_slideUp isEqual slides part
      rw [leftOver, if_neg notEmpty] at slid
      exact slid
  | case4 focus after previous rest isEqual still empty ih =>
      rw [List.reverse_cons, List.append_assoc] at run
      obtain ⟨middle, _, part⟩ := run_append.mp run
      rw [not_isEmpty_of_run isEqual part] at empty
      cases empty
  | case5 focus after previous rest isEqual still notEmpty => exact ⟨moves, run⟩
  | case6 focus after previous rest notEqual sameTag ih =>
      rw [List.reverse_cons, List.append_assoc] at run
      refine ih ?_ (run_behind (fun middle part => run_grow sameTag notEqual part) run)
      rw [growRight_tag, sameTag]
      exact moves
  | case7 focus after previous rest notEqual otherTag ih =>
      rw [List.reverse_cons, List.append_assoc] at run
      refine ih moves (run_behind (fun middle part => ?_) run)
      exact run_swap (moves_of_run notEqual part) moves otherTag part

theorem run_moveDown (before : List Op) (focus : Op) (after : List Op) (moves : focus.tag.Moves)
    (run : Run (Op.Fits old new anchors) start (before.reverse ++ focus :: after) stop) :
    Run (Op.Fits old new anchors) start (moveDown old new before focus after).ops stop := by
  fun_induction moveDown old new before focus after with
  | case1 before focus => exact run
  | case2 before focus next rest isEqual slides count kept empty ih =>
      have slid := run_slideDown isEqual slides run
      rw [leftOver, if_pos empty] at slid
      exact ih moves slid
  | case3 before focus next rest isEqual slides count kept notEmpty ih =>
      have slid := run_slideDown isEqual slides run
      rw [leftOver, if_neg notEmpty] at slid
      exact ih moves slid
  | case4 before focus next rest isEqual still empty ih =>
      obtain ⟨middle, _, part⟩ := run_append.mp run
      rw [not_isEmpty_of_run isEqual part.2] at empty
      cases empty
  | case5 before focus next rest isEqual still notEmpty => exact run
  | case6 before focus next rest notEqual sameTag ih =>
      refine ih ?_ (run_behind (fun middle part => ?_) run)
      · rw [growRight_tag]
        exact moves
      · exact run_grow sameTag.symm (sameTag ▸ notEqual) part
  | case7 before focus next rest notEqual otherTag ih =>
      refine ih moves ?_
      rw [List.reverse_cons, List.append_assoc]
      refine run_behind (fun middle part => ?_) run
      exact run_swap moves (moves_of_run notEqual part.2) (Ne.symm otherTag) part

theorem run_settleTag (tag : Tag) (moves : tag.Moves) (bound : Nat) (before after : List Op)
    (run : Run (Op.Fits old new anchors) start (before.reverse ++ after) stop) :
    Run (Op.Fits old new anchors) start (settleTag old new tag bound before after) stop := by
  fun_induction settleTag old new tag bound before after with
  | case1 before after => exact run
  | case2 bound before =>
      rw [List.append_nil] at run
      exact run
  | case3 bound before op after isTag up down ih =>
      have upRun := run_moveUp before op after (isTag ▸ moves) run
      have downRun := run_moveDown _ _ _ upRun.1 upRun.2
      refine ih ?_
      rw [List.reverse_cons, List.append_assoc]
      exact downRun
  | case4 bound before op after otherTag ih =>
      refine ih ?_
      rw [List.reverse_cons, List.append_assoc]
      exact run

theorem run_settle {ops : List Op} (run : Run (Op.Fits old new anchors) start ops stop) :
    Run (Op.Fits old new anchors) start (settle old new ops) stop :=
  run_settleTag .insert (Or.inl rfl) _ [] _ (run_settleTag .delete (Or.inr rfl) _ [] ops run)

end

/-! ### Anchors of a script -/

def Op.count (op : Op) : Nat :=
  match op.tag with
  | .insert => op.newCount
  | _ => op.oldCount

/-- How many elements are under operations of the kind `counted` in front of the element with number
`rank` under operations of the kind `marked`. -/
def countAhead (counted marked : Tag) : List Op → Nat → Nat
  | [], _ => 0
  | op :: rest, rank =>
      if op.tag = counted then op.count + countAhead counted marked rest rank
      else if op.tag = marked then
        if rank < op.count then 0 else countAhead counted marked rest (rank - op.count)
      else countAhead counted marked rest rank

/-- Where the empty ranges of a script are if all of its ranges are where they stand. -/
def anchorsOf (ops : List Op) : Anchors :=
  ⟨countAhead .insert .delete ops, countAhead .delete .insert ops⟩

/-- The anchors of a script from some tally on. -/
def Anchors.Follow (anchors : Anchors) (tally : Tally) (ops : List Op) : Prop :=
  ∀ rank, anchors.inserted (tally.deleted + rank) =
      tally.inserted + (anchorsOf ops).inserted rank ∧
    anchors.deleted (tally.inserted + rank) = tally.deleted + (anchorsOf ops).deleted rank

theorem follow_anchorsOf (ops : List Op) : (anchorsOf ops).Follow Tally.zero ops := by
  intro rank
  simp only [Tally.zero, Nat.zero_add, and_self]

section

variable {α : Type} {old new : Array α} {anchors : Anchors} {start stop : Tally}

/-- The anchors of a script are those of what is left of it behind its first operation. -/
theorem Anchors.Follow.next {op : Op} {rest : List Op} (follow : anchors.Follow start (op :: rest))
    (stands : op.Exact old new start) : anchors.Follow (start.next op) rest := by
  intro rank
  obtain ⟨_, _, shape⟩ := stands
  cases tagEq : op.tag with
  | replace =>
      rw [tagEq] at shape
      exact shape.elim
  | equal =>
      have here := follow rank
      simp only [anchorsOf, countAhead, tagEq, reduceCtorEq, if_false] at here
      simp only [Tally.next, tagEq]
      exact here
  | delete =>
      -- ranks of deleted elements start behind the operation, those of inserted ones do not
      have inserted := (follow (op.oldCount + rank)).1
      have deleted := (follow rank).2
      simp only [anchorsOf, countAhead, tagEq, reduceCtorEq, if_false, if_true, Op.count]
        at inserted deleted
      rw [if_neg (by omega), Nat.add_sub_cancel_left, ← Nat.add_assoc] at inserted
      rw [← Nat.add_assoc] at deleted
      simp only [Tally.next, tagEq]
      exact ⟨inserted, deleted⟩
  | insert =>
      have inserted := (follow rank).1
      have deleted := (follow (op.newCount + rank)).2
      simp only [anchorsOf, countAhead, tagEq, reduceCtorEq, if_false, if_true, Op.count]
        at inserted deleted
      rw [if_neg (by omega), Nat.add_sub_cancel_left, ← Nat.add_assoc] at deleted
      rw [← Nat.add_assoc] at inserted
      simp only [Tally.next, tagEq]
      exact ⟨inserted, deleted⟩

/-- An operation whose ranges are all where it stands fits the anchors of its own script. -/
theorem Op.Exact.fits {op : Op} {rest : List Op} (stands : op.Exact old new start)
    (follow : anchors.Follow start (op :: rest)) : op.Fits old new anchors start := by
  obtain ⟨oldAt, newAt, shape⟩ := stands
  cases tagEq : op.tag with
  | replace =>
      rw [tagEq] at shape
      exact shape.elim
  | equal =>
      simp only [Op.Fits, tagEq] at shape ⊢
      exact ⟨oldAt, newAt, shape⟩
  | delete =>
      simp only [Op.Fits, tagEq] at shape ⊢
      have first := (follow 0).1
      simp only [anchorsOf, countAhead, tagEq, reduceCtorEq, if_false, if_true, Op.count,
        if_pos shape.1, Nat.add_zero] at first
      exact ⟨oldAt, by rw [newAt, first]; rfl, shape⟩
  | insert =>
      simp only [Op.Fits, tagEq] at shape ⊢
      have first := (follow 0).2
      simp only [anchorsOf, countAhead, tagEq, reduceCtorEq, if_false, if_true, Op.count,
        if_pos shape.1, Nat.add_zero] at first
      exact ⟨by rw [oldAt, first]; rfl, newAt, shape⟩

theorem run_fits_of_exact {ops : List Op} (follow : anchors.Follow start ops)
    (run : Run (Op.Exact old new) start ops stop) :
    Run (Op.Fits old new anchors) start ops stop := by
  induction ops generalizing start with
  | nil => exact run
  | cons op rest ih =>
      obtain ⟨stands, restRun⟩ := run
      exact ⟨stands.fits follow, ih (follow.next stands) restRun⟩

/-! ### Joining -/

/-- An operation of a joined script: as before joining, or a replacement at both of its ranges. -/
def Op.FitsJoined (old new : Array α) (anchors : Anchors) (tally : Tally) (op : Op) : Prop :=
  match op.tag with
  | .replace =>
      op.oldStart = tally.oldPlace ∧ op.newStart = tally.newPlace ∧
        0 < op.oldCount ∧ 0 < op.newCount
  | _ => op.Fits old new anchors tally

theorem fitsJoined_of_fits {op : Op} (fits : op.Fits old new anchors start) :
    op.FitsJoined old new anchors start := by
  cases tagEq : op.tag <;> simp only [Op.FitsJoined, Op.Fits, tagEq] at fits ⊢ <;> exact fits

theorem run_joinRun {first second : Op} {rest : List Op} (sameTag : first.tag = second.tag)
    (run : Run (Op.Fits old new anchors) start (first :: second :: rest) stop) :
    Run (Op.Fits old new anchors) start (joinRun (some first) second :: rest) stop := by
  have joinedTag : (joinRun (some first) second).tag = first.tag := rfl
  cases firstTag : first.tag with
  | replace => exact absurd firstTag (run_cons_not_replace run)
  | equal =>
      rw [run_cons_equal firstTag, run_cons_equal (sameTag ▸ firstTag)] at run
      obtain ⟨⟨oldAt, newAt, some, sameCount, agree⟩, ⟨oldAt', newAt', _, sameCount', agree'⟩,
        restRun⟩ := run
      rw [run_cons_equal (joinedTag.trans firstTag)]
      simp only [joinRun, Tally.oldPlace, Tally.newPlace] at *
      rw [Nat.add_assoc] at restRun
      refine ⟨⟨oldAt, newAt, by omega, by omega, agree_append agree ?_⟩, restRun⟩
      rw [show first.oldStart + first.oldCount = second.oldStart by omega,
        show first.newStart + first.oldCount = second.newStart by omega]
      exact agree'
  | delete =>
      rw [run_cons_delete firstTag, run_cons_delete (sameTag ▸ firstTag)] at run
      obtain ⟨⟨oldAt, newAt, some, none⟩, ⟨_, _, _, none'⟩, restRun⟩ := run
      rw [run_cons_delete (joinedTag.trans firstTag)]
      simp only [joinRun]
      rw [Nat.add_assoc] at restRun
      exact ⟨⟨oldAt, newAt, by omega, by omega⟩, restRun⟩
  | insert =>
      rw [run_cons_insert firstTag, run_cons_insert (sameTag ▸ firstTag)] at run
      obtain ⟨⟨oldAt, newAt, some, none⟩, ⟨_, _, _, none'⟩, restRun⟩ := run
      rw [run_cons_insert (joinedTag.trans firstTag)]
      simp only [joinRun]
      rw [Nat.add_assoc] at restRun
      exact ⟨⟨oldAt, newAt, by omega, by omega⟩, restRun⟩

/-- The runs that joining has at hand are of the kinds they are meant to be, and there is no kept
one beside a change. -/
structure Pending (kept deleted inserted : Option Op) : Prop where
  keptTag : ∀ op, kept = some op → op.tag = .equal
  deletedTag : ∀ op, deleted = some op → op.tag = .delete
  insertedTag : ∀ op, inserted = some op → op.tag = .insert
  apart : kept = none ∨ (deleted = none ∧ inserted = none)

theorem pending_none : Pending none none none :=
  ⟨fun _ impossible => (by cases impossible), fun _ impossible => (by cases impossible),
    fun _ impossible => (by cases impossible), Or.inl rfl⟩

theorem run_joinChange {kept deleted inserted : Option Op} (pending : Pending kept deleted inserted)
    (run : Run (Op.Fits old new anchors) start (deleted.toList ++ inserted.toList) stop) :
    Run (Op.FitsJoined old new anchors) start (joinChange deleted inserted) stop := by
  cases deleted with
  | none =>
      cases inserted with
      | none => exact run
      | some insertion => exact run_mono (fun _ _ => fitsJoined_of_fits) run
  | some deletion =>
      cases inserted with
      | none => exact run_mono (fun _ _ => fitsJoined_of_fits) run
      | some insertion =>
          have isDelete := pending.deletedTag deletion rfl
          have isInsert := pending.insertedTag insertion rfl
          change Run _ start (deletion :: insertion :: []) stop at run
          rw [run_cons_delete isDelete, run_cons_insert isInsert] at run
          obtain ⟨⟨oldAt, _, someOld, _⟩, ⟨_, newAt, someNew, _⟩, stopEq⟩ := run
          exact ⟨⟨oldAt, newAt, someOld, someNew⟩, stopEq⟩

theorem joinRun_tag {earlier : Option Op} {op : Op}
    (sameTag : ∀ first, earlier = some first → first.tag = op.tag) :
    (joinRun earlier op).tag = op.tag := by
  cases earlier with
  | none => rfl
  | some first => exact sameTag first rfl

theorem run_joinRun_toList {earlier : Option Op} {op : Op} {rest : List Op}
    (sameTag : ∀ first, earlier = some first → first.tag = op.tag)
    (run : Run (Op.Fits old new anchors) start (earlier.toList ++ op :: rest) stop) :
    Run (Op.Fits old new anchors) start (joinRun earlier op :: rest) stop := by
  cases earlier with
  | none => exact run
  | some first => exact run_joinRun (sameTag first rfl) run

/-- A deletion moves in front of the insertion at hand. -/
theorem run_delete_first {inserted : Option Op} {op : Op} {rest : List Op}
    (insertedTag : ∀ insertion, inserted = some insertion → insertion.tag = .insert)
    (isDelete : op.tag = .delete)
    (run : Run (Op.Fits old new anchors) start (inserted.toList ++ op :: rest) stop) :
    Run (Op.Fits old new anchors) start (op :: (inserted.toList ++ rest)) stop := by
  cases inserted with
  | none => exact run
  | some insertion => exact run_swap_insert isDelete (insertedTag insertion rfl) run

theorem pending_kept {op : Op} (isEqual : op.tag = .equal) : Pending (some op) none none :=
  ⟨fun _ same => Option.some.inj same ▸ isEqual, fun _ impossible => (by cases impossible),
    fun _ impossible => (by cases impossible), Or.inr ⟨rfl, rfl⟩⟩

theorem pending_change {deleted inserted : Option Op}
    (deletedTag : ∀ op, deleted = some op → op.tag = .delete)
    (insertedTag : ∀ op, inserted = some op → op.tag = .insert) : Pending none deleted inserted :=
  ⟨fun _ impossible => (by cases impossible), deletedTag, insertedTag, Or.inl rfl⟩

section

variable {kept deleted inserted : Option Op} {op : Op}

theorem Pending.equal (pending : Pending kept deleted inserted) (isEqual : op.tag = .equal) :
    Pending (some (joinRun kept op)) none none :=
  pending_kept ((joinRun_tag fun first same =>
    (pending.keptTag first same).trans isEqual.symm).trans isEqual)

theorem Pending.delete (pending : Pending kept deleted inserted) (isDelete : op.tag = .delete) :
    Pending none (some (joinRun deleted op)) inserted := by
  refine pending_change ?_ pending.insertedTag
  intro joined same
  rw [← Option.some.inj same, joinRun_tag fun first same =>
    (pending.deletedTag first same).trans isDelete.symm]
  exact isDelete

theorem Pending.insert (pending : Pending kept deleted inserted) (isInsert : op.tag = .insert) :
    Pending none deleted (some (joinRun inserted op)) := by
  refine pending_change pending.deletedTag ?_
  intro joined same
  rw [← Option.some.inj same, joinRun_tag fun first same =>
    (pending.insertedTag first same).trans isInsert.symm]
  exact isInsert

end

theorem run_joinFrom (ops : List Op) :
    ∀ (kept deleted inserted : Option Op) (start : Tally), Pending kept deleted inserted →
      Run (Op.Fits old new anchors) start
        (kept.toList ++ (deleted.toList ++ (inserted.toList ++ ops))) stop →
      Run (Op.FitsJoined old new anchors) start (joinFrom kept deleted inserted ops) stop := by
  induction ops with
  | nil =>
      intro kept deleted inserted start pending run
      rw [List.append_nil] at run
      obtain ⟨middle, keptRun, changeRun⟩ := run_append.mp run
      exact run_append.mpr ⟨middle, run_mono (fun _ _ => fitsJoined_of_fits) keptRun,
        run_joinChange pending changeRun⟩
  | cons op rest ih =>
      intro kept deleted inserted start pending run
      obtain ⟨behindKept, keptRun, afterKept⟩ := run_append.mp run
      have keptJoined := run_mono (fun _ _ => fitsJoined_of_fits) keptRun
      rw [joinFrom]
      cases tagEq : op.tag with
      | replace =>
          obtain ⟨_, _, afterDeleted⟩ := run_append.mp afterKept
          obtain ⟨_, _, opRun⟩ := run_append.mp afterDeleted
          exact absurd tagEq (run_cons_not_replace opRun)
      | equal =>
          simp only
          rcases pending.apart with rfl | ⟨rfl, rfl⟩
          · rw [Option.toList_none, List.nil_append, ← List.append_assoc] at run
            obtain ⟨middle, changeRun, opRun⟩ := run_append.mp run
            exact run_append.mpr ⟨middle, run_joinChange pending changeRun,
              ih _ _ _ middle (pending.equal tagEq) opRun⟩
          · refine ih _ _ _ start (pending.equal tagEq) (run_joinRun_toList ?_ run)
            intro first same
            rw [pending.keptTag first same, tagEq]
      | delete =>
          simp only
          refine run_append.mpr ⟨behindKept, keptJoined, ?_⟩
          have sameTag (first : Op) (same : deleted = some first) : first.tag = op.tag := by
            rw [pending.deletedTag first same, tagEq]
          exact ih _ _ _ behindKept (pending.delete tagEq) (run_joinRun_toList sameTag
            (run_behind (fun middle part => run_delete_first pending.insertedTag tagEq part)
              afterKept))
      | insert =>
          simp only
          refine run_append.mpr ⟨behindKept, keptJoined, ?_⟩
          have sameTag (first : Op) (same : inserted = some first) : first.tag = op.tag := by
            rw [pending.insertedTag first same, tagEq]
          refine ih _ _ _ behindKept (pending.insert tagEq) ?_
          rw [Option.toList_none, List.nil_append]
          exact run_behind (fun middle part => run_joinRun_toList sameTag part) afterKept

theorem run_join {ops : List Op} (run : Run (Op.Fits old new anchors) start ops stop) :
    Run (Op.FitsJoined old new anchors) start (join ops) stop :=
  run_joinFrom ops none none none start pending_none run

end

end Codemod.Diff
