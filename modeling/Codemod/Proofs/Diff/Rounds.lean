import Codemod.Proofs.Diff.Settle

/-!
Settling ends before its rounds do.

An operation that moves up without being joined to another moves down again at least as far, since
what it slid past can be slid past the other way. So a round passes an operation for good, or there
is one operation less of the kind that is settled.

Main statement: in a script of two sequences every operation of the one kind is settled, and then
every operation of the other kind.
-/

set_option autoImplicit false

namespace Codemod.Diff

section

variable {α : Type} [BEq α] {old new : Array α}

/-! ### Common front ends in two parts -/

theorem commonFront_add (old new : Array α) (oldStart newStart first second : Nat) :
    commonFront old new oldStart newStart (first + second) =
      if commonFront old new oldStart newStart first = first then
        first + commonFront old new (oldStart + first) (newStart + first) second
      else commonFront old new oldStart newStart first := by
  induction first generalizing oldStart newStart with
  | zero => simp only [commonFront, Nat.zero_add, Nat.add_zero, if_true]
  | succ first ih =>
      rw [Nat.add_right_comm, commonFront, commonFront, ih]
      by_cases same : (old[oldStart]? == new[newStart]?) = true
      · simp only [if_pos same, Nat.add_right_cancel_iff]
        split
        · rw [Nat.add_right_comm first 1, Nat.add_assoc oldStart, Nat.add_assoc newStart,
            Nat.add_comm 1]
        · rfl
      · simp only [if_neg same]
        rw [if_neg (Nat.succ_ne_zero first).symm]

theorem commonFront_of_agree [LawfulBEq α] {oldStart newStart count : Nat}
    (agree : Agree old new oldStart newStart count) :
    commonFront old new oldStart newStart count = count := by
  induction count generalizing oldStart newStart with
  | zero => rfl
  | succ count ih =>
      have first : old[oldStart]? = new[newStart]? := agree 0 (Nat.succ_pos count)
      have rest : Agree old new (oldStart + 1) (newStart + 1) count := by
        intro offset within
        rw [Nat.add_assoc, Nat.add_assoc, Nat.add_comm 1]
        exact agree (offset + 1) (Nat.succ_lt_succ within)
      rw [commonFront, if_pos (beq_iff_eq.mpr first), ih rest]

/-! ### The way down -/

/-- What an operation becomes when it has moved down as far as it can, and what is behind it then. -/
def descent (old new : Array α) (focus : Op) (after : List Op) : Op × List Op :=
  ((moveDown old new [] focus after).focus, (moveDown old new [] focus after).after)

/-- What stands before an operation does not matter on its way down. -/
theorem moveDown_eq_descent (before : List Op) (focus : Op) (after : List Op) :
    (moveDown old new before focus after).focus = (descent old new focus after).1 ∧
      (moveDown old new before focus after).after = (descent old new focus after).2 := by
  unfold descent
  generalize ([] : List Op) = other
  fun_induction moveDown old new before focus after generalizing other with
  | case1 before focus =>
      rw [moveDown]
      exact ⟨rfl, rfl⟩
  | case2 before focus next rest isEqual slides count kept empty ih =>
      rw [moveDown.eq_2 old new other, if_pos isEqual, if_pos slides, if_pos empty]
      exact ih _
  | case3 before focus next rest isEqual slides count kept notEmpty ih =>
      rw [moveDown.eq_2 old new other focus, if_pos isEqual, if_pos slides, if_neg notEmpty]
      exact ih _
  | case4 before focus next rest isEqual still empty ih =>
      rw [moveDown.eq_2 old new other, if_pos isEqual, if_neg still, if_pos empty]
      exact ih _
  | case5 before focus next rest isEqual still notEmpty =>
      rw [moveDown.eq_2 old new other, if_pos isEqual, if_neg still, if_neg notEmpty]
      exact ⟨rfl, rfl⟩
  | case6 before focus next rest notEqual sameTag ih =>
      rw [moveDown.eq_2 old new other, if_neg notEqual, if_pos sameTag]
      exact ih _
  | case7 before focus next rest notEqual otherTag ih =>
      rw [moveDown.eq_2 old new other, if_neg notEqual, if_neg otherTag]
      exact ih _

section

variable {focus next : Op} {rest : List Op}

theorem descent_passes (notEqual : next.tag ≠ .equal) (otherTag : next.tag ≠ focus.tag) :
    descent old new focus (next :: rest) = descent old new focus rest := by
  rw [descent, moveDown, if_neg notEqual, if_neg otherTag]
  exact Prod.ext (moveDown_eq_descent ..).1 (moveDown_eq_descent ..).2

theorem descent_slides (isEqual : next.tag = .equal) (slides : 0 < slideDown old new next focus) :
    descent old new focus (next :: rest) =
      descent old new (focus.shiftRight (slideDown old new next focus))
        (leftOver (next.shrinkLeft (slideDown old new next focus)) ++ rest) := by
  rw [descent, moveDown, if_pos isEqual, if_pos slides, leftOver]
  split
  · rename_i empty
    simp only [empty, if_true]
    exact Prod.ext (moveDown_eq_descent ..).1 (moveDown_eq_descent ..).2
  · rename_i notEmpty
    simp only [notEmpty]
    exact Prod.ext (moveDown_eq_descent ..).1 (moveDown_eq_descent ..).2

theorem descent_stops (isEqual : next.tag = .equal) (some : 0 < next.oldCount)
    (still : slideDown old new next focus = 0) :
    descent old new focus (next :: rest) = (focus, next :: rest) := by
  have notEmpty : ¬ next.isEmpty = true := by
    rw [Op.isEmpty, Bool.and_eq_true, beq_iff_eq]
    exact fun both => Nat.ne_of_gt some both.1
  rw [descent, moveDown, if_pos isEqual, if_neg (Nat.not_lt.mpr (Nat.le_of_eq still)),
    if_neg notEmpty]

variable [LawfulBEq α]

theorem shiftRight_shiftRight (op : Op) (first second : Nat) :
    (op.shiftRight first).shiftRight second = op.shiftRight (first + second) := by
  simp only [Op.shiftRight, Nat.add_assoc]

theorem shrinkLeft_shrinkLeft (op : Op) (first second : Nat) :
    (op.shrinkLeft first).shrinkLeft second = op.shrinkLeft (first + second) := by
  simp only [Op.shrinkLeft, Op.shiftRight, Op.shrinkRight, Nat.add_assoc, Nat.sub_sub]

/-- The lines with which a kept run goes on like the insertion in front of it. -/
def shared (old new : Array α) (focus run : Op) : Nat :=
  commonFront old new run.oldStart focus.newStart run.oldCount

/-- What comes of an insertion in front of a kept run: it gets past the whole run, or it stays between
the shared lines and the others. -/
def glide (old new : Array α) (focus run : Op) (rest : List Op) : Op × List Op :=
  if shared old new focus run = run.oldCount then
    descent old new (focus.shiftRight run.oldCount) rest
  else
    (focus.shiftRight (shared old new focus run), run.shrinkLeft (shared old new focus run) :: rest)

section

variable {count : Nat} (agree : Agree old new next.oldStart focus.newStart count)
include agree

theorem shared_shift (atMost : count ≤ next.oldCount) :
    shared old new focus next =
      count + shared old new (focus.shiftRight count) (next.shrinkLeft count) := by
  have parts := commonFront_add old new next.oldStart focus.newStart count
    (next.oldCount - count)
  rw [if_pos (commonFront_of_agree agree), Nat.add_sub_cancel' atMost] at parts
  exact parts

/-- It makes no difference if the insertion has slid past some of the shared lines already. -/
theorem glide_shift (atMost : count ≤ next.oldCount) :
    glide old new focus next rest =
      if count = next.oldCount then descent old new (focus.shiftRight count) rest
      else glide old new (focus.shiftRight count) (next.shrinkLeft count) rest := by
  split
  · rename_i all
    rw [all] at agree ⊢
    exact if_pos (commonFront_of_agree agree)
  · have whole : count + (next.shrinkLeft count).oldCount = next.oldCount :=
      Nat.add_sub_cancel' atMost
    unfold glide
    rw [shared_shift agree atMost, shiftRight_shiftRight, shiftRight_shiftRight,
      shrinkLeft_shrinkLeft, whole]
    split
    · rw [if_pos (by omega)]
    · rw [if_neg (by omega)]

end

theorem leftOver_shrinkLeft {count : Nat} (sameCount : next.newCount = next.oldCount)
    (atMost : count ≤ next.oldCount) :
    leftOver (next.shrinkLeft count) =
      if count = next.oldCount then [] else [next.shrinkLeft count] := by
  unfold leftOver
  simp only [Op.isEmpty, Op.shrinkLeft, Op.shiftRight, Op.shrinkRight, sameCount, Bool.and_self,
    beq_iff_eq]
  split
  · rw [if_pos (by omega)]
  · rw [if_neg (by omega)]

/-- However many lines an insertion slides at a time, it gets past the shared ones. -/
theorem descent_kept (focus next : Op) (rest : List Op) (isInsert : focus.tag = .insert)
    (inserts : 0 < focus.newCount) (isEqual : next.tag = .equal) (some : 0 < next.oldCount)
    (sameCount : next.newCount = next.oldCount) :
    descent old new focus (next :: rest) = glide old new focus next rest := by
  have chunk : slideDown old new next focus =
      commonFront old new next.oldStart focus.newStart (min next.oldCount focus.newCount) :=
    if_pos isInsert
  by_cases still : slideDown old new next focus = 0
  · have none : shared old new focus next = 0 := by
      have parts := commonFront_add old new next.oldStart focus.newStart
        (min next.oldCount focus.newCount) (next.oldCount - min next.oldCount focus.newCount)
      rw [← chunk, still, if_neg (by omega)] at parts
      rw [← parts, Nat.add_sub_cancel' (Nat.min_le_left ..)]
      rfl
    rw [descent_stops isEqual some still, glide, none, if_neg (by omega)]
    rfl
  · have agree : Agree old new next.oldStart focus.newStart (slideDown old new next focus) := by
      rw [chunk]
      exact agree_commonFront old new _ _ _
    have atMost := slideDown_le old new next focus
    have slides := Nat.pos_of_ne_zero still
    rw [descent_slides isEqual slides]
    generalize slideDown old new next focus = count at agree atMost slides
    rw [leftOver_shrinkLeft sameCount atMost, glide_shift agree atMost]
    split
    · rfl
    · rename_i notAll
      exact descent_kept _ _ rest isInsert inserts isEqual
        (Nat.sub_pos_of_lt (Nat.lt_of_le_of_ne atMost notAll)) (congrArg (· - count) sameCount)
termination_by next.oldCount
decreasing_by exact Nat.sub_lt some slides

/-- An insertion that has slid past shared lines comes to where it would have come without. -/
theorem descent_agree (focus next : Op) (rest : List Op) {count : Nat}
    (isInsert : focus.tag = .insert) (inserts : 0 < focus.newCount) (isEqual : next.tag = .equal)
    (some : 0 < next.oldCount) (sameCount : next.newCount = next.oldCount)
    (atMost : count ≤ next.oldCount) (agree : Agree old new next.oldStart focus.newStart count) :
    descent old new focus (next :: rest) =
      descent old new (focus.shiftRight count) (leftOver (next.shrinkLeft count) ++ rest) := by
  rw [descent_kept focus next rest isInsert inserts isEqual some sameCount,
    leftOver_shrinkLeft sameCount atMost, glide_shift agree atMost]
  split
  · rfl
  · rename_i notAll
    have less : count < next.oldCount := Nat.lt_of_le_of_ne atMost notAll
    exact (descent_kept (focus.shiftRight count) (next.shrinkLeft count) rest isInsert inserts
      isEqual (Nat.sub_pos_of_lt less) (congrArg (· - count) sameCount)).symm

end

/-! ### Up and down again -/

theorem shiftRight_shiftLeft {op : Op} {count : Nat} (oldFar : count ≤ op.oldStart)
    (newFar : count ≤ op.newStart) : (op.shiftLeft count).shiftRight count = op := by
  simp only [Op.shiftLeft, Op.shiftRight, Nat.sub_add_cancel oldFar, Nat.sub_add_cancel newFar]

theorem shrinkLeft_growLeft {op : Op} {count : Nat} (isEqual : op.tag = .equal)
    (oldFar : count ≤ op.oldStart) (newFar : count ≤ op.newStart) :
    (op.growLeft count).shrinkLeft count = op := by
  rw [growLeft_of_equal isEqual]
  simp only [Op.shrinkLeft, Op.shiftRight, Op.shrinkRight, Nat.sub_add_cancel oldFar,
    Nat.sub_add_cancel newFar, Nat.add_sub_cancel]
  rw [← isEqual]

variable [LawfulBEq α] {anchors : Anchors} {start stop : Tally}

/-- An insertion comes back from where it slid up to, past the lines that it left behind. -/
theorem descent_keepBehind {run focus : Op} {count : Nat} {after : List Op}
    (isInsert : focus.tag = .insert) (inserts : 0 < focus.newCount) (some : 0 < count)
    (oldFar : count ≤ focus.oldStart) (newFar : count ≤ focus.newStart)
    (runFar : count ≤ run.oldStop)
    (passed : Agree old new (run.oldStop - count) (focus.shiftLeft count).newStart count)
    (afterRun : Run (Op.Fits old new anchors) start after stop)
    (oldAt : run.oldStop = start.oldPlace) (newAt : focus.newStop = start.newPlace) :
    descent old new (focus.shiftLeft count) (keepBehind run focus count after) =
      descent old new focus after := by
  have back : (focus.shiftLeft count).shiftRight count = focus := shiftRight_shiftLeft oldFar newFar
  have alone (rest : List Op) :
      descent old new (focus.shiftLeft count)
          (.equal (run.oldStop - count) (focus.newStop - count) count :: rest) =
        descent old new focus rest := by
    rw [descent_agree (focus.shiftLeft count) _ rest isInsert inserts rfl some rfl
      (Nat.le_refl count) passed, back, leftOver_shrinkLeft rfl (Nat.le_refl count)]
    simp only [Op.equal, if_true, List.nil_append]
  cases after with
  | nil => exact alone []
  | cons next rest =>
      rw [keepBehind]
      split
      · rename_i nextEqual
        rw [run_cons_equal nextEqual] at afterRun
        obtain ⟨⟨nextOld, nextNew, nextSome, nextCount, _⟩, _⟩ := afterRun
        have grown := growLeft_of_equal nextEqual count
        have same : (next.growLeft count).shrinkLeft count = next := by
          refine shrinkLeft_growLeft nextEqual ?_ ?_
          · rw [nextOld, ← oldAt]
            exact runFar
          · rw [nextNew, ← newAt]
            exact Nat.le_trans newFar (Nat.le_add_right ..)
        have oldBehind : run.oldStop - count = (next.growLeft count).oldStart := by
          rw [grown, oldAt, nextOld]
        have further : count < (next.growLeft count).oldCount := by
          rw [grown]
          exact Nat.lt_add_of_pos_left nextSome
        have grownCount : (next.growLeft count).newCount = (next.growLeft count).oldCount := by
          rw [grown]
          exact congrArg (· + count) nextCount
        rw [oldBehind] at passed
        rw [descent_agree (focus.shiftLeft count) _ rest isInsert inserts (by rw [grown])
          (Nat.zero_lt_of_lt further) grownCount (Nat.le_of_lt further) passed, back,
          leftOver_shrinkLeft grownCount (Nat.le_of_lt further), if_neg (Nat.ne_of_lt further), same,
          List.singleton_append]
      · exact alone (next :: rest)

theorem descent_slideUp {run focus : Op} {after : List Op} (isEqual : run.tag = .equal)
    (slides : 0 < slideUp old new run focus)
    (runs : Run (Op.Fits old new anchors) start (run :: focus :: after) stop) :
    descent old new (focus.shiftLeft (slideUp old new run focus))
        (keepBehind run focus (slideUp old new run focus) after) =
      descent old new focus after := by
  have isInsert := slideUp_insert slides
  rw [run_cons_equal isEqual, run_cons_insert isInsert] at runs
  obtain ⟨⟨oldAt, newAt, _, _, agree⟩, ⟨focusOld, focusNew, inserts, _⟩, afterRun⟩ := runs
  have atMost := slideUp_le old new run focus
  generalize slideUp old new run focus = count at slides atMost ⊢
  simp only [Tally.oldPlace, Tally.newPlace] at oldAt newAt focusOld focusNew
  -- The lines that were passed are the last ones of the run, on both sides.
  have passed : Agree old new (run.oldStop - count) (focus.shiftLeft count).newStart count := by
    have behindRun : focus.newStart = run.newStart + run.oldCount := by omega
    rw [Op.oldStop, Op.shiftLeft, behindRun]
    exact agree_last agree atMost
  have runFar : count ≤ run.oldStop := Nat.le_trans atMost (Nat.le_add_left ..)
  have oldBehind : run.oldStop = start.kept + run.oldCount + start.deleted := by
    unfold Op.oldStop
    omega
  have newBehind : focus.newStop = start.kept + run.oldCount + (start.inserted + focus.newCount) := by
    unfold Op.newStop
    omega
  exact descent_keepBehind isInsert inserts slides (by omega) (by omega) runFar passed afterRun
    oldBehind newBehind

end

/-! ### Operations of one kind -/

/-- How many operations are of a kind. -/
def tagCount (tag : Tag) (ops : List Op) : Nat := ops.countP fun op => op.tag = tag

/-- How many operations around a focus are of a kind. -/
def Focused.others (tag : Tag) (focused : Focused) : Nat :=
  tagCount tag focused.before + tagCount tag focused.after

section

variable {tag : Tag} {op : Op} {rest : List Op}

theorem tagCount_cons_same (isTag : op.tag = tag) : tagCount tag (op :: rest) = tagCount tag rest + 1 :=
  List.countP_cons_of_pos (decide_eq_true isTag)

theorem tagCount_cons_other (other : op.tag ≠ tag) : tagCount tag (op :: rest) = tagCount tag rest :=
  List.countP_cons_of_neg fun isTag => other (of_decide_eq_true isTag)

theorem tagCount_le_extent (ops : List Op) : tagCount tag ops ≤ extent ops := by
  induction ops with
  | nil => exact Nat.le_refl 0
  | cons op rest ih =>
      rw [extent]
      by_cases isTag : op.tag = tag
      · rw [tagCount_cons_same isTag]
        omega
      · rw [tagCount_cons_other isTag]
        omega

theorem tagCount_append_reverse (before after : List Op) :
    tagCount tag (before.reverse ++ after) = tagCount tag before + tagCount tag after := by
  unfold tagCount
  rw [List.countP_append, List.countP_reverse]

variable (moves : tag.Moves)
include moves

/-- Kept lines do not count. -/
theorem tagCount_cons_equal (isEqual : op.tag = .equal) :
    tagCount tag (op :: rest) = tagCount tag rest := by
  refine tagCount_cons_other ?_
  rw [isEqual]
  rcases moves with rfl | rfl
  · exact nofun
  · exact nofun

theorem tagCount_keepBehind (run focus : Op) (count : Nat) (after : List Op) :
    tagCount tag (keepBehind run focus count after) = tagCount tag after := by
  cases after with
  | nil => exact tagCount_cons_equal moves rfl
  | cons next rest =>
      rw [keepBehind]
      split
      · rename_i isEqual
        have grown : (next.growLeft count).tag = .equal := (growRight_tag ..).trans isEqual
        rw [tagCount_cons_equal moves grown, tagCount_cons_equal moves isEqual]
      · exact tagCount_cons_equal moves rfl

theorem tagCount_keepBefore (run focus : Op) (count : Nat) (before : List Op) :
    tagCount tag (keepBefore run focus count before) = tagCount tag before := by
  cases before with
  | nil => exact tagCount_cons_equal moves rfl
  | cons previous rest =>
      rw [keepBefore]
      split
      · rename_i isEqual
        have grown : (previous.growRight count).tag = .equal := (growRight_tag ..).trans isEqual
        rw [tagCount_cons_equal moves grown, tagCount_cons_equal moves isEqual]
      · exact tagCount_cons_equal moves rfl

end

/-! ### What there is to pass -/

theorem extent_append (front back : List Op) : extent (front ++ back) = extent front + extent back := by
  induction front with
  | nil => exact (Nat.zero_add _).symm
  | cons op rest ih => rw [List.cons_append, extent, extent, ih, Nat.add_assoc (_ + 1)]

/-- Every operation of a run has lines, so there is no more to pass than twice the lines. -/
theorem extent_le_of_run {α : Type} {old new : Array α} {anchors : Anchors} {start stop : Tally}
    {ops : List Op} (run : Run (Op.Fits old new anchors) start ops stop) :
    extent ops + 2 * (start.oldPlace + start.newPlace) ≤ 2 * (stop.oldPlace + stop.newPlace) := by
  induction ops generalizing start with
  | nil =>
      obtain rfl : start = stop := run
      exact Nat.le_of_eq (Nat.zero_add _)
  | cons op rest ih =>
      obtain ⟨fits, restRun⟩ := run
      have below := ih restRun
      rw [extent]
      cases tagEq : op.tag <;>
        simp only [Op.Fits, Tally.next, Tally.oldPlace, Tally.newPlace, tagEq] at fits below ⊢ <;>
        omega

/-! ### Rounds -/

section

variable {α : Type} [BEq α] {old new : Array α}

theorem extent_moveDown (before : List Op) (focus : Op) (after : List Op) :
    extent (moveDown old new before focus after).after ≤ extent after := by
  fun_induction moveDown old new before focus after with
  | case1 before focus => exact Nat.le_refl _
  | case2 before focus next rest isEqual slides count kept empty ih =>
      exact Nat.le_trans ih (Nat.le_add_left ..)
  | case3 before focus next rest isEqual slides count kept notEmpty ih =>
      refine Nat.le_trans ih ?_
      simp only [extent, Op.shrinkLeft, Op.shiftRight, Op.shrinkRight]
      omega
  | case4 before focus next rest isEqual still empty ih => exact Nat.le_trans ih (Nat.le_add_left ..)
  | case5 before focus next rest isEqual still notEmpty => exact Nat.le_refl _
  | case6 before focus next rest notEqual sameTag ih => exact Nat.le_trans ih (Nat.le_add_left ..)
  | case7 before focus next rest notEqual otherTag ih => exact Nat.le_trans ih (Nat.le_add_left ..)

/-- On the way down an operation stays of its kind, and no other one of the kind is added. -/
theorem moveDown_others (tag : Tag) (moves : tag.Moves) (before : List Op) (focus : Op)
    (after : List Op) (isTag : focus.tag = tag) :
    (moveDown old new before focus after).focus.tag = tag ∧
      (moveDown old new before focus after).others tag ≤ tagCount tag before + tagCount tag after := by
  fun_induction moveDown old new before focus after with
  | case1 before focus => exact ⟨isTag, Nat.le_refl _⟩
  | case2 before focus next rest isEqual slides count keptOps empty ih =>
      rw [tagCount_cons_equal moves isEqual]
      rw [tagCount_keepBefore moves] at ih
      exact ih isTag
  | case3 before focus next rest isEqual slides count keptOps notEmpty ih =>
      have stillEqual : (next.shrinkLeft count).tag = .equal := isEqual
      rw [tagCount_cons_equal moves isEqual]
      rw [tagCount_keepBefore moves, tagCount_cons_equal moves stillEqual] at ih
      exact ih isTag
  | case4 before focus next rest isEqual still empty ih =>
      rw [tagCount_cons_equal moves isEqual]
      exact ih isTag
  | case5 before focus next rest isEqual still notEmpty => exact ⟨isTag, Nat.le_refl _⟩
  | case6 before focus next rest notEqual sameTag ih =>
      rw [tagCount_cons_same (sameTag.trans isTag)]
      obtain ⟨stays, fewer⟩ := ih ((growRight_tag ..).trans isTag)
      exact ⟨stays, by omega⟩
  | case7 before focus next rest notEqual otherTag ih =>
      have other : next.tag ≠ tag := isTag ▸ otherTag
      rw [tagCount_cons_other other]
      rw [tagCount_cons_other other] at ih
      exact ih isTag

variable [LawfulBEq α] {anchors : Anchors} {start stop : Tally}

/-- On the way up an operation stays of its kind. It is joined to another one of the kind, or it comes
down to where it would have come without going up. -/
theorem moveUp_others (tag : Tag) (moves : tag.Moves) (before : List Op) (focus : Op)
    (after : List Op) (isTag : focus.tag = tag)
    (run : Run (Op.Fits old new anchors) start (before.reverse ++ focus :: after) stop) :
    let up := moveUp old new before focus after
    up.focus.tag = tag ∧
      (up.others tag < tagCount tag before + tagCount tag after ∨
        (up.others tag = tagCount tag before + tagCount tag after ∧
          descent old new up.focus up.after = descent old new focus after)) := by
  intro up
  unfold up
  fun_induction moveUp old new before focus after with
  | case1 focus after => exact ⟨isTag, Or.inr ⟨rfl, rfl⟩⟩
  | case2 focus after previous rest isEqual slides count keptOps empty ih =>
      rw [List.reverse_cons, List.append_assoc] at run
      obtain ⟨middle, _, part⟩ := run_append.mp run
      have sameWay := descent_slideUp isEqual slides part
      have slid := run_behind (fun middle part => run_slideUp isEqual slides part) run
      rw [leftOver, if_pos empty] at slid
      obtain ⟨stays, progress⟩ := ih isTag slid
      rw [tagCount_keepBehind moves] at progress
      rw [tagCount_cons_equal moves isEqual]
      exact ⟨stays, progress.imp_right (And.imp_right (·.trans sameWay))⟩
  | case3 focus after previous rest isEqual slides count keptOps notEmpty ih =>
      rw [List.reverse_cons, List.append_assoc] at run
      obtain ⟨middle, _, part⟩ := run_append.mp run
      have sameWay := descent_slideUp isEqual slides part
      have slid := run_behind (fun middle part => run_slideUp isEqual slides part) run
      rw [leftOver, if_neg notEmpty] at slid
      have stillEqual : (previous.shrinkRight count).tag = .equal := isEqual
      obtain ⟨stays, progress⟩ := ih isTag (by
        rw [List.reverse_cons, List.append_assoc]
        exact slid)
      rw [tagCount_keepBehind moves, tagCount_cons_equal moves stillEqual] at progress
      rw [tagCount_cons_equal moves isEqual]
      exact ⟨stays, progress.imp_right (And.imp_right (·.trans sameWay))⟩
  | case4 focus after previous rest isEqual still empty ih =>
      rw [List.reverse_cons, List.append_assoc] at run
      obtain ⟨middle, _, part⟩ := run_append.mp run
      rw [not_isEmpty_of_run isEqual part] at empty
      cases empty
  | case5 focus after previous rest isEqual still notEmpty => exact ⟨isTag, Or.inr ⟨rfl, rfl⟩⟩
  | case6 focus after previous rest notEqual sameTag ih =>
      rw [List.reverse_cons, List.append_assoc] at run
      obtain ⟨stays, progress⟩ := ih ((growRight_tag ..).trans (sameTag.trans isTag))
        (run_behind (fun middle part => run_grow sameTag notEqual part) run)
      rw [tagCount_cons_same (sameTag.trans isTag)]
      exact ⟨stays, Or.inl (by omega)⟩
  | case7 focus after previous rest notEqual otherTag ih =>
      rw [List.reverse_cons, List.append_assoc] at run
      have other : previous.tag ≠ tag := isTag ▸ otherTag
      obtain ⟨stays, progress⟩ := ih isTag (run_behind (fun middle part =>
        run_swap (moves_of_run notEqual part) (isTag ▸ moves) otherTag part) run)
      rw [tagCount_cons_other other, descent_passes notEqual otherTag] at progress
      rw [tagCount_cons_other other]
      exact ⟨stays, progress⟩

/-- What an operation and those around it become in a round. -/
def roundOf (old new : Array α) (before : List Op) (op : Op) (after : List Op) : Focused :=
  let up := moveUp old new before op after
  moveDown old new up.before up.focus up.after

theorem round_progress {tag : Tag} (moves : tag.Moves) {before : List Op} {op : Op}
    {after : List Op} (isTag : op.tag = tag)
    (run : Run (Op.Fits old new anchors) start (before.reverse ++ op :: after) stop) :
    let done := roundOf old new before op after
    (done.focus.tag = tag ∧ Run (Op.Fits old new anchors) start done.ops stop) ∧
      (done.others tag < tagCount tag before + tagCount tag after ∨
        (done.others tag ≤ tagCount tag before + tagCount tag after ∧
          extent done.after ≤ extent after)) := by
  obtain ⟨upMoves, upRun⟩ := run_moveUp before op after (isTag ▸ moves) run
  obtain ⟨upTag, progress⟩ := moveUp_others tag moves before op after isTag run
  intro done
  unfold done roundOf
  generalize moveUp old new before op after = up at upMoves upRun upTag progress
  have down : (moveDown old new up.before up.focus up.after).focus.tag = tag ∧
      (moveDown old new up.before up.focus up.after).others tag ≤ up.others tag :=
    moveDown_others tag moves up.before up.focus up.after upTag
  refine ⟨⟨down.1, run_moveDown _ _ _ upMoves upRun⟩, ?_⟩
  rcases progress with joined | ⟨same, sameWay⟩
  · exact Or.inl (Nat.lt_of_le_of_lt down.2 joined)
  · refine Or.inr ⟨same ▸ down.2, ?_⟩
    rw [(moveDown_eq_descent up.before up.focus up.after).2, sameWay,
      ← (moveDown_eq_descent before op after).2]
    exact extent_moveDown before op after

/-- Settling without a limit: from what has been passed and what has not to what has become of both. -/
inductive Settles (old new : Array α) (tag : Tag) : List Op → List Op → List Op → Prop
  | done (before : List Op) : Settles old new tag before [] before.reverse
  | pass {before after result : List Op} {op : Op} (otherTag : op.tag ≠ tag)
      (rest : Settles old new tag (op :: before) after result) :
      Settles old new tag before (op :: after) result
  | round {before after result : List Op} {op : Op} (isTag : op.tag = tag)
      (rest : Settles old new tag
        ((roundOf old new before op after).focus :: (roundOf old new before op after).before)
        (roundOf old new before op after).after result) :
      Settles old new tag before (op :: after) result

/-- What weighs down to a number of operations first, and then to what is behind the focus. -/
theorem potential_lt {fewer number rest after most : Nat} (within : rest ≤ most)
    (progress : fewer < number ∨ (fewer ≤ number ∧ rest < after)) :
    fewer * (most + 1) + rest < number * (most + 1) + after := by
  rcases progress with less | ⟨noMore, less⟩
  · calc fewer * (most + 1) + rest
      _ < fewer * (most + 1) + (most + 1) := Nat.add_lt_add_left (Nat.lt_succ_of_le within) _
      _ = (fewer + 1) * (most + 1) := (Nat.succ_mul ..).symm
      _ ≤ number * (most + 1) := Nat.mul_le_mul_right _ less
      _ ≤ number * (most + 1) + after := Nat.le_add_right ..
  · exact Nat.add_lt_add_of_le_of_lt (Nat.mul_le_mul_right _ noMore) less

/-- Enough rounds settle all operations of a kind. What limits them is the number of those operations
and what is to pass behind each. -/
theorem settles_settleTag {tag : Tag} (moves : tag.Moves) {most : Nat}
    (within : ∀ ops, Run (Op.Fits old new anchors) start ops stop → extent ops ≤ most)
    (bound : Nat) (before after : List Op)
    (run : Run (Op.Fits old new anchors) start (before.reverse ++ after) stop)
    (enough : (tagCount tag before + tagCount tag after) * (most + 1) + extent after < bound) :
    Settles old new tag before after (settleTag old new tag bound before after) := by
  fun_induction settleTag old new tag bound before after with
  | case1 before after => exact absurd enough (Nat.not_lt_zero _)
  | case2 bound before => exact .done before
  | case3 bound before op after isTag up down ih =>
      obtain ⟨⟨doneTag, doneRun⟩, progress⟩ := round_progress moves isTag run
      change down.focus.tag = tag at doneTag
      change Run _ start down.ops stop at doneRun
      change down.others tag < _ ∨ (down.others tag ≤ _ ∧ extent down.after ≤ _) at progress
      refine .round isTag (ih ?_ ?_)
      · rw [List.reverse_cons, List.append_assoc]
        exact doneRun
      · have afterWithin : extent down.after ≤ most := by
          refine Nat.le_trans ?_ (within _ doneRun)
          rw [Focused.ops, extent_append, extent]
          omega
        refine Nat.lt_of_lt_of_le (potential_lt afterWithin ?_) (Nat.le_of_lt_succ enough)
        rw [tagCount_cons_same doneTag, tagCount_cons_same isTag, extent]
        unfold Focused.others at progress
        omega
  | case4 bound before op after otherTag ih =>
      refine .pass otherTag (ih ?_ ?_)
      · rw [List.reverse_cons, List.append_assoc]
        exact run
      · rw [tagCount_cons_other otherTag] at enough ⊢
        rw [extent] at enough
        omega

/-- The operations of two sequences that fit are all settled, those of the one kind and then those of
the other: no kind runs out of rounds. -/
theorem settles_settle {ops : List Op} (run : Run (Op.Fits old new anchors) Tally.zero ops stop)
    (oldAll : stop.oldPlace = old.size) (newAll : stop.newPlace = new.size) :
    ∃ middle, Settles old new .delete [] ops middle ∧
      Settles old new .insert [] middle (settle old new ops) := by
  have within (ops : List Op) (run : Run (Op.Fits old new anchors) Tally.zero ops stop) :
      extent ops ≤ 2 * (old.size + new.size) := by
    have most := extent_le_of_run run
    rw [oldAll, newAll] at most
    exact Nat.le_trans (Nat.le_add_right ..) most
  have settled {tag : Tag} (moves : tag.Moves) (ops : List Op)
      (run : Run (Op.Fits old new anchors) Tally.zero ops stop) :
      Settles old new tag [] ops (settleTag old new tag (settleBound old new) [] ops) := by
    refine settles_settleTag moves within _ [] ops run ?_
    have counted : tagCount tag [] + tagCount tag ops ≤ 2 * (old.size + new.size) := by
      rw [← tagCount_append_reverse]
      exact Nat.le_trans (tagCount_le_extent ops) (within ops run)
    have below : _ < settleBound old new + 0 :=
      potential_lt (within ops run) (Or.inl (Nat.lt_succ_of_le counted))
    rw [Nat.add_zero] at below
    exact below
  exact ⟨_, settled (Or.inr rfl) ops run,
    settled (Or.inl rfl) _ (run_settleTag .delete (Or.inr rfl) _ [] ops run)⟩

theorem settles_script (old new : Array α) :
    ∃ middle, Settles old new .delete [] (script old new) middle ∧
      Settles old new .insert [] middle (settle old new (script old new)) := by
  obtain ⟨stop, oldAll, newAll, run⟩ := run_script old new
  exact settles_settle (run_fits_of_exact (follow_anchorsOf _) run) oldAll newAll

end

end Codemod.Diff
