import Codemod.Proofs.Diff.Script

/-!
The shortest script is as short as a path can be.

Common ends cost nothing, and a path that does not pass them has a shortcut that does. Between them
a window is cut where a shortest path passes, so the scripts of both parts together are as short as
one of the whole.
-/

set_option autoImplicit false

namespace Codemod.Diff

/-- How many elements an operation deletes and inserts. -/
def Op.edits (op : Op) : Nat := if op.tag = .equal then 0 else op.oldCount + op.newCount

def editsOf : List Op → Nat
  | [] => 0
  | op :: rest => op.edits + editsOf rest

theorem editsOf_append (front back : List Op) :
    editsOf (front ++ back) = editsOf front + editsOf back := by
  induction front with
  | nil => exact (Nat.zero_add _).symm
  | cons op front ih => rw [List.cons_append, editsOf, editsOf, ih, Nat.add_assoc]

theorem editsOf_equalRun (oldStart newStart count : Nat) :
    editsOf (equalRun oldStart newStart count) = 0 := by
  unfold equalRun
  split <;> rfl

/-! ### Paths through a part of a window -/

section

variable {α : Type} {old new : Array α} {window part : Window} {edits x y least count : Nat}

theorem EditPath.within_front (path : EditPath (window.frontSame old new) edits x y)
    (sameOld : part.oldStart = window.oldStart) (sameNew : part.newStart = window.newStart)
    (oldWithin : x ≤ part.oldCount) (newWithin : y ≤ part.newCount) :
    EditPath (part.frontSame old new) edits x y := by
  refine path.imp ?_
  rintro left right leftLt rightLt ⟨_, _, isSame⟩
  rw [← sameOld, ← sameNew] at isSame
  exact ⟨Nat.lt_of_lt_of_le leftLt oldWithin, Nat.lt_of_lt_of_le rightLt newWithin, isSame⟩

theorem EditPath.within_back (path : EditPath (window.backSame old new) edits x y)
    (sameOld : part.oldStop = window.oldStop) (sameNew : part.newStop = window.newStop)
    (oldWithin : x ≤ part.oldCount) (newWithin : y ≤ part.newCount) :
    EditPath (part.backSame old new) edits x y := by
  refine path.imp ?_
  rintro left right leftLt rightLt ⟨_, _, isSame⟩
  rw [← sameOld, ← sameNew] at isSame
  exact ⟨Nat.lt_of_lt_of_le leftLt oldWithin, Nat.lt_of_lt_of_le rightLt newWithin, isSame⟩

/-- Without so many elements at the ends of both ranges a window takes no more edits. -/
theorem Window.Costs.of_front (oldLe : count ≤ window.oldCount) (newLe : count ≤ window.newCount)
    (costs : Window.Costs old new ⟨window.oldStart, window.oldStop - count, window.newStart,
      window.newStop - count⟩ least) : window.Costs old new least := by
  intro edits path
  rw [← Nat.sub_add_cancel oldLe, ← Nat.sub_add_cancel newLe] at path
  obtain ⟨fewer, atMost, before⟩ := Near.back ⟨edits, Nat.le_refl _, path⟩
  unfold Window.oldCount Window.newCount at before
  rw [Nat.sub_right_comm, Nat.sub_right_comm window.newStop] at before
  exact Nat.le_trans (costs fewer (before.within_front rfl rfl (Nat.le_refl _) (Nat.le_refl _)))
    atMost

theorem Window.Costs.of_back (oldLe : count ≤ window.oldCount) (newLe : count ≤ window.newCount)
    (costs : Window.Costs old new ⟨window.oldStart + count, window.oldStop,
      window.newStart + count, window.newStop⟩ least) : window.Costs old new least := by
  intro edits path
  have turned := path.turn (mirrored_frontSame old new window)
  rw [← Nat.sub_add_cancel oldLe, ← Nat.sub_add_cancel newLe] at turned
  obtain ⟨fewer, atMost, before⟩ := Near.back ⟨edits, Nat.le_refl _, turned⟩
  unfold Window.oldCount Window.newCount at before
  rw [Nat.sub_sub, Nat.sub_sub] at before
  refine Nat.le_trans (costs fewer (EditPath.turn (mirrored_backSame old new _) ?_)) atMost
  exact before.within_back rfl rfl (Nat.le_refl _) (Nat.le_refl _)

variable [BEq α]

theorem costs_of_inner (inner : (window.inner old new).Costs old new least) :
    window.Costs old new least := by
  have frontLe := commonFront_le old new window.oldStart window.newStart
    (min window.oldCount window.newCount)
  have backLe := commonBack_le old new window.oldStop window.newStop
    (min (window.oldStop - (window.oldStart + window.frontCount old new))
      (window.newStop - (window.newStart + window.frontCount old new)))
  change window.frontCount old new ≤ _ at frontLe
  change window.backCount old new ≤ _ at backLe
  refine Window.Costs.of_back (Nat.le_trans frontLe (Nat.min_le_left ..))
    (Nat.le_trans frontLe (Nat.min_le_right ..)) ?_
  exact Window.Costs.of_front (Nat.le_trans backLe (Nat.min_le_left ..))
    (Nat.le_trans backLe (Nat.min_le_right ..)) inner

/-! ### Scripts -/

variable [LawfulBEq α]

/-- The script of a window without common ends is a shortest one if the scripts of its parts are. -/
theorem costs_middleScript {depth : Nat} (deep : window.oldCount + window.newCount ≤ depth)
    (bare : window.oldCount ≠ 0 → window.newCount ≠ 0 → window.Bare old new)
    (parts : ∀ smaller, depth = smaller + 1 → ∀ part : Window,
      part.oldCount + part.newCount ≤ smaller →
      part.Costs old new (editsOf (scriptWithin old new smaller part))) :
    window.Costs old new (editsOf (middleScript old new depth window)) := by
  intro edits path
  have atLeast := path.onLevel.1
  unfold middleScript
  split
  · exact Nat.zero_le _
  -- Where one of the ranges is empty, its diagonal asks for all edits of the other one.
  split
  · rename_i noNew
    rw [noNew] at atLeast
    change window.oldCount + 0 + 0 ≤ edits
    omega
  split
  · rename_i noOld
    rw [noOld] at atLeast
    change 0 + window.newCount + 0 ≤ edits
    omega
  rename_i someNew someOld
  obtain ⟨x, y, ⟨divides, front, back, frontPath, backPath, least⟩, cutAt⟩ :=
    cut?_divides (bare someOld someNew)
  obtain ⟨oldLow, oldHigh, newLow, newHigh, behindStart, beforeStop⟩ := divides
  cases depth with
  | zero => omega
  | succ smaller =>
      rw [cutAt]
      simp only
      unfold Window.oldCount Window.newCount at deep
      rw [editsOf_append]
      have frontLeast : editsOf (scriptWithin old new smaller
          ⟨window.oldStart, x, window.newStart, y⟩) ≤ front := by
        refine parts smaller rfl _ ?_ front
          (frontPath.within_front rfl rfl (Nat.le_refl _) (Nat.le_refl _))
        simp only [Window.oldCount, Window.newCount]
        omega
      have backLeast : editsOf (scriptWithin old new smaller
          ⟨x, window.oldStop, y, window.newStop⟩) ≤ back := by
        refine parts smaller rfl _ ?_ back (EditPath.turn (mirrored_backSame old new _)
          (backPath.within_back rfl rfl (Nat.le_refl _) (Nat.le_refl _)))
        simp only [Window.oldCount, Window.newCount]
        omega
      exact Nat.le_trans (Nat.add_le_add frontLeast backLeast) (least edits path)

omit [LawfulBEq α] in
theorem editsOf_scriptWithin (old new : Array α) (depth : Nat) (window : Window) :
    editsOf (scriptWithin old new depth window) =
      editsOf (middleScript old new depth (window.inner old new)) := by
  rw [scriptWithin_eq, editsOf_append, editsOf_append, editsOf_equalRun, editsOf_equalRun,
    Nat.zero_add, Nat.add_zero]

theorem costs_scriptWithin (old new : Array α) (depth : Nat) :
    ∀ window : Window, window.oldCount + window.newCount ≤ depth →
      window.Costs old new (editsOf (scriptWithin old new depth window)) := by
  induction depth with
  | zero =>
      intro window deep
      rw [editsOf_scriptWithin]
      refine costs_of_inner (costs_middleScript (Nat.le_trans (inner_le old new window) deep)
        inner_bare ?_)
      intro smaller impossible
      cases impossible
  | succ depth ih =>
      intro window deep
      rw [editsOf_scriptWithin]
      refine costs_of_inner (costs_middleScript (Nat.le_trans (inner_le old new window) deep)
        inner_bare ?_)
      intro smaller depthEq
      obtain rfl : depth = smaller := Nat.succ.inj depthEq
      exact ih

theorem costs_script (old new : Array α) :
    Window.Costs old new ⟨0, old.size, 0, new.size⟩ (editsOf (script old new)) :=
  costs_scriptWithin old new (old.size + new.size) ⟨0, old.size, 0, new.size⟩ (Nat.le_refl _)

end

end Codemod.Diff
