import Codemod.Proofs.Diff.Cut

/-!
The shortest script leads through both sequences, and every operation of it names the ranges at
which it stands.

A window is at least as deep as it is long, and every cut makes it shorter, so the depth never
runs out and no part is ever given up for a deletion and an insertion of everything.
-/

set_option autoImplicit false

namespace Codemod.Diff

section

variable {α : Type} [BEq α]

/-- How many elements a window has in common at its front. -/
def Window.frontCount (old new : Array α) (window : Window) : Nat :=
  commonFront old new window.oldStart window.newStart (min window.oldCount window.newCount)

/-- How many of the rest it has in common at its back. -/
def Window.backCount (old new : Array α) (window : Window) : Nat :=
  let front := window.frontCount old new
  commonBack old new window.oldStop window.newStop
    (min (window.oldStop - (window.oldStart + front)) (window.newStop - (window.newStart + front)))

/-- What is left of a window between its common ends. -/
def Window.inner (old new : Array α) (window : Window) : Window :=
  let front := window.frontCount old new
  let back := window.backCount old new
  ⟨window.oldStart + front, window.oldStop - back, window.newStart + front,
    window.newStop - back⟩

/-- The script of a window without common ends. -/
def middleScript (old new : Array α) (depth : Nat) (inner : Window) : List Op :=
  if inner.oldCount = 0 ∧ inner.newCount = 0 then []
  else if inner.newCount = 0 then [.delete inner.oldStart inner.oldCount inner.newStart]
  else if inner.oldCount = 0 then [.insert inner.oldStart inner.newStart inner.newCount]
  else
    match depth, cut? old new inner with
    | depth + 1, some (x, y) =>
        scriptWithin old new depth ⟨inner.oldStart, x, inner.newStart, y⟩ ++
          scriptWithin old new depth ⟨x, inner.oldStop, y, inner.newStop⟩
    | _, _ =>
        [.delete inner.oldStart inner.oldCount inner.newStart,
          .insert inner.oldStart inner.newStart inner.newCount]

theorem scriptWithin_eq (old new : Array α) (depth : Nat) (window : Window) :
    scriptWithin old new depth window =
      equalRun window.oldStart window.newStart (window.frontCount old new) ++
        middleScript old new depth (window.inner old new) ++
        equalRun (window.inner old new).oldStop (window.inner old new).newStop
          (window.backCount old new) := by
  rw [scriptWithin.eq_def]
  rfl

end

section

variable {α : Type}

/-- A window whose ranges do not end before they start. -/
def Window.Ordered (window : Window) : Prop :=
  window.oldStart ≤ window.oldStop ∧ window.newStart ≤ window.newStop

/-- A script that leads from one corner of a window to the other. -/
def Crosses (old new : Array α) (window : Window) (ops : List Op) : Prop :=
  ∀ start : Tally, start.oldPlace = window.oldStart → start.newPlace = window.newStart →
    ∃ stop : Tally, stop.oldPlace = window.oldStop ∧ stop.newPlace = window.newStop ∧
      Run (Op.Exact old new) start ops stop

theorem crosses_append {old new : Array α} {window : Window} {x y : Nat} {front back : List Op}
    (frontCrosses : Crosses old new ⟨window.oldStart, x, window.newStart, y⟩ front)
    (backCrosses : Crosses old new ⟨x, window.oldStop, y, window.newStop⟩ back) :
    Crosses old new window (front ++ back) := by
  intro start oldAt newAt
  obtain ⟨middle, oldMiddle, newMiddle, frontRun⟩ := frontCrosses start oldAt newAt
  obtain ⟨stop, oldStop, newStop, backRun⟩ := backCrosses middle oldMiddle newMiddle
  exact ⟨stop, oldStop, newStop, run_append.mpr ⟨middle, frontRun, backRun⟩⟩

theorem crosses_equalRun {old new : Array α} {oldStart newStart count : Nat}
    (agree : Agree old new oldStart newStart count) :
    Crosses old new ⟨oldStart, oldStart + count, newStart, newStart + count⟩
      (equalRun oldStart newStart count) := by
  rintro start rfl rfl
  refine ⟨{ start with kept := start.kept + count }, ?_, ?_, run_equalRun old new agree⟩
  · exact Nat.add_right_comm ..
  · exact Nat.add_right_comm ..

theorem crosses_delete (old new : Array α) (window : Window) (ordered : window.Ordered)
    (someOld : window.oldCount ≠ 0) (noNew : window.newCount = 0) :
    Crosses old new window [.delete window.oldStart window.oldCount window.newStart] := by
  intro start oldAt newAt
  unfold Window.Ordered at ordered
  unfold Window.oldCount Window.newCount at *
  refine ⟨{ start with deleted := start.deleted + window.oldCount }, ?_, ?_,
    ⟨oldAt.symm, newAt.symm, Nat.pos_of_ne_zero someOld, rfl⟩, rfl⟩
  · simp only [Tally.oldPlace, Window.oldCount] at *
    omega
  · simp only [Tally.newPlace] at *
    omega

theorem crosses_insert (old new : Array α) (window : Window) (ordered : window.Ordered)
    (noOld : window.oldCount = 0) (someNew : window.newCount ≠ 0) :
    Crosses old new window [.insert window.oldStart window.newStart window.newCount] := by
  intro start oldAt newAt
  unfold Window.Ordered at ordered
  unfold Window.oldCount Window.newCount at *
  refine ⟨{ start with inserted := start.inserted + window.newCount }, ?_, ?_,
    ⟨oldAt.symm, newAt.symm, Nat.pos_of_ne_zero someNew, rfl⟩, rfl⟩
  · simp only [Tally.oldPlace] at *
    omega
  · simp only [Tally.newPlace, Window.newCount] at *
    omega

end

section

variable {α : Type} [BEq α]

theorem inner_ordered (old new : Array α) (window : Window) (ordered : window.Ordered) :
    (window.inner old new).Ordered := by
  have front := commonFront_le old new window.oldStart window.newStart
    (min window.oldCount window.newCount)
  have back := commonBack_le old new window.oldStop window.newStop
    (min (window.oldStop - (window.oldStart + window.frontCount old new))
      (window.newStop - (window.newStart + window.frontCount old new)))
  unfold Window.Ordered at ordered
  unfold Window.Ordered Window.inner Window.backCount
  unfold Window.frontCount Window.oldCount Window.newCount at *
  simp only at *
  omega

theorem inner_le (old new : Array α) (window : Window) :
    (window.inner old new).oldCount + (window.inner old new).newCount ≤
      window.oldCount + window.newCount := by
  simp only [Window.inner, Window.oldCount, Window.newCount]
  omega

variable [LawfulBEq α]

theorem inner_bare {old new : Array α} {window : Window}
    (someOld : (window.inner old new).oldCount ≠ 0)
    (someNew : (window.inner old new).newCount ≠ 0) :
    (window.inner old new).Bare old new := by
  have frontLe := commonFront_le old new window.oldStart window.newStart
    (min window.oldCount window.newCount)
  have backLe := commonBack_le old new window.oldStop window.newStop
    (min (window.oldStop - (window.oldStart + window.frontCount old new))
      (window.newStop - (window.newStart + window.frontCount old new)))
  unfold Window.oldCount Window.newCount at *
  refine ⟨by omega, by omega, ?_, ?_⟩
  · apply commonFront_stops
    change window.frontCount old new < _
    change window.oldStop - window.backCount old new -
      (window.oldStart + window.frontCount old new) ≠ 0 at someOld
    change window.newStop - window.backCount old new -
      (window.newStart + window.frontCount old new) ≠ 0 at someNew
    unfold Window.oldCount Window.newCount
    omega
  · apply commonBack_stops
    change window.backCount old new < _
    change window.oldStop - window.backCount old new -
      (window.oldStart + window.frontCount old new) ≠ 0 at someOld
    change window.newStop - window.backCount old new -
      (window.newStart + window.frontCount old new) ≠ 0 at someNew
    omega

/-- The script of a window without common ends leads through it, if the scripts of its parts do. -/
theorem crosses_middleScript {old new : Array α} {depth : Nat} {window : Window}
    (ordered : window.Ordered) (deep : window.oldCount + window.newCount ≤ depth)
    (bare : window.oldCount ≠ 0 → window.newCount ≠ 0 → window.Bare old new)
    (parts : ∀ smaller, depth = smaller + 1 → ∀ part : Window, part.Ordered →
      part.oldCount + part.newCount ≤ smaller →
      Crosses old new part (scriptWithin old new smaller part)) :
    Crosses old new window (middleScript old new depth window) := by
  unfold middleScript
  split
  · rename_i empty
    intro start oldAt newAt
    unfold Window.Ordered at ordered
    unfold Window.oldCount Window.newCount at empty
    exact ⟨start, by omega, by omega, rfl⟩
  split
  · rename_i some noNew
    exact crosses_delete old new window ordered (fun noOld => some ⟨noOld, noNew⟩) noNew
  split
  · rename_i someNew noOld
    exact crosses_insert old new window ordered noOld someNew
  rename_i someNew someOld
  obtain ⟨x, y, ⟨divides, _⟩, cutAt⟩ := cut?_divides (bare someOld someNew)
  obtain ⟨oldLow, oldHigh, newLow, newHigh, behindStart, beforeStop⟩ := divides
  cases depth with
  | zero => omega
  | succ smaller =>
      rw [cutAt]
      unfold Window.oldCount Window.newCount at deep
      refine crosses_append (parts smaller rfl _ ⟨oldLow, newLow⟩ ?_)
        (parts smaller rfl _ ⟨oldHigh, newHigh⟩ ?_)
      · simp only [Window.oldCount, Window.newCount]
        omega
      · simp only [Window.oldCount, Window.newCount]
        omega

theorem crosses_of_inner {old new : Array α} {depth : Nat} {window : Window}
    (middle : Crosses old new (window.inner old new)
      (middleScript old new depth (window.inner old new))) :
    Crosses old new window (scriptWithin old new depth window) := by
  have backLe := commonBack_le old new window.oldStop window.newStop
    (min (window.oldStop - (window.oldStart + window.frontCount old new))
      (window.newStop - (window.newStart + window.frontCount old new)))
  have frontAgree := agree_commonFront old new window.oldStart window.newStart
    (min window.oldCount window.newCount)
  have backAgree := agree_commonBack old new window.oldStop window.newStop
    (min (window.oldStop - (window.oldStart + window.frontCount old new))
      (window.newStop - (window.newStart + window.frontCount old new))) (by omega) (by omega)
  change window.backCount old new ≤ _ at backLe
  rw [scriptWithin_eq]
  have front : Crosses old new
      ⟨window.oldStart, window.oldStop - window.backCount old new, window.newStart,
        window.newStop - window.backCount old new⟩
      (equalRun window.oldStart window.newStart (window.frontCount old new) ++
        middleScript old new depth (window.inner old new)) :=
    crosses_append (crosses_equalRun frontAgree) middle
  have back := crosses_equalRun backAgree
  change Crosses old new ⟨window.oldStop - window.backCount old new,
    window.oldStop - window.backCount old new + window.backCount old new,
    window.newStop - window.backCount old new,
    window.newStop - window.backCount old new + window.backCount old new⟩ _ at back
  rw [Nat.sub_add_cancel (by omega), Nat.sub_add_cancel (by omega)] at back
  exact crosses_append front back

/-- The script of a window leads through it, if it is as deep as the window is long. -/
theorem crosses_scriptWithin (old new : Array α) (depth : Nat) :
    ∀ window : Window, window.Ordered → window.oldCount + window.newCount ≤ depth →
      Crosses old new window (scriptWithin old new depth window) := by
  induction depth with
  | zero =>
      intro window ordered deep
      refine crosses_of_inner (crosses_middleScript (inner_ordered old new window ordered)
        (Nat.le_trans (inner_le old new window) deep) inner_bare ?_)
      intro smaller impossible
      cases impossible
  | succ depth ih =>
      intro window ordered deep
      refine crosses_of_inner (crosses_middleScript (inner_ordered old new window ordered)
        (Nat.le_trans (inner_le old new window) deep) inner_bare ?_)
      intro smaller depthEq
      obtain rfl : depth = smaller := Nat.succ.inj depthEq
      exact ih

theorem run_script (old new : Array α) :
    ∃ stop : Tally, stop.oldPlace = old.size ∧ stop.newPlace = new.size ∧
      Run (Op.Exact old new) Tally.zero (script old new) stop :=
  crosses_scriptWithin old new (old.size + new.size) ⟨0, old.size, 0, new.size⟩
    ⟨Nat.zero_le _, Nat.zero_le _⟩ (Nat.le_refl _) Tally.zero rfl rfl

end

end Codemod.Diff
