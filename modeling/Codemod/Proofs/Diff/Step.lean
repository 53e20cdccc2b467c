import Codemod.Proofs.Diff.Furthest

/-!
One step of a search.

A step enters a diagonal, follows the elements that are the same from there on and either meets the
opposite search or records how far it has come. The two searches count their elements from opposite
corners of the window; what is the same from the one corner is the same from the other.
-/

set_option autoImplicit false

namespace Codemod.Diff

/-! ### What is the same in a window -/

section

variable {α : Type} (old new : Array α) (window : Window)

/-- Where the elements of a window are the same, counted from its start. -/
def Window.frontSame (x y : Nat) : Prop :=
  x < window.oldCount ∧ y < window.newCount ∧
    old[window.oldStart + x]? = new[window.newStart + y]?

/-- Where they are the same, counted from its end. -/
def Window.backSame (x y : Nat) : Prop :=
  x < window.oldCount ∧ y < window.newCount ∧
    old[window.oldStop - 1 - x]? = new[window.newStop - 1 - y]?

theorem mirrored_frontSame :
    Mirrored window.oldCount window.newCount (window.frontSame old new)
      (window.backSame old new) := by
  rintro x y oldWithin newWithin ⟨_, _, isSame⟩
  unfold Window.backSame
  unfold Window.oldCount Window.newCount at *
  rw [show window.oldStop - 1 - (window.oldStop - window.oldStart - 1 - x) =
      window.oldStart + x by omega,
    show window.newStop - 1 - (window.newStop - window.newStart - 1 - y) =
      window.newStart + y by omega]
  exact ⟨by omega, by omega, isSame⟩

theorem mirrored_backSame :
    Mirrored window.oldCount window.newCount (window.backSame old new)
      (window.frontSame old new) := by
  rintro x y oldWithin newWithin ⟨_, _, isSame⟩
  unfold Window.frontSame
  unfold Window.oldCount Window.newCount at *
  rw [show window.oldStart + (window.oldStop - window.oldStart - 1 - x) =
      window.oldStop - 1 - x by omega,
    show window.newStart + (window.newStop - window.newStart - 1 - y) =
      window.newStop - 1 - y by omega]
  exact ⟨by omega, by omega, isSame⟩

end

/-! ### Following what is the same -/

section

variable {α : Type} [BEq α]

/-- How far the search from the front follows common elements from a point on a diagonal. -/
def frontAdvance (old new : Array α) (window : Window) (diagonal : Int) (entry : Nat) : Nat :=
  let y : Int := entry - diagonal
  if entry < window.oldCount ∧ 0 ≤ y ∧ y < window.newCount then
    commonFront old new (window.oldStart + entry) (window.newStart + y.toNat)
      (min (window.oldCount - entry) (window.newCount - y.toNat))
  else 0

def backAdvance (old new : Array α) (window : Window) (diagonal : Int) (entry : Nat) : Nat :=
  let y : Int := entry - diagonal
  if entry < window.oldCount ∧ 0 ≤ y ∧ y < window.newCount then
    commonBack old new (window.oldStop - entry) (window.newStop - y.toNat)
      (min (window.oldCount - entry) (window.newCount - y.toNat))
  else 0

section

variable (old new : Array α) (window : Window)

theorem frontAdvance_eq (x y : Nat) :
    frontAdvance old new window ((x : Int) - y) x =
      if x < window.oldCount ∧ y < window.newCount then
        commonFront old new (window.oldStart + x) (window.newStart + y)
          (min (window.oldCount - x) (window.newCount - y))
      else 0 := by
  unfold frontAdvance
  simp only [Int.sub_sub_self, Int.natCast_nonneg, Int.ofNat_lt, Int.toNat_natCast, true_and]

theorem backAdvance_eq (x y : Nat) :
    backAdvance old new window ((x : Int) - y) x =
      if x < window.oldCount ∧ y < window.newCount then
        commonBack old new (window.oldStop - x) (window.newStop - y)
          (min (window.oldCount - x) (window.newCount - y))
      else 0 := by
  unfold backAdvance
  simp only [Int.sub_sub_self, Int.natCast_nonneg, Int.ofNat_lt, Int.toNat_natCast, true_and]

variable [LawfulBEq α]

theorem follows_frontAdvance :
    Follows (window.frontSame old new) (frontAdvance old new window) where
  along := by
    intro x y offset within
    rw [frontAdvance_eq] at within
    split at within
    · have limit := commonFront_le old new (window.oldStart + x) (window.newStart + y)
        (min (window.oldCount - x) (window.newCount - y))
      have agree := agree_commonFront old new (window.oldStart + x) (window.newStart + y)
        (min (window.oldCount - x) (window.newCount - y)) offset within
      rw [Nat.add_assoc, Nat.add_assoc] at agree
      exact ⟨by omega, by omega, agree⟩
    · exact absurd within (Nat.not_lt_zero offset)
  stops := by
    rintro x y ⟨oldWithin, newWithin, isSame⟩
    rw [frontAdvance_eq] at oldWithin newWithin isSame
    split at isSame
    · rename_i inside
      rw [if_pos inside] at oldWithin newWithin
      rw [← Nat.add_assoc, ← Nat.add_assoc] at isSame
      exact commonFront_stops old new (window.oldStart + x) (window.newStart + y)
        (min (window.oldCount - x) (window.newCount - y)) (by omega) isSame
    · rename_i outside
      rw [if_neg outside] at oldWithin newWithin
      exact outside ⟨oldWithin, newWithin⟩

theorem follows_backAdvance :
    Follows (window.backSame old new) (backAdvance old new window) where
  along := by
    intro x y offset within
    rw [backAdvance_eq] at within
    split at within
    · rename_i inside
      unfold Window.backSame
      unfold Window.oldCount Window.newCount at *
      have limit := commonBack_le old new (window.oldStop - x) (window.newStop - y)
        (min (window.oldStop - window.oldStart - x) (window.newStop - window.newStart - y))
      have agree := agree_commonBack old new (window.oldStop - x) (window.newStop - y)
        (min (window.oldStop - window.oldStart - x) (window.newStop - window.newStart - y))
        (by omega) (by omega)
      generalize commonBack old new (window.oldStop - x) (window.newStop - y)
        (min (window.oldStop - window.oldStart - x) (window.newStop - window.newStart - y)) =
          count at limit agree within
      have isSame := agree (count - 1 - offset) (by omega)
      rw [show window.oldStop - x - count + (count - 1 - offset) =
          window.oldStop - 1 - (x + offset) by omega,
        show window.newStop - y - count + (count - 1 - offset) =
          window.newStop - 1 - (y + offset) by omega] at isSame
      exact ⟨by omega, by omega, isSame⟩
    · exact absurd within (Nat.not_lt_zero offset)
  stops := by
    rintro x y ⟨oldWithin, newWithin, isSame⟩
    rw [backAdvance_eq] at oldWithin newWithin isSame
    split at isSame
    · rename_i inside
      rw [if_pos inside] at oldWithin newWithin
      rw [Nat.sub_right_comm, Nat.sub_right_comm window.newStop, Nat.sub_add_eq, Nat.sub_add_eq]
        at isSame
      exact commonBack_stops old new (window.oldStop - x) (window.newStop - y)
        (min (window.oldCount - x) (window.newCount - y)) (by omega) isSame
    · rename_i outside
      rw [if_neg outside] at oldWithin newWithin
      exact outside ⟨oldWithin, newWithin⟩

end

end

/-! ### Windows without common ends -/

/-- A window that has elements on both sides and no common ends. -/
structure Window.Bare {α : Type} (old new : Array α) (window : Window) : Prop where
  someOld : window.oldStart < window.oldStop
  someNew : window.newStart < window.newStop
  firstDiffers : old[window.oldStart]? ≠ new[window.newStart]?
  lastDiffers : old[window.oldStop - 1]? ≠ new[window.newStop - 1]?

section

variable {α : Type} {old new : Array α} {window : Window}

theorem Window.Bare.front_first_differs (bare : window.Bare old new) :
    ¬window.frontSame old new 0 0 :=
  fun isSame => bare.firstDiffers isSame.2.2

theorem Window.Bare.back_first_differs (bare : window.Bare old new) :
    ¬window.backSame old new 0 0 :=
  fun isSame => bare.lastDiffers isSame.2.2

variable [BEq α] [LawfulBEq α]

theorem frontAdvance_advances (bare : window.Bare old new) (diagonal : Int) (entry : Nat) :
    Advances window.oldCount window.newCount diagonal entry
      (frontAdvance old new window diagonal entry) := by
  have inside : ∀ x y, window.frontSame old new x y → x < window.oldCount ∧ y < window.newCount :=
    fun _ _ isSame => ⟨isSame.1, isSame.2.1⟩
  by_cases low : diagonal ≤ entry
  · exact (follows_frontAdvance old new window).advances inside bare.front_first_differs
      ((mirrored_frontSame old new window).last_differs inside bare.back_first_differs) low
  · unfold frontAdvance
    exact Or.inl (if_neg fun within => low (by omega))

theorem backAdvance_advances (bare : window.Bare old new) (diagonal : Int) (entry : Nat) :
    Advances window.oldCount window.newCount diagonal entry
      (backAdvance old new window diagonal entry) := by
  have inside : ∀ x y, window.backSame old new x y → x < window.oldCount ∧ y < window.newCount :=
    fun _ _ isSame => ⟨isSame.1, isSame.2.1⟩
  by_cases low : diagonal ≤ entry
  · exact (follows_backAdvance old new window).advances inside bare.back_first_differs
      ((mirrored_backSame old new window).last_differs inside bare.front_first_differs) low
  · unfold backAdvance
    exact Or.inl (if_neg fun within => low (by omega))

end

/-! ### Steps -/

/-- What a step does to the search it belongs to, `mine`, and to the opposite one, and where it cuts
when it meets it. -/
structure StepRule (window : Window) (lag edits : Nat) (advance : Int → Nat → Nat)
    (cutAt : Int → Nat → Nat × Nat) (mine other : Search → Frontier)
    (step : Int → Search → Progress) : Prop where
  advances : ∀ diagonal entry,
    Advances window.oldCount window.newCount diagonal entry (advance diagonal entry)
  going : ∀ diagonal search next, step diagonal search = .going next →
    other next = other search ∧
    mine next = (mine search).record diagonal ((mine search).entry edits diagonal +
      advance diagonal ((mine search).entry edits diagonal)) ∧
    (Compared window.oldCount window.newCount lag edits diagonal →
      (mine search).entry edits diagonal + advance diagonal ((mine search).entry edits diagonal) +
        (other search).point (lastDiagonal window.oldCount window.newCount - diagonal) <
          window.oldCount)
  met : ∀ diagonal search x y, step diagonal search = .met x y →
    Compared window.oldCount window.newCount lag edits diagonal ∧
    window.oldCount ≤
      (mine search).entry edits diagonal + advance diagonal ((mine search).entry edits diagonal) +
        (other search).point (lastDiagonal window.oldCount window.newCount - diagonal) ∧
    cutAt diagonal ((mine search).entry edits diagonal) = (x, y)

section

variable {α : Type} [BEq α]

/-- Where the search from the front cuts: where it enters the diagonal. -/
def Window.frontCut (window : Window) (diagonal : Int) (entry : Nat) : Nat × Nat :=
  (window.oldStart + entry, window.newStart + ((entry : Int) - diagonal).toNat)

/-- Where the search from the back cuts: where it leaves the diagonal. -/
def Window.backCut (old new : Array α) (window : Window) (diagonal : Int) (entry : Nat) :
    Nat × Nat :=
  (window.oldStop - (entry + backAdvance old new window diagonal entry),
    window.newStop -
      (((entry : Int) - diagonal).toNat + backAdvance old new window diagonal entry))

theorem frontStep_eq (old new : Array α) (window : Window) (edits diagonal : Int)
    (search : Search) :
    frontStep old new window edits diagonal search =
      let entry := search.front.entry edits diagonal
      let advance := frontAdvance old new window diagonal entry
      let last := lastDiagonal window.oldCount window.newCount
      if last % 2 ≠ 0 ∧ (diagonal - last).natAbs + 1 ≤ edits.toNat ∧
          window.oldCount ≤ entry + advance + search.back.point (last - diagonal) then
        .met (window.oldStart + entry) (window.newStart + ((entry : Int) - diagonal).toNat)
      else .going { search with front := search.front.record diagonal (entry + advance) } :=
  rfl

theorem backStep_eq (old new : Array α) (window : Window) (edits diagonal : Int)
    (search : Search) :
    backStep old new window edits diagonal search =
      let entry := search.back.entry edits diagonal
      let advance := backAdvance old new window diagonal entry
      let last := lastDiagonal window.oldCount window.newCount
      if last % 2 = 0 ∧ (diagonal - last).natAbs ≤ edits.toNat ∧
          window.oldCount ≤ entry + advance + search.front.point (last - diagonal) then
        .met (window.oldStop - (entry + advance))
          (window.newStop - (((entry : Int) - diagonal).toNat + advance))
      else .going { search with back := search.back.record diagonal (entry + advance) } :=
  rfl

variable [LawfulBEq α] {old new : Array α} {window : Window}

theorem frontStep_rule (bare : window.Bare old new) (edits : Nat) :
    StepRule window 1 edits (frontAdvance old new window) window.frontCut Search.front Search.back
      (frontStep old new window edits) where
  advances := frontAdvance_advances bare
  going := by
    intro diagonal search next outcome
    rw [frontStep_eq] at outcome
    simp only at outcome
    split at outcome
    · cases outcome
    · rename_i notMet
      cases outcome
      refine ⟨rfl, rfl, ?_⟩
      intro compared
      unfold Compared at compared
      omega
  met := by
    intro diagonal search x y outcome
    rw [frontStep_eq] at outcome
    simp only at outcome
    split at outcome
    · rename_i meets
      cases outcome
      refine ⟨?_, meets.2.2, rfl⟩
      unfold Compared
      omega
    · cases outcome

theorem backStep_rule (bare : window.Bare old new) (edits : Nat) :
    StepRule window 0 edits (backAdvance old new window) (window.backCut old new) Search.back
      Search.front (backStep old new window edits) where
  advances := backAdvance_advances bare
  going := by
    intro diagonal search next outcome
    rw [backStep_eq] at outcome
    simp only at outcome
    split at outcome
    · cases outcome
    · rename_i notMet
      cases outcome
      refine ⟨rfl, rfl, ?_⟩
      intro compared
      unfold Compared at compared
      omega
  met := by
    intro diagonal search x y outcome
    rw [backStep_eq] at outcome
    simp only at outcome
    split at outcome
    · rename_i meets
      cases outcome
      refine ⟨?_, meets.2.2, rfl⟩
      unfold Compared
      omega
    · cases outcome

end

end Codemod.Diff
