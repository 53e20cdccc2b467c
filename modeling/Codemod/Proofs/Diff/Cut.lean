import Codemod.Proofs.Diff.Step

/-!
Searching for a cut always ends at a point that divides the window into two smaller ones, and a
shortest path passes it.

The searches meet at the first number of edits with which their points overlap. Each covers its
part of every path, so until then no path is as short as what both have made. At the meeting the
one search has come to the point itself and the other one at least as far, and together they are a
path of no more edits than that.
-/

set_option autoImplicit false

namespace Codemod.Diff

/-! ### Cutting a window -/

/-- A point that cuts a window into two that are both smaller. -/
def Window.Divides (window : Window) (x y : Nat) : Prop :=
  window.oldStart ≤ x ∧ x ≤ window.oldStop ∧ window.newStart ≤ y ∧ y ≤ window.newStop ∧
    window.oldStart + window.newStart < x + y ∧ x + y < window.oldStop + window.newStop

section Meeting

variable {window : Window} {oldCount newCount edits entry : Nat} {diagonal : Int}

/-- Common elements keep a path inside the window and away from the opposite corner. -/
theorem EntersInside.advance {advance : Nat}
    (enters : EntersInside oldCount newCount edits diagonal entry)
    (advances : Advances oldCount newCount diagonal entry advance) :
    EntersInside oldCount newCount edits diagonal (entry + advance) := by
  obtain ⟨low, oldBound, newBound, far, notCorner⟩ := enters
  rcases advances with rfl | ⟨oldWithin, newWithin, _, notEnd⟩
  · exact ⟨low, oldBound, newBound, far, notCorner⟩
  · exact ⟨by omega, oldWithin, by omega, by omega, by omega⟩

theorem EntersInside.newPoint_advance
    (enters : EntersInside oldCount newCount edits diagonal entry) (advance : Nat) :
    ((entry : Int) - diagonal).toNat + advance =
      (((entry + advance : Nat) : Int) - diagonal).toNat := by
  have low := enters.low
  omega

/-- A path inside the window that is neither at the start nor at the opposite corner divides it. -/
theorem EntersInside.divides_from_front
    (enters : EntersInside window.oldCount window.newCount edits diagonal entry)
    (someOld : window.oldStart < window.oldStop) (someNew : window.newStart < window.newStop)
    (away : 0 < 2 * (entry : Int) - diagonal) :
    window.Divides (window.oldStart + entry)
      (window.newStart + ((entry : Int) - diagonal).toNat) := by
  obtain ⟨low, oldBound, newBound, _, notCorner⟩ := enters
  unfold Window.oldCount at oldBound notCorner
  unfold Window.newCount at newBound notCorner
  refine ⟨?_, ?_, ?_, ?_, ?_, ?_⟩ <;> omega

theorem EntersInside.divides_from_back
    (enters : EntersInside window.oldCount window.newCount edits diagonal entry)
    (someOld : window.oldStart < window.oldStop) (someNew : window.newStart < window.newStop)
    (away : 0 < 2 * (entry : Int) - diagonal) :
    window.Divides (window.oldStop - entry)
      (window.newStop - ((entry : Int) - diagonal).toNat) := by
  obtain ⟨low, oldBound, newBound, _, notCorner⟩ := enters
  unfold Window.oldCount at oldBound notCorner
  unfold Window.newCount at newBound notCorner
  refine ⟨?_, ?_, ?_, ?_, ?_, ?_⟩ <;> omega

end Meeting

/-! ### Meetings -/

/-- A search that enters a diagonal from `first` overlaps the opposite one there. -/
structure Meets (window : Window) (lag edits : Nat) (advance : Int → Nat → Nat)
    (first other : Frontier) (diagonal : Int) : Prop where
  onLevel : OnLevel edits diagonal
  compared : Compared window.oldCount window.newCount lag edits diagonal
  overlap : window.oldCount ≤
    first.entry edits diagonal + advance diagonal (first.entry edits diagonal) +
      other.point (lastDiagonal window.oldCount window.newCount - diagonal)

section

variable {α : Type} {old new : Array α} {window : Window}

/-- No path through a window has fewer edits. -/
def Window.Costs (old new : Array α) (window : Window) (least : Nat) : Prop :=
  ∀ edits, EditPath (window.frontSame old new) edits window.oldCount window.newCount →
    least ≤ edits

/-- A shortest path through a window passes a point: there are a path to it and a path from it that
together have no more edits than any path through the window. -/
def Window.Passes (old new : Array α) (window : Window) (x y : Nat) : Prop :=
  ∃ front back,
    EditPath (window.frontSame old new) front (x - window.oldStart) (y - window.newStart) ∧
    EditPath (window.backSame old new) back (window.oldStop - x) (window.newStop - y) ∧
    window.Costs old new (front + back)

theorem Window.Costs.passes (front back : Nat) {x y : Nat}
    (costs : window.Costs old new (front + back))
    (frontNear : Near (window.frontSame old new) front (x - window.oldStart) (y - window.newStart))
    (backNear : Near (window.backSame old new) back (window.oldStop - x) (window.newStop - y)) :
    window.Passes old new x y := by
  obtain ⟨frontFewer, frontLe, frontPath⟩ := frontNear
  obtain ⟨backFewer, backLe, backPath⟩ := backNear
  refine ⟨frontFewer, backFewer, frontPath, backPath, ?_⟩
  intro edits path
  exact Nat.le_trans (Nat.add_le_add frontLe backLe) (costs edits path)

variable [BEq α] [LawfulBEq α]

section

variable {edits : Nat} {first other : Frontier} {diagonal : Int} {x y : Nat}

omit [LawfulBEq α] in
theorem Meets.divides_front (bare : window.Bare old new)
    (meets : Meets window 1 edits (frontAdvance old new window) first other diagonal)
    (enters : EntersInside window.oldCount window.newCount edits diagonal
      (first.entry edits diagonal))
    (cutAt : window.frontCut diagonal (first.entry edits diagonal) = (x, y)) :
    window.Divides x y := by
  cases cutAt
  refine enters.divides_from_front bare.someOld bare.someNew ?_
  -- An odd lag means that an edit has been made, and an edit leads away from the start.
  have someEdit : 1 ≤ edits := Nat.le_trans (Nat.le_add_left 1 _) meets.compared.2
  have far := enters.far
  omega

theorem Meets.divides_back (bare : window.Bare old new)
    (meets : Meets window 0 edits (backAdvance old new window) first other diagonal)
    (enters : EntersInside window.oldCount window.newCount edits diagonal
      (first.entry edits diagonal))
    (stuck : edits = 0 → other.point 0 = 0)
    (cutAt : window.backCut old new diagonal (first.entry edits diagonal) = (x, y)) :
    window.Divides x y := by
  cases cutAt
  have advances := backAdvance_advances bare diagonal (first.entry edits diagonal)
  rw [enters.newPoint_advance]
  refine (enters.advance advances).divides_from_back bare.someOld bare.someNew ?_
  by_cases none : edits = 0
  · -- A meeting without an edit would need common ends.
    have zero : diagonal = 0 := OnLevel.zero (none ▸ meets.onLevel)
    have atStart := stuck none
    have overlap := meets.overlap
    have compared := meets.compared
    unfold Compared at compared
    have someOld : 0 < window.oldCount := Nat.sub_pos_of_lt bare.someOld
    rw [show lastDiagonal window.oldCount window.newCount - diagonal = 0 by omega, atStart]
      at overlap
    omega
  · have far := (enters.advance advances).far
    omega

theorem Meets.passes_front
    (meets : Meets window 1 edits (frontAdvance old new window) first other diagonal)
    (enters : EntersInside window.oldCount window.newCount edits diagonal
      (first.entry edits diagonal))
    (ready : first.Ready window.oldCount window.newCount edits)
    (before : first.FurthestBefore (window.frontSame old new) edits)
    (otherLevel : other.Level window.oldCount window.newCount (edits - 1))
    (opposite : other.Furthest (window.backSame old new) (edits - 1))
    (costs : window.Costs old new (2 * edits - 1))
    (cutAt : window.frontCut diagonal (first.entry edits diagonal) = (x, y)) :
    window.Passes old new x y := by
  have near := Frontier.near_entry ready before meets.onLevel
  obtain ⟨lagged, oppositeOn⟩ := meets.compared.opposite meets.onLevel
  have oppositeNear := opposite.near _ oppositeOn
  have oppositeLow := otherLevel.low _ oppositeOn
  have overlap := meets.overlap
  obtain ⟨low, oldBound, newBound, _, _⟩ := enters
  cases cutAt
  generalize first.entry edits diagonal = entry at *
  obtain ⟨right, rightEq⟩ := Int.eq_ofNat_of_zero_le (show 0 ≤ (entry : Int) - diagonal by omega)
  obtain rfl : diagonal = (entry : Int) - right := by omega
  rw [rightEq, Int.toNat_natCast] at near ⊢
  have along := (follows_frontAdvance old new window).along entry right
  unfold lastDiagonal at *
  refine Window.Costs.passes edits (edits - 1) ?_ ?_ ?_
  · rw [show edits + (edits - 1) = 2 * edits - 1 by omega]
    exact costs
  · rw [Nat.add_sub_cancel_left, Nat.add_sub_cancel_left]
    exact near
  · refine oppositeNear.along_diagonal ?_ ?_
    · unfold Window.oldCount Window.newCount at *
      omega
    · -- The search from the front has followed all that the other one has not come to.
      intro left left' leftGe leftLt onDiagonal
      have isSame := along (window.oldCount - 1 - left - entry) (by
        unfold Window.oldCount Window.newCount at *
        omega)
      have mirrorSame := mirrored_frontSame old new window _ _ isSame.1 isSame.2.1 isSame
      unfold Window.oldCount Window.newCount at *
      rw [show window.oldStop - window.oldStart - 1 -
          (entry + (window.oldStop - window.oldStart - 1 - left - entry)) = left by omega,
        show window.newStop - window.newStart - 1 -
          (right + (window.oldStop - window.oldStart - 1 - left - entry)) = left' by omega]
        at mirrorSame
      exact mirrorSame

theorem Meets.passes_back (bare : window.Bare old new)
    (meets : Meets window 0 edits (backAdvance old new window) first other diagonal)
    (enters : EntersInside window.oldCount window.newCount edits diagonal
      (first.entry edits diagonal))
    (ready : first.Ready window.oldCount window.newCount edits)
    (before : first.FurthestBefore (window.backSame old new) edits)
    (otherLevel : other.Level window.oldCount window.newCount edits)
    (opposite : other.Furthest (window.frontSame old new) edits)
    (costs : window.Costs old new (2 * edits))
    (cutAt : window.backCut old new diagonal (first.entry edits diagonal) = (x, y)) :
    window.Passes old new x y := by
  have near := Frontier.near_reach ready (follows_backAdvance old new window) before meets.onLevel
  obtain ⟨_, oppositeOn⟩ := meets.compared.opposite meets.onLevel
  have oppositeNear := opposite.near _ oppositeOn
  have oppositeLow := otherLevel.low _ oppositeOn
  have overlap := meets.overlap
  have reaches := enters.advance (backAdvance_advances bare diagonal _)
  have newPoint := enters.newPoint_advance (backAdvance old new window diagonal
    (first.entry edits diagonal))
  obtain ⟨low, oldBound, newBound, _, _⟩ := reaches
  cases cutAt
  rw [newPoint] at near ⊢
  generalize first.entry edits diagonal + backAdvance old new window diagonal
    (first.entry edits diagonal) = reached at *
  unfold lastDiagonal at *
  unfold Window.oldCount Window.newCount at *
  refine Window.Costs.passes edits edits ?_ ?_ ?_
  · rw [← Nat.two_mul]
    exact costs
  · refine oppositeNear.along_diagonal ?_ ?_
    · omega
    · -- The cut is where the searches overlap, so nothing lies between them.
      intro left left' leftGe leftLt _
      omega
  · rw [Nat.sub_sub_self (by omega), Nat.sub_sub_self (by omega)]
    exact near

end

end

/-! ### Whole searches -/

/-- How a sweep may end: with a meeting, or with every diagonal done. -/
def SweepEnds (window : Window) (lag bound edits : Nat) (advance : Int → Nat → Nat)
    (cutAt : Int → Nat → Nat × Nat) (mine other : Search → Frontier) (first : Frontier)
    (search : Search) : Progress → Prop
  | .met x y => ∃ diagonal, Meets window lag edits advance first (other search) diagonal ∧
      cutAt diagonal (first.entry edits diagonal) = (x, y)
  | .going next =>
      other next = other search ∧
        ∃ last : Int, last < -edits ∧
          Sweeping window.oldCount window.newCount lag bound edits advance first (other search)
            (mine next) last

theorem sweep_ends {window : Window} {lag bound edits : Nat} {advance : Int → Nat → Nat}
    {cutAt : Int → Nat → Nat × Nat} {mine other : Search → Frontier}
    {step : Int → Search → Progress}
    (rule : StepRule window lag edits advance cutAt mine other step) (enough : edits < bound)
    {first : Frontier} (count : Nat) :
    ∀ (next : Int) (search : Search), next = 2 * count - edits - 2 → count ≤ edits + 1 →
      Sweeping window.oldCount window.newCount lag bound edits advance first (other search)
        (mine search) next →
      SweepEnds window lag bound edits advance cutAt mine other first search
        (sweep step count next search) := by
  induction count with
  | zero =>
      intro next search nextEq _ sweeping
      exact ⟨rfl, next, by omega, sweeping⟩
  | succ count ih =>
      intro next search nextEq atMost sweeping
      have onLevel : OnLevel edits next := by
        unfold OnLevel
        omega
      unfold sweep
      cases outcome : step next search with
      | met x y =>
          obtain ⟨compared, overlap, cutEq⟩ := rule.met next search x y outcome
          rw [sweeping.entry_eq enough onLevel] at overlap cutEq
          exact ⟨next, ⟨onLevel, compared, overlap⟩, cutEq⟩
      | going after =>
          obtain ⟨otherEq, mineEq, apart⟩ := rule.going next search after outcome
          have stepped := sweeping.step enough onLevel (rule.advances next _) apart
          rw [← mineEq, ← otherEq] at stepped
          have ends := ih (next - 2) after (by omega) (by omega) stepped
          unfold SweepEnds at ends ⊢
          rw [otherEq] at ends
          exact ends

/-- What holds of both searches before the round with `edits` edits. -/
structure Search.Prepared {α : Type} (old new : Array α) (window : Window) (bound edits : Nat)
    (search : Search) : Prop where
  frontRoom : search.front.HasRoom bound
  backRoom : search.back.HasRoom bound
  frontReady : search.front.Ready window.oldCount window.newCount edits
  backReady : search.back.Ready window.oldCount window.newCount edits
  frontInside : search.front.InsideBefore window.oldCount window.newCount 1 edits
  backInside : search.back.InsideBefore window.oldCount window.newCount 0 edits
  frontFurthest : search.front.FurthestBefore (window.frontSame old new) edits
  backFurthest : search.back.FurthestBefore (window.backSame old new) edits
  costs : window.Costs old new (2 * edits - 1)

/-- What holds between the two sweeps of a round: the search from the front, which started from
`first`, is over with its sweep, and the one from the back has not started. -/
structure Search.Halfway {α : Type} [BEq α] (old new : Array α) (window : Window)
    (bound edits : Nat) (first : Frontier) (search : Search) : Prop where
  frontSweep : ∃ last : Int, last < -edits ∧
    Sweeping window.oldCount window.newCount 1 bound edits (frontAdvance old new window) first
      search.back search.front last
  frontReady : first.Ready window.oldCount window.newCount edits
  backRoom : search.back.HasRoom bound
  backReady : search.back.Ready window.oldCount window.newCount edits
  backInside : search.back.InsideBefore window.oldCount window.newCount 0 edits
  frontFurthest : search.front.Furthest (window.frontSame old new) edits
  backFurthest : search.back.FurthestBefore (window.backSame old new) edits
  costs : window.Costs old new (2 * edits)

section

variable {α : Type} [BEq α] [LawfulBEq α] {old new : Array α} {window : Window}
  {bound edits : Nat} {search : Search}

/-- The sweep from the front ends at a point that divides the window and that a shortest path
passes, or halfway through the round. -/
theorem Search.Prepared.front_ends (bare : window.Bare old new) (enough : edits < bound)
    (prepared : search.Prepared old new window bound edits) :
    (∃ x y, (window.Divides x y ∧ window.Passes old new x y) ∧
      sweep (frontStep old new window edits) (edits + 1) edits search = .met x y) ∨
    (∃ forward : Search, forward.Halfway old new window bound edits search.front ∧
      sweep (frontStep old new window edits) (edits + 1) edits search = .going forward) := by
  have ends := sweep_ends (frontStep_rule bare edits) enough (edits + 1) edits search
    (by omega) (by omega) (Sweeping.start prepared.frontRoom)
  cases outcome : sweep (frontStep old new window edits) (edits + 1) edits search with
  | met x y =>
      rw [outcome] at ends
      obtain ⟨diagonal, meets, cutAt⟩ := ends
      have enters := Frontier.entersInside prepared.frontReady prepared.frontInside meets.onLevel
        meets.compared (Nat.sub_pos_of_lt bare.someOld) (Nat.sub_pos_of_lt bare.someNew)
      have someEdit : 1 ≤ edits := Nat.le_trans (Nat.le_add_left 1 _) meets.compared.2
      refine Or.inl ⟨x, y, ⟨meets.divides_front bare enters cutAt, ?_⟩, rfl⟩
      exact meets.passes_front enters prepared.frontReady prepared.frontFurthest
        (prepared.backReady.level someEdit) (prepared.backFurthest.furthest someEdit)
        prepared.costs cutAt
  | going forward =>
      rw [outcome] at ends
      obtain ⟨backEq, last, ended, sweeping⟩ := ends
      have furthest := sweeping.furthest ended prepared.frontReady
        (follows_frontAdvance old new window) prepared.frontFurthest
      have costs : window.Costs old new (2 * edits) := by
        intro cost path
        have atLeast := prepared.costs cost path
        refine Nat.le_of_not_lt fun fewer => ?_
        -- Only the odd number between what both rounds rule out is left.
        have someEdit : 1 ≤ edits := by omega
        obtain rfl : cost = 2 * edits - 1 := by omega
        exact sweeping.no_path ended (Nat.le_refl 1) someEdit furthest
          (prepared.backFurthest.furthest someEdit) (mirrored_frontSame old new window) path
      rw [← backEq] at sweeping
      exact Or.inr ⟨forward, ⟨⟨last, ended, sweeping⟩, prepared.frontReady,
        backEq ▸ prepared.backRoom, backEq ▸ prepared.backReady, backEq ▸ prepared.backInside,
        furthest, backEq ▸ prepared.backFurthest, costs⟩, rfl⟩

/-- The sweep from the back ends at such a point too, or before the next round; there are more
elements than edits then. -/
theorem Search.Halfway.back_ends {first : Frontier} (bare : window.Bare old new)
    (enough : edits < bound) (halfway : search.Halfway old new window bound edits first) :
    (∃ x y, (window.Divides x y ∧ window.Passes old new x y) ∧
      sweep (backStep old new window edits) (edits + 1) edits search = .met x y) ∨
    (∃ next : Search, next.Prepared old new window bound (edits + 1) ∧
      window.oldCount + window.newCount > 2 * edits ∧
      sweep (backStep old new window edits) (edits + 1) edits search = .going next) := by
  have someOld : 0 < window.oldCount := Nat.sub_pos_of_lt bare.someOld
  have someNew : 0 < window.newCount := Nat.sub_pos_of_lt bare.someNew
  obtain ⟨frontLast, frontOver, frontSweep⟩ := halfway.frontSweep
  have frontLevel := frontSweep.level frontOver halfway.frontReady
  have ends := sweep_ends (backStep_rule bare edits) enough (edits + 1) edits search
    (by omega) (by omega) (Sweeping.start halfway.backRoom)
  cases outcome : sweep (backStep old new window edits) (edits + 1) edits search with
  | met x y =>
      rw [outcome] at ends
      obtain ⟨diagonal, meets, cutAt⟩ := ends
      have enters := Frontier.entersInside halfway.backReady halfway.backInside meets.onLevel
        meets.compared someOld someNew
      refine Or.inl ⟨x, y, ⟨meets.divides_back bare enters frontLevel.stuck cutAt, ?_⟩, rfl⟩
      exact meets.passes_back bare enters halfway.backReady halfway.backFurthest frontLevel
        halfway.frontFurthest halfway.costs cutAt
  | going next =>
      rw [outcome] at ends
      obtain ⟨frontEq, last, ended, sweeping⟩ := ends
      have furthest := sweeping.furthest ended halfway.backReady
        (follows_backAdvance old new window) halfway.backFurthest
      have frontInside := frontSweep.inside frontOver halfway.backReady.level
      have costs : window.Costs old new (2 * (edits + 1) - 1) := by
        intro cost path
        refine Nat.succ_le_of_lt (Nat.lt_of_le_of_ne (halfway.costs cost path) ?_)
        rintro rfl
        -- The search from the back sees the path turned around.
        exact sweeping.no_path ended (Nat.zero_le 1) (Nat.zero_le edits) furthest
          halfway.frontFurthest (mirrored_backSame old new window)
          (path.turn (mirrored_frontSame old new window))
      refine Or.inr ⟨next, ?_, ?_, rfl⟩
      · exact ⟨frontEq ▸ frontSweep.room, sweeping.room, frontEq ▸ frontLevel,
          sweeping.level ended halfway.backReady, frontEq ▸ frontInside,
          sweeping.inside ended (fun _ => frontLevel), frontEq ▸ halfway.frontFurthest, furthest,
          costs⟩
      · exact frontSweep.edits_lt frontOver halfway.frontReady sweeping ended halfway.backReady
          someOld someNew

/-- One round ends at a point that divides the window and that a shortest path passes, or with both
searches one level further and still apart. -/
theorem round_ends (bare : window.Bare old new) (enough : edits < bound)
    (prepared : search.Prepared old new window bound edits) :
    (∃ x y, (window.Divides x y ∧ window.Passes old new x y) ∧
      ∀ left, middle? old new window (left + 1) edits search = some (x, y)) ∨
    (∃ next : Search, next.Prepared old new window bound (edits + 1) ∧
      window.oldCount + window.newCount > 2 * edits ∧
      ∀ left, middle? old new window (left + 1) edits search =
        middle? old new window left (edits + 1) next) := by
  rcases prepared.front_ends bare enough with ⟨x, y, found, frontOutcome⟩ |
    ⟨forward, halfway, frontOutcome⟩
  · refine Or.inl ⟨x, y, found, ?_⟩
    intro left
    unfold middle?
    rw [frontOutcome]
  · rcases halfway.back_ends bare enough with ⟨x, y, found, backOutcome⟩ |
      ⟨next, nextPrepared, more, backOutcome⟩
    · refine Or.inl ⟨x, y, found, ?_⟩
      intro left
      unfold middle?
      rw [frontOutcome]
      simp only [backOutcome]
    · refine Or.inr ⟨next, nextPrepared, more, ?_⟩
      intro left
      conv => lhs; unfold middle?
      rw [frontOutcome]
      simp only [backOutcome]

theorem middle?_divides (bare : window.Bare old new)
    (left : Nat) :
    ∀ (edits : Nat) (search : Search), edits + left + 1 = window.editBound →
      search.Prepared old new window window.editBound edits →
      ∃ x y, (window.Divides x y ∧ window.Passes old new x y) ∧
        middle? old new window (left + 1) edits search = some (x, y) := by
  induction left with
  | zero =>
      intro edits search total prepared
      rcases round_ends bare (by omega) prepared with
        ⟨x, y, divides, found⟩ | ⟨next, _, tooFew, _⟩
      · exact ⟨x, y, divides, found 0⟩
      · unfold Window.editBound at total
        omega
  | succ left ih =>
      intro edits search total prepared
      rcases round_ends bare (by omega) prepared with
        ⟨x, y, divides, found⟩ | ⟨next, nextPrepared, _, goesOn⟩
      · exact ⟨x, y, divides, found (left + 1)⟩
      · rw [goesOn]
        exact ih (edits + 1) next (by omega) nextPrepared

/-- A window without common ends is always cut, at a point that divides it and that a shortest path
passes. -/
theorem cut?_divides (bare : window.Bare old new) :
    ∃ x y, (window.Divides x y ∧ window.Passes old new x y) ∧
      cut? old new window = some (x, y) := by
  have enough : 0 + (window.editBound - 1) + 1 = window.editBound := by
    unfold Window.editBound
    omega
  have found := middle?_divides bare (window.editBound - 1) 0
    ⟨.start window.editBound, .start window.editBound⟩ enough
    ⟨Frontier.hasRoom_start _, Frontier.hasRoom_start _, Frontier.point_start _ _,
      Frontier.point_start _ _, trivial, trivial, trivial, trivial, fun _ _ => Nat.zero_le _⟩
  rw [Nat.zero_add] at enough
  rw [enough] at found
  exact found

end

end Codemod.Diff
