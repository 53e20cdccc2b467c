import Codemod.Proofs.Diff.EditPath

/-!
A search reaches the furthest points.

On every diagonal of its level a search stands at a point that a path comes to, and no path of as
many edits comes further. A sweep keeps this: a path enters a diagonal from one of the two beside
it, where the search stood at least as far, and from there both follow the elements that are the
same.
-/

set_option autoImplicit false

namespace Codemod.Diff

/-- From a point the search follows all elements that are the same, and no others. -/
structure Follows (same : Nat → Nat → Prop) (advance : Int → Nat → Nat) : Prop where
  along : ∀ x y offset : Nat, offset < advance ((x : Int) - y) x → same (x + offset) (y + offset)
  stops : ∀ x y : Nat, ¬same (x + advance ((x : Int) - y) x) (y + advance ((x : Int) - y) x)

/-- Common elements lead across no border, and neither away from the start nor into the opposite
corner where the elements there differ. -/
theorem Follows.advances {same : Nat → Nat → Prop} {advance : Int → Nat → Nat}
    {oldCount newCount : Nat} (follows : Follows same advance)
    (inside : ∀ x y, same x y → x < oldCount ∧ y < newCount) (firstDiffers : ¬same 0 0)
    (lastDiffers : ¬same (oldCount - 1) (newCount - 1)) {diagonal : Int} {entry : Nat}
    (low : diagonal ≤ entry) :
    Advances oldCount newCount diagonal entry (advance diagonal entry) := by
  obtain ⟨y, yEq⟩ := Int.eq_ofNat_of_zero_le (Int.sub_nonneg_of_le low)
  obtain rfl : diagonal = (entry : Int) - y := by omega
  have along := follows.along entry y
  generalize advance ((entry : Int) - y) entry = count at along
  by_cases still : count = 0
  · exact Or.inl still
  · have last := along (count - 1) (by omega)
    have within := inside _ _ last
    refine Or.inr ⟨by omega, by omega, ?_, ?_⟩
    · rintro ⟨rfl, _⟩
      obtain rfl : y = 0 := by omega
      exact firstDiffers (along 0 (Nat.pos_of_ne_zero still))
    · rintro ⟨oldEnd, newEnd⟩
      rw [show entry + (count - 1) = oldCount - 1 by omega,
        show y + (count - 1) = newCount - 1 by omega] at last
      exact lastDiffers last

/-- The points of a search with `edits` edits: paths come to them, and no path comes further. -/
structure Frontier.Furthest (same : Nat → Nat → Prop) (edits : Nat) (frontier : Frontier) :
    Prop where
  near : ∀ diagonal, OnLevel edits diagonal →
    Near same edits (frontier.point diagonal) ((frontier.point diagonal : Int) - diagonal).toNat
  covers : ∀ fewer x y : Nat, fewer ≤ edits → EditPath same fewer x y →
    OnLevel edits ((x : Int) - y) → x ≤ frontier.point ((x : Int) - y)

/-- The same of the level before. -/
def Frontier.FurthestBefore (same : Nat → Nat → Prop) (frontier : Frontier) : Nat → Prop
  | 0 => True
  | edits + 1 => frontier.Furthest same edits

theorem Frontier.FurthestBefore.furthest {same : Nat → Nat → Prop} {edits : Nat}
    {frontier : Frontier} (before : frontier.FurthestBefore same edits) (some : 1 ≤ edits) :
    frontier.Furthest same (edits - 1) := by
  obtain ⟨earlier, rfl⟩ := Nat.exists_eq_add_of_le' some
  exact before

section

variable {same : Nat → Nat → Prop} {oldCount newCount lag bound edits : Nat}
  {advance : Int → Nat → Nat} {first other current : Frontier}

theorem Frontier.near_entry (ready : first.Ready oldCount newCount edits)
    (before : first.FurthestBefore same edits) {diagonal : Int} (onLevel : OnLevel edits diagonal) :
    Near same edits (first.entry edits diagonal)
      ((first.entry edits diagonal : Int) - diagonal).toNat := by
  cases edits with
  | zero =>
      rw [onLevel.zero, Frontier.entry_zero ready]
      exact ⟨0, Nat.le_refl 0, .start⟩
  | succ edits =>
      rcases Frontier.entry_cases first onLevel with ⟨above, entryEq, _⟩ | ⟨below, entryEq, _⟩
      · have low := Frontier.Level.low ready _ above
        have inserted := (Frontier.Furthest.near before _ above).insert
        rw [show ((first.point (diagonal + 1) : Int) - (diagonal + 1)).toNat + 1 =
          ((first.point (diagonal + 1) : Int) - diagonal).toNat by omega] at inserted
        rw [entryEq]
        exact inserted
      · have low := Frontier.Level.low ready _ below
        have deleted := (Frontier.Furthest.near before _ below).delete
        rw [show ((first.point (diagonal - 1) : Int) - (diagonal - 1)).toNat =
          (((first.point (diagonal - 1) + 1 : Nat) : Int) - diagonal).toNat by omega] at deleted
        rw [entryEq]
        exact deleted

theorem Frontier.near_reach (ready : first.Ready oldCount newCount edits)
    (follows : Follows same advance) (before : first.FurthestBefore same edits) {diagonal : Int}
    (onLevel : OnLevel edits diagonal) :
    Near same edits
      (first.entry edits diagonal + advance diagonal (first.entry edits diagonal))
      (((first.entry edits diagonal : Int) - diagonal).toNat +
        advance diagonal (first.entry edits diagonal)) := by
  have low := Frontier.le_entry ready onLevel
  have along := follows.along (first.entry edits diagonal)
    ((first.entry edits diagonal : Int) - diagonal).toNat
  rw [show (first.entry edits diagonal : Int) -
    ((first.entry edits diagonal : Int) - diagonal).toNat = diagonal by omega] at along
  exact (Frontier.near_entry ready before onLevel).follow along

/-- The elements right behind a point that a sweep has recorded are not the same. -/
theorem Sweeping.stops {next : Int} (ended : next < -edits)
    (sweeping : Sweeping oldCount newCount lag bound edits advance first other current next)
    (ready : first.Ready oldCount newCount edits) (follows : Follows same advance) {x y : Nat}
    (onLevel : OnLevel edits ((x : Int) - y)) (reached : current.point ((x : Int) - y) = x) :
    ¬same x y := by
  obtain ⟨_, pointEq⟩ := sweeping.done_all ended onLevel
  have low := Frontier.le_entry ready onLevel
  have stops := follows.stops (first.entry edits ((x : Int) - y))
    ((first.entry edits ((x : Int) - y) : Int) - ((x : Int) - y)).toNat
  rw [show (first.entry edits ((x : Int) - y) : Int) -
    ((first.entry edits ((x : Int) - y) : Int) - ((x : Int) - y)).toNat = (x : Int) - y by omega,
    ← pointEq, reached, show ((first.entry edits ((x : Int) - y) : Int) - ((x : Int) - y)).toNat +
      advance ((x : Int) - y) (first.entry edits ((x : Int) - y)) = y by omega] at stops
  exact stops

/-- A sweep that is over has brought the search to the furthest points of its level. -/
theorem Sweeping.furthest {next : Int} (ended : next < -edits)
    (sweeping : Sweeping oldCount newCount lag bound edits advance first other current next)
    (ready : first.Ready oldCount newCount edits) (follows : Follows same advance)
    (before : first.FurthestBefore same edits) : current.Furthest same edits where
  near := by
    intro diagonal onLevel
    obtain ⟨_, pointEq⟩ := sweeping.done_all ended onLevel
    have low := Frontier.le_entry ready onLevel
    have near := Frontier.near_reach ready follows before onLevel
    rw [← pointEq, show ((first.entry edits diagonal : Int) - diagonal).toNat +
      advance diagonal (first.entry edits diagonal) =
        ((current.point diagonal : Int) - diagonal).toNat by omega] at near
    exact near
  covers := by
    intro fewer x y atMost path onLevel
    induction path with
    | start => exact Nat.zero_le _
    | @keep fewer x y path isSame ih =>
        -- What has stopped the search differs, so a path that goes on has not come up to it.
        rw [show ((x + 1 : Nat) : Int) - (y + 1 : Nat) = (x : Int) - y by omega] at onLevel ⊢
        refine Nat.lt_of_le_of_ne (ih atMost onLevel) ?_
        intro reached
        exact sweeping.stops ended ready follows onLevel reached.symm isSame
    | @delete fewer x y path _ =>
        -- Before the edit the path was on a diagonal of the level before, which has covered it.
        obtain ⟨earlier, rfl⟩ := Nat.exists_eq_add_of_le' (Nat.le_trans (Nat.le_add_left 1 fewer)
          atMost)
        obtain ⟨_, pointEq⟩ := sweeping.done_all ended onLevel
        have pathOn := path.onLevel
        have below : OnLevel earlier (((x + 1 : Nat) : Int) - y - 1) := by
          unfold OnLevel at *
          omega
        have ahead := Frontier.entry_gt_below first onLevel below
        rw [show ((x + 1 : Nat) : Int) - y - 1 = (x : Int) - y by omega] at ahead below
        have covered := Frontier.Furthest.covers before fewer x y (by omega) path below
        omega
    | @insert fewer x y path _ =>
        obtain ⟨earlier, rfl⟩ := Nat.exists_eq_add_of_le' (Nat.le_trans (Nat.le_add_left 1 fewer)
          atMost)
        obtain ⟨_, pointEq⟩ := sweeping.done_all ended onLevel
        have pathOn := path.onLevel
        have above : OnLevel earlier ((x : Int) - (y + 1 : Nat) + 1) := by
          unfold OnLevel at *
          omega
        have ahead := Frontier.entry_ge_above first onLevel above
        rw [show (x : Int) - (y + 1 : Nat) + 1 = (x : Int) - y by omega] at ahead above
        have covered := Frontier.Furthest.covers before fewer x y (by omega) path above
        omega

/-! ### Two searches -/

/-- What is the same from one corner of a window is the same from the opposite one. -/
def Mirrored (oldCount newCount : Nat) (same mirror : Nat → Nat → Prop) : Prop :=
  ∀ x y, x < oldCount → y < newCount → same x y → mirror (oldCount - 1 - x) (newCount - 1 - y)

variable {mirror : Nat → Nat → Prop}

/-- Where the first elements differ from the one corner, the last ones differ from the other. -/
theorem Mirrored.last_differs (mirrored : Mirrored oldCount newCount same mirror)
    (inside : ∀ x y, same x y → x < oldCount ∧ y < newCount) (firstDiffers : ¬mirror 0 0) :
    ¬same (oldCount - 1) (newCount - 1) := by
  intro isSame
  obtain ⟨oldWithin, newWithin⟩ := inside _ _ isSame
  have mirrorSame := mirrored _ _ oldWithin newWithin isSame
  rw [Nat.sub_self, Nat.sub_self] at mirrorSame
  exact firstDiffers mirrorSame

theorem EditPath.turn_behind (mirrored : Mirrored oldCount newCount same mirror) {x y : Nat}
    (oldWithin : x ≤ oldCount) (newWithin : y ≤ newCount)
    (path : EditPath (behind same x y) edits (oldCount - x) (newCount - y)) :
    EditPath mirror edits (oldCount - x) (newCount - y) := by
  refine path.reverse.imp ?_
  intro left right leftLt rightLt isSame
  change same (x + (oldCount - x - 1 - left)) (y + (newCount - y - 1 - right)) at isSame
  have mirrorSame := mirrored _ _ (by omega) (by omega) isSame
  rw [show oldCount - 1 - (x + (oldCount - x - 1 - left)) = left by omega,
    show newCount - 1 - (y + (newCount - y - 1 - right)) = right by omega] at mirrorSame
  exact mirrorSame

theorem EditPath.turn (mirrored : Mirrored oldCount newCount same mirror)
    (path : EditPath same edits oldCount newCount) : EditPath mirror edits oldCount newCount := by
  refine EditPath.turn_behind (x := 0) (y := 0) mirrored (Nat.zero_le _) (Nat.zero_le _) ?_
  refine path.imp ?_
  intro left right _ _ isSame
  unfold behind
  rw [Nat.zero_add, Nat.zero_add]
  exact isSame

/-- Two searches that cover the two parts of a path overlap on a diagonal of both levels. -/
theorem Frontier.Furthest.overlap {front back : Frontier} {edits' : Nat}
    (frontFurthest : front.Furthest same edits) (backFurthest : back.Furthest mirror edits')
    (mirrored : Mirrored oldCount newCount same mirror)
    (path : EditPath same (edits + edits') oldCount newCount) :
    ∃ diagonal, OnLevel edits diagonal ∧
      OnLevel edits' (lastDiagonal oldCount newCount - diagonal) ∧
      oldCount ≤ front.point diagonal +
        back.point (lastDiagonal oldCount newCount - diagonal) := by
  obtain ⟨x, y, oldWithin, newWithin, ahead, rest⟩ := path.divide (Nat.le_add_right edits edits')
  rw [Nat.add_sub_cancel_left] at rest
  have back := EditPath.turn_behind mirrored oldWithin newWithin rest
  have frontOn := ahead.onLevel
  have backOn := back.onLevel
  have frontCovers := frontFurthest.covers _ _ _ (Nat.le_refl _) ahead frontOn
  have backCovers := backFurthest.covers _ _ _ (Nat.le_refl _) back backOn
  have diagonalEq : ((oldCount - x : Nat) : Int) - (newCount - y : Nat) =
      lastDiagonal oldCount newCount - ((x : Int) - y) := by
    unfold lastDiagonal
    omega
  rw [diagonalEq] at backOn backCovers
  exact ⟨(x : Int) - y, frontOn, backOn, by omega⟩

/-- If two searches are still apart, no path has as many edits as both have made together. -/
theorem Sweeping.no_path {next : Int} (ended : next < -edits)
    (sweeping : Sweeping oldCount newCount lag bound edits advance first other current next)
    (lagLe : lag ≤ 1) (lagged : lag ≤ edits) (furthest : current.Furthest same edits)
    (opposite : other.Furthest mirror (edits - lag))
    (mirrored : Mirrored oldCount newCount same mirror) :
    ¬EditPath same (2 * edits - lag) oldCount newCount := by
  intro path
  have endsOn := path.onLevel
  rw [show 2 * edits - lag = edits + (edits - lag) by omega] at path
  obtain ⟨diagonal, onLevel, otherOn, overlap⟩ := furthest.overlap opposite mirrored path
  have compared : Compared oldCount newCount lag edits diagonal := by
    unfold OnLevel Compared lastDiagonal at *
    omega
  have apart := sweeping.apart diagonal onLevel (by unfold OnLevel at onLevel; omega) compared
  omega

/-- A path to a point of a diagonal, from one that ends elsewhere on it: what lies between must be
the same, if the point is ahead. -/
theorem Near.along_diagonal {x y x' y' : Nat} (near : Near same edits x y)
    (diagonalEq : (x : Int) - y = (x' : Int) - y')
    (between : ∀ left right : Nat, x ≤ left → left < x' → (left : Int) - right = (x : Int) - y →
      same left right) :
    Near same edits x' y' := by
  rcases Nat.le_total x x' with isAhead | isBehind
  · obtain ⟨count, rfl⟩ := Nat.exists_eq_add_of_le isAhead
    obtain rfl : y' = y + count := by omega
    exact near.follow fun offset within => between _ _ (by omega) (by omega) (by omega)
  · obtain ⟨count, rfl⟩ := Nat.exists_eq_add_of_le isBehind
    obtain rfl : y = y' + count := by omega
    exact near.back

end

end Codemod.Diff
