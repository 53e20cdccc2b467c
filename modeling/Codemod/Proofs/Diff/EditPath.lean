import Codemod.Proofs.Diff.Search

/-!
Paths of edits between two sequences.

A path starts in front of both sequences. It passes an element of the old one, which is an edit, an
element of the new one, which is an edit too, or one of both where they are the same, which is none.
All that a path knows of the sequences is where they are the same.

Main statements: paths can be put together, divided and turned around, and a point that lies farther
ahead on its diagonal takes no fewer edits.
-/

set_option autoImplicit false

namespace Codemod.Diff

/-- A path of so many edits that has passed the first `x` and the first `y` elements. -/
inductive EditPath (same : Nat → Nat → Prop) : (edits x y : Nat) → Prop
  | start : EditPath same 0 0 0
  | keep {edits x y : Nat} : EditPath same edits x y → same x y →
      EditPath same edits (x + 1) (y + 1)
  | delete {edits x y : Nat} : EditPath same edits x y → EditPath same (edits + 1) (x + 1) y
  | insert {edits x y : Nat} : EditPath same edits x y → EditPath same (edits + 1) x (y + 1)

/-- A point that a path of at most so many edits comes to. -/
def Near (same : Nat → Nat → Prop) (edits x y : Nat) : Prop :=
  ∃ fewer, fewer ≤ edits ∧ EditPath same fewer x y

/-- Where sequences are the same behind a point. -/
def behind (same : Nat → Nat → Prop) (x y : Nat) : Nat → Nat → Prop :=
  fun further further' => same (x + further) (y + further')

/-- Where sequences are the same in front of a point, counted backwards from there. -/
def ahead (same : Nat → Nat → Prop) (x y : Nat) : Nat → Nat → Prop :=
  fun back back' => same (x - 1 - back) (y - 1 - back')

section

variable {same same' : Nat → Nat → Prop} {edits edits' x y x' y' : Nat}

/-- A path asks only about the elements it may pass. -/
theorem EditPath.imp (path : EditPath same edits x y)
    (weaker : ∀ left right, left < x → right < y → same left right → same' left right) :
    EditPath same' edits x y := by
  induction path with
  | start => exact .start
  | keep _ isSame ih =>
      exact .keep (ih fun left right isLeft isRight => weaker left right (by omega) (by omega))
        (weaker _ _ (by omega) (by omega) isSame)
  | delete _ ih => exact .delete (ih fun left right isLeft => weaker left right (by omega))
  | insert _ ih =>
      exact .insert (ih fun left right isLeft isRight => weaker left right isLeft (by omega))

theorem EditPath.onLevel (path : EditPath same edits x y) : OnLevel edits ((x : Int) - y) := by
  unfold OnLevel
  induction path with
  | start => decide
  | keep _ _ ih => omega
  | delete _ ih => omega
  | insert _ ih => omega

/-! ### Putting together, dividing, turning around -/

theorem EditPath.append (front : EditPath same edits x y)
    (back : EditPath (behind same x y) edits' x' y') :
    EditPath same (edits + edits') (x + x') (y + y') := by
  induction back with
  | start => exact front
  | keep _ isSame ih => exact ih.keep isSame
  | delete _ ih => exact ih.delete
  | insert _ ih => exact ih.insert

theorem EditPath.divide (path : EditPath same edits x y) {first : Nat} (atMost : first ≤ edits) :
    ∃ left right, left ≤ x ∧ right ≤ y ∧ EditPath same first left right ∧
      EditPath (behind same left right) (edits - first) (x - left) (y - right) := by
  induction path with
  | start =>
      obtain rfl : first = 0 := Nat.le_zero.mp atMost
      exact ⟨0, 0, Nat.le_refl 0, Nat.le_refl 0, .start, .start⟩
  | @keep edits x y _ isSame ih =>
      obtain ⟨left, right, leftLe, rightLe, front, back⟩ := ih atMost
      refine ⟨left, right, by omega, by omega, front, ?_⟩
      rw [Nat.sub_add_comm leftLe, Nat.sub_add_comm rightLe]
      refine back.keep ?_
      unfold behind
      rw [Nat.add_sub_cancel' leftLe, Nat.add_sub_cancel' rightLe]
      exact isSame
  | @delete edits x y path ih =>
      rcases Nat.lt_or_ge edits first with all | atMost'
      · obtain rfl : first = edits + 1 := by omega
        refine ⟨x + 1, y, Nat.le_refl _, Nat.le_refl _, path.delete, ?_⟩
        rw [Nat.sub_self, Nat.sub_self, Nat.sub_self]
        exact .start
      · obtain ⟨left, right, leftLe, rightLe, front, back⟩ := ih atMost'
        refine ⟨left, right, by omega, rightLe, front, ?_⟩
        rw [Nat.sub_add_comm leftLe, Nat.sub_add_comm atMost']
        exact back.delete
  | @insert edits x y path ih =>
      rcases Nat.lt_or_ge edits first with all | atMost'
      · obtain rfl : first = edits + 1 := by omega
        refine ⟨x, y + 1, Nat.le_refl _, Nat.le_refl _, path.insert, ?_⟩
        rw [Nat.sub_self, Nat.sub_self, Nat.sub_self]
        exact .start
      · obtain ⟨left, right, leftLe, rightLe, front, back⟩ := ih atMost'
        refine ⟨left, right, leftLe, by omega, front, ?_⟩
        rw [Nat.sub_add_comm rightLe, Nat.sub_add_comm atMost']
        exact back.insert

theorem behind_ahead (same : Nat → Nat → Prop) (x y first first' : Nat) :
    behind (ahead same (x + first) (y + first')) first first' = ahead same x y := by
  funext back back'
  change same (x + first - 1 - (first + back)) (y + first' - 1 - (first' + back')) =
    same (x - 1 - back) (y - 1 - back')
  rw [show x + first - 1 - (first + back) = x - 1 - back by omega,
    show y + first' - 1 - (first' + back') = y - 1 - back' by omega]

theorem EditPath.reverse (path : EditPath same edits x y) :
    EditPath (ahead same x y) edits x y := by
  -- What was the last step becomes the first.
  have prepend {x y step edits : Nat} (first first' : Nat)
      (last : EditPath (ahead same (x + first) (y + first')) step first first')
      (rest : EditPath (ahead same x y) edits x y) :
      EditPath (ahead same (x + first) (y + first')) (edits + step) (x + first) (y + first') := by
    rw [← behind_ahead same x y first first'] at rest
    have all := last.append rest
    rw [Nat.add_comm step, Nat.add_comm first, Nat.add_comm first'] at all
    exact all
  induction path with
  | start => exact .start
  | keep _ isSame ih => exact prepend 1 1 (EditPath.start.keep isSame) ih
  | delete _ ih => exact prepend 1 0 EditPath.start.delete ih
  | insert _ ih => exact prepend 0 1 EditPath.start.insert ih

theorem EditPath.follow (path : EditPath same edits x y) {count : Nat}
    (along : ∀ offset, offset < count → same (x + offset) (y + offset)) :
    EditPath same edits (x + count) (y + count) := by
  induction count with
  | zero => exact path
  | succ count ih =>
      have before := ih fun offset within => along offset (Nat.lt_succ_of_lt within)
      exact before.keep (along count (Nat.lt_succ_self count))

theorem Near.delete (near : Near same edits x y) :
    Near same (edits + 1) (x + 1) y := by
  obtain ⟨fewer, atMost, path⟩ := near
  exact ⟨fewer + 1, Nat.succ_le_succ atMost, path.delete⟩

theorem Near.insert (near : Near same edits x y) :
    Near same (edits + 1) x (y + 1) := by
  obtain ⟨fewer, atMost, path⟩ := near
  exact ⟨fewer + 1, Nat.succ_le_succ atMost, path.insert⟩

theorem Near.follow {count : Nat} (near : Near same edits x y)
    (along : ∀ offset, offset < count → same (x + offset) (y + offset)) :
    Near same edits (x + count) (y + count) := by
  obtain ⟨fewer, atMost, path⟩ := near
  exact ⟨fewer, atMost, path.follow along⟩

/-! ### Diagonals -/

theorem EditPath.swap (path : EditPath same edits x y) :
    EditPath (fun left right => same right left) edits y x := by
  induction path with
  | start => exact .start
  | keep _ isSame ih => exact ih.keep isSame
  | delete _ ih => exact ih.insert
  | insert _ ih => exact ih.delete

/-- Not to pass the last new element takes at most one edit more. -/
theorem EditPath.near_before_new (path : EditPath same edits x (y + 1)) :
    Near same (edits + 1) x y := by
  generalize isLast : y + 1 = last at path
  induction path with
  | start => exact nomatch isLast
  | @keep edits x _ path _ _ =>
      obtain rfl := Nat.succ.inj isLast
      exact ⟨edits + 1, Nat.le_refl _, path.delete⟩
  | delete _ ih =>
      -- Deletions behind the last new element stay as they are.
      obtain ⟨fewer, atMost, path⟩ := ih isLast
      exact ⟨fewer + 1, Nat.succ_le_succ atMost, path.delete⟩
  | @insert edits x _ path _ =>
      obtain rfl := Nat.succ.inj isLast
      exact ⟨edits, by omega, path⟩

theorem EditPath.near_before_old (path : EditPath same edits (x + 1) y) :
    Near same (edits + 1) x y := by
  obtain ⟨fewer, atMost, before⟩ := path.swap.near_before_new
  exact ⟨fewer, atMost, before.swap⟩

theorem Near.before (near : Near same edits (x + 1) (y + 1)) : Near same edits x y := by
  obtain ⟨fewer, atMost, path⟩ := near
  generalize isOld : x + 1 = lastOld, isNew : y + 1 = lastNew at path
  cases path with
  | start => exact nomatch isOld
  | keep path _ =>
      obtain rfl := Nat.succ.inj isOld
      obtain rfl := Nat.succ.inj isNew
      exact ⟨fewer, atMost, path⟩
  | delete path =>
      obtain rfl := Nat.succ.inj isOld
      subst isNew
      obtain ⟨fewer', atMost', before⟩ := path.near_before_new
      exact ⟨fewer', Nat.le_trans atMost' atMost, before⟩
  | insert path =>
      obtain rfl := Nat.succ.inj isNew
      subst isOld
      obtain ⟨fewer', atMost', before⟩ := path.near_before_old
      exact ⟨fewer', Nat.le_trans atMost' atMost, before⟩

theorem Near.back {count : Nat} (near : Near same edits (x + count) (y + count)) :
    Near same edits x y := by
  induction count with
  | zero => exact near
  | succ count ih => exact ih near.before

end

end Codemod.Diff
