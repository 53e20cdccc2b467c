import Codemod.Diff.Op

/-!
The shortest edit script between two sequences.

Two searches, one from the front and one from the back, follow the furthest points that paths of
`d` edits reach on every diagonal. Where they meet, a shortest path passes, and the two
sequences are cut there and compared piece by piece. Common ends are set aside before every
search.
-/

set_option autoImplicit false

namespace Codemod.Diff

/-- The furthest points reached, by diagonal. -/
structure Frontier where
  offset : Nat
  points : Array Nat

namespace Frontier

def start (bound : Nat) : Frontier := ⟨bound, Array.replicate (2 * bound + 1) 0⟩

def point (frontier : Frontier) (diagonal : Int) : Nat :=
  frontier.points.getD (diagonal + frontier.offset).toNat 0

def record (frontier : Frontier) (diagonal : Int) (point : Nat) : Frontier :=
  { frontier with
    points := frontier.points.setIfInBounds (diagonal + frontier.offset).toNat point }

/-- Where a path of `edits` edits enters a diagonal. -/
def entry (frontier : Frontier) (edits diagonal : Int) : Nat :=
  if diagonal = -edits ∨ (diagonal ≠ edits ∧
      frontier.point (diagonal - 1) < frontier.point (diagonal + 1)) then
    frontier.point (diagonal + 1)
  else frontier.point (diagonal - 1) + 1

end Frontier

/-- A range of the old and a range of the new sequence. -/
structure Window where
  oldStart : Nat
  oldStop : Nat
  newStart : Nat
  newStop : Nat
deriving DecidableEq, Repr

namespace Window

def oldCount (window : Window) : Nat := window.oldStop - window.oldStart

def newCount (window : Window) : Nat := window.newStop - window.newStart

/-- How many edits on either side are enough for the searches to meet. -/
def editBound (window : Window) : Nat :=
  (window.oldCount + window.newCount + 1) / 2 + 1

end Window

structure Search where
  front : Frontier
  back : Frontier

/-- The outcome of a step: the searches go on, or a shortest path passes a point. -/
inductive Progress where
  | going (search : Search)
  | met (old new : Nat)

section

variable {α : Type} [BEq α]

def frontStep (old new : Array α) (window : Window) (edits diagonal : Int) (search : Search) :
    Progress :=
  let total := window.oldCount
  let delta : Int := (window.oldCount : Int) - window.newCount
  let x := search.front.entry edits diagonal
  let y : Int := x - diagonal
  let advance :=
    if x < total ∧ 0 ≤ y ∧ y < window.newCount then
      commonFront old new (window.oldStart + x) (window.newStart + y.toNat)
        (min (total - x) (window.newCount - y.toNat))
    else 0
  let front := search.front.record diagonal (x + advance)
  if delta % 2 ≠ 0 ∧ (diagonal - delta).natAbs + 1 ≤ edits.toNat ∧
      total ≤ x + advance + search.back.point (delta - diagonal) then
    .met (window.oldStart + x) (window.newStart + y.toNat)
  else .going { search with front := front }

def backStep (old new : Array α) (window : Window) (edits diagonal : Int) (search : Search) :
    Progress :=
  let total := window.oldCount
  let delta : Int := (window.oldCount : Int) - window.newCount
  let x := search.back.entry edits diagonal
  let y : Int := x - diagonal
  let advance :=
    if x < total ∧ 0 ≤ y ∧ y < window.newCount then
      commonBack old new (window.oldStop - x) (window.newStop - y.toNat)
        (min (total - x) (window.newCount - y.toNat))
    else 0
  let back := search.back.record diagonal (x + advance)
  if delta % 2 = 0 ∧ (diagonal - delta).natAbs ≤ edits.toNat ∧
      total ≤ x + advance + search.front.point (delta - diagonal) then
    .met (window.oldStop - (x + advance)) (window.newStop - (y.toNat + advance))
  else .going { search with back := back }

/-- Take a step on each of the next `count` diagonals, every other one, downwards. -/
def sweep (step : Int → Search → Progress) : (count : Nat) → (diagonal : Int) → Search → Progress
  | 0, _, search => .going search
  | count + 1, diagonal, search =>
      match step diagonal search with
      | .going next => sweep step count (diagonal - 2) next
      | .met x y => .met x y

/-- A point on a shortest path, if one is found within `bound` more edits on either side. -/
def middle? (old new : Array α) (window : Window) :
    (bound edits : Nat) → Search → Option (Nat × Nat)
  | 0, _, _ => none
  | bound + 1, edits, search =>
      match sweep (frontStep old new window edits) (edits + 1) edits search with
      | .met x y => some (x, y)
      | .going forward =>
          match sweep (backStep old new window edits) (edits + 1) edits forward with
          | .met x y => some (x, y)
          | .going next => middle? old new window bound (edits + 1) next

def cut? (old new : Array α) (window : Window) : Option (Nat × Nat) :=
  let bound := window.editBound
  middle? old new window bound 0 ⟨.start bound, .start bound⟩

def equalRun (oldStart newStart count : Nat) : List Op :=
  if count = 0 then [] else [.equal oldStart newStart count]

/-- The script of a window, cut at most `depth` times in a row. -/
def scriptWithin (old new : Array α) : (depth : Nat) → Window → List Op
  | depth, window =>
      let front := commonFront old new window.oldStart window.newStart
        (min window.oldCount window.newCount)
      let oldStart := window.oldStart + front
      let newStart := window.newStart + front
      let back := commonBack old new window.oldStop window.newStop
        (min (window.oldStop - oldStart) (window.newStop - newStart))
      let inner : Window := ⟨oldStart, window.oldStop - back, newStart, window.newStop - back⟩
      let middle : List Op :=
        if inner.oldCount = 0 ∧ inner.newCount = 0 then []
        else if inner.newCount = 0 then [.delete inner.oldStart inner.oldCount inner.newStart]
        else if inner.oldCount = 0 then [.insert inner.oldStart inner.newStart inner.newCount]
        else
          match depth, cut? old new inner with
          | depth + 1, some (x, y) =>
              scriptWithin old new depth ⟨inner.oldStart, x, inner.newStart, y⟩ ++
                scriptWithin old new depth ⟨x, inner.oldStop, y, inner.newStop⟩
          | _, _ =>
              [.delete inner.oldStart inner.oldCount inner.newStart,
                .insert inner.oldStart inner.newStart inner.newCount]
      equalRun window.oldStart window.newStart front ++ middle ++
        equalRun inner.oldStop inner.newStop back
termination_by depth => depth

/-- A shortest edit script between two sequences. -/
def script (old new : Array α) : List Op :=
  scriptWithin old new (old.size + new.size) ⟨0, old.size, 0, new.size⟩

end

end Codemod.Diff
