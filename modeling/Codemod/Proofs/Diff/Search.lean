import Codemod.Proofs.Diff.Run

/-!
The two searches for a cut, sweep by sweep.

A search may run out of the window: on a diagonal far from the one that ends in the opposite corner
it steps over the border and goes on. What keeps the cut inside is that a search that has reached
a border on one diagonal has reached it on the neighbour too, and on the diagonals on which the two
searches are compared a border that is reached is a meeting. So the border is never crossed there.
That the searches meet at all is a matter of length: every edit adds to the distance they have
covered.
-/

set_option autoImplicit false

namespace Codemod.Diff

/-! ### Reading and recording points -/

namespace Frontier

/-- There is room for the diagonals from `-bound` to `bound`. -/
def HasRoom (frontier : Frontier) (bound : Nat) : Prop :=
  frontier.offset = bound ∧ frontier.points.size = 2 * bound + 1

theorem hasRoom_start (bound : Nat) : (start bound).HasRoom bound :=
  ⟨rfl, Array.size_replicate⟩

theorem hasRoom_record {frontier : Frontier} {bound : Nat} (room : frontier.HasRoom bound)
    (diagonal : Int) (value : Nat) : (frontier.record diagonal value).HasRoom bound := by
  refine ⟨room.1, ?_⟩
  change (frontier.points.setIfInBounds _ value).size = 2 * bound + 1
  rw [Array.size_setIfInBounds]
  exact room.2

theorem point_start (bound : Nat) (diagonal : Int) : (start bound).point diagonal = 0 := by
  unfold point start
  rw [Array.getD_eq_getD_getElem?, Array.getElem?_replicate]
  split <;> rfl

theorem point_record_same {frontier : Frontier} {bound : Nat} (room : frontier.HasRoom bound)
    {diagonal : Int} (within : diagonal.natAbs ≤ bound) (value : Nat) :
    (frontier.record diagonal value).point diagonal = value := by
  obtain ⟨offsetEq, sizeEq⟩ := room
  have inBounds : (diagonal + frontier.offset).toNat < frontier.points.size := by omega
  unfold point record
  rw [Array.getD_eq_getD_getElem?, Array.getElem?_setIfInBounds, if_pos rfl, if_pos inBounds]
  rfl

theorem point_record_other {frontier : Frontier} {bound : Nat} (room : frontier.HasRoom bound)
    {diagonal other : Int} (within : diagonal.natAbs ≤ bound) (otherWithin : other.natAbs ≤ bound)
    (different : diagonal ≠ other) (value : Nat) :
    (frontier.record diagonal value).point other = frontier.point other := by
  obtain ⟨offsetEq, sizeEq⟩ := room
  have apart : (diagonal + frontier.offset).toNat ≠ (other + frontier.offset).toNat := by omega
  unfold point record
  rw [Array.getD_eq_getD_getElem?, Array.getElem?_setIfInBounds, if_neg apart,
    Array.getD_eq_getD_getElem?]

end Frontier

/-! ### What a search has reached -/

/-- Diagonals on which paths of exactly `edits` edits may end. -/
def OnLevel (edits : Nat) (diagonal : Int) : Prop :=
  diagonal.natAbs ≤ edits ∧ (diagonal - edits) % 2 = 0

/-- What holds of the points that paths of `edits` edits have reached in a window of `oldCount` by
`newCount` elements without common ends: none is left of the first new element, and if one is across
a border, the point on the diagonal next to it has come up to that border. Every edit leads on, and
without an edit no path leaves the start. -/
structure Frontier.Level (oldCount newCount edits : Nat) (frontier : Frontier) : Prop where
  low : ∀ diagonal, OnLevel edits diagonal → diagonal ≤ frontier.point diagonal
  acrossOld : ∀ diagonal, OnLevel edits diagonal → oldCount < frontier.point diagonal →
    OnLevel edits (diagonal - 2) ∧ oldCount ≤ frontier.point (diagonal - 2)
  acrossNew : ∀ diagonal, OnLevel edits diagonal →
    (newCount : Int) < frontier.point diagonal - diagonal →
    OnLevel edits (diagonal + 2) ∧
      (newCount : Int) ≤ frontier.point (diagonal + 2) - (diagonal + 2)
  far : ∀ diagonal, OnLevel edits diagonal →
    (edits : Int) ≤ 2 * frontier.point diagonal - diagonal
  stuck : edits = 0 → frontier.point 0 = 0

/-- A frontier that paths of `edits` edits may be recorded in next. -/
def Frontier.Ready (oldCount newCount : Nat) (frontier : Frontier) : Nat → Prop
  | 0 => frontier.point 1 = 0
  | edits + 1 => frontier.Level oldCount newCount edits

theorem Frontier.Ready.level {oldCount newCount edits : Nat} {frontier : Frontier}
    (ready : frontier.Ready oldCount newCount edits) (some : 1 ≤ edits) :
    frontier.Level oldCount newCount (edits - 1) := by
  obtain ⟨earlier, rfl⟩ := Nat.exists_eq_add_of_le' some
  exact ready

/-- How far common elements may lead from a point of a window without common ends: not across a
border, not away from the start, and not into the opposite corner. -/
def Advances (oldCount newCount : Nat) (diagonal : Int) (entry advance : Nat) : Prop :=
  advance = 0 ∨
    (entry + advance ≤ oldCount ∧ (entry + advance : Int) - diagonal ≤ newCount ∧
      ¬(entry = 0 ∧ diagonal = 0) ∧
      ¬(entry + advance = oldCount ∧ (entry + advance : Int) - diagonal = newCount))

section Entry

variable {oldCount newCount edits : Nat} {frontier : Frontier} {diagonal : Int}

/-- A path enters a diagonal from one of the two beside it, from the one that is ahead. -/
theorem Frontier.entry_cases (frontier : Frontier) (onLevel : OnLevel (edits + 1) diagonal) :
    (OnLevel edits (diagonal + 1) ∧
      frontier.entry (edits + 1 : Nat) diagonal = frontier.point (diagonal + 1) ∧
      (OnLevel edits (diagonal - 1) →
        frontier.point (diagonal - 1) < frontier.point (diagonal + 1))) ∨
    (OnLevel edits (diagonal - 1) ∧
      frontier.entry (edits + 1 : Nat) diagonal = frontier.point (diagonal - 1) + 1 ∧
      (OnLevel edits (diagonal + 1) →
        frontier.point (diagonal + 1) ≤ frontier.point (diagonal - 1))) := by
  unfold OnLevel at *
  unfold Frontier.entry
  split
  · left
    refine ⟨?_, rfl, ?_⟩ <;> omega
  · right
    refine ⟨?_, rfl, ?_⟩ <;> omega

theorem Frontier.entry_ge_above (frontier : Frontier) (onLevel : OnLevel (edits + 1) diagonal)
    (above : OnLevel edits (diagonal + 1)) :
    frontier.point (diagonal + 1) ≤ frontier.entry (edits + 1 : Nat) diagonal := by
  rcases Frontier.entry_cases frontier onLevel with
    ⟨_, entryEq, _⟩ | ⟨_, entryEq, ahead⟩
  · omega
  · have := ahead above
    omega

theorem Frontier.entry_gt_below (frontier : Frontier) (onLevel : OnLevel (edits + 1) diagonal)
    (below : OnLevel edits (diagonal - 1)) :
    frontier.point (diagonal - 1) < frontier.entry (edits + 1 : Nat) diagonal := by
  rcases Frontier.entry_cases frontier onLevel with
    ⟨_, entryEq, ahead⟩ | ⟨_, entryEq, _⟩
  · have := ahead below
    omega
  · omega

theorem Frontier.entry_zero (ready : frontier.Ready oldCount newCount 0) :
    frontier.entry (0 : Nat) 0 = 0 := by
  unfold Frontier.entry
  rw [if_pos (Or.inl (by simp))]
  exact ready

theorem OnLevel.zero (onLevel : OnLevel 0 diagonal) : diagonal = 0 := by
  unfold OnLevel at onLevel
  omega

theorem Frontier.le_entry (ready : frontier.Ready oldCount newCount edits)
    (onLevel : OnLevel edits diagonal) : diagonal ≤ frontier.entry edits diagonal := by
  cases edits with
  | zero =>
      rw [onLevel.zero, Frontier.entry_zero ready]
      exact Int.le_refl 0
  | succ edits =>
      rcases Frontier.entry_cases frontier onLevel with
        ⟨above, entryEq, _⟩ | ⟨below, entryEq, _⟩
      · have := Frontier.Level.low ready _ above
        omega
      · have := Frontier.Level.low ready _ below
        omega

theorem Frontier.far_entry (ready : frontier.Ready oldCount newCount edits)
    (onLevel : OnLevel edits diagonal) :
    (edits : Int) ≤ 2 * frontier.entry edits diagonal - diagonal := by
  cases edits with
  | zero =>
      rw [onLevel.zero, Frontier.entry_zero ready]
      exact Int.le_refl 0
  | succ edits =>
      rcases Frontier.entry_cases frontier onLevel with
        ⟨above, entryEq, _⟩ | ⟨below, entryEq, _⟩
      · have := Frontier.Level.far ready _ above
        omega
      · have := Frontier.Level.far ready _ below
        omega

/-- A path that enters across the last old element comes from a diagonal below that has come up to
it. -/
theorem Frontier.below_of_entry_across (ready : frontier.Ready oldCount newCount edits)
    (onLevel : OnLevel edits diagonal) (across : oldCount < frontier.entry edits diagonal) :
    ∃ earlier, edits = earlier + 1 ∧ OnLevel earlier (diagonal - 1) ∧
      oldCount ≤ frontier.point (diagonal - 1) := by
  cases edits with
  | zero =>
      rw [onLevel.zero, Frontier.entry_zero ready] at across
      omega
  | succ edits =>
      refine ⟨edits, rfl, ?_⟩
      rcases Frontier.entry_cases frontier onLevel with
        ⟨above, entryEq, _⟩ | ⟨below, entryEq, _⟩
      · have reached := Frontier.Level.acrossOld ready _ above (by omega)
        rw [show diagonal + 1 - 2 = diagonal - 1 by omega] at reached
        exact reached
      · exact ⟨below, by omega⟩

theorem Frontier.above_of_entry_across (ready : frontier.Ready oldCount newCount edits)
    (onLevel : OnLevel edits diagonal)
    (across : (newCount : Int) < frontier.entry edits diagonal - diagonal) :
    ∃ earlier, edits = earlier + 1 ∧ OnLevel earlier (diagonal + 1) ∧
      (newCount : Int) ≤ frontier.point (diagonal + 1) - (diagonal + 1) := by
  cases edits with
  | zero =>
      rw [onLevel.zero, Frontier.entry_zero ready] at across
      omega
  | succ edits =>
      refine ⟨edits, rfl, ?_⟩
      rcases Frontier.entry_cases frontier onLevel with
        ⟨above, entryEq, _⟩ | ⟨below, entryEq, _⟩
      · exact ⟨above, by omega⟩
      · have reached := Frontier.Level.acrossNew ready _ below (by omega)
        rw [show diagonal - 1 + 2 = diagonal + 1 by omega] at reached
        exact reached

end Entry

/-! ### Where the searches are compared -/

/-- The diagonal that ends in the corner of a window opposite to its start. -/
def lastDiagonal (oldCount newCount : Nat) : Int := (oldCount : Int) - newCount

/-- Diagonals on which a search with `edits` edits is compared with the opposite one. The search
from the front, which is one step ahead, is compared if the lengths differ by an odd number and the
lag is one, the search from the back if they differ by an even number and the lag is zero. -/
def Compared (oldCount newCount lag edits : Nat) (diagonal : Int) : Prop :=
  lastDiagonal oldCount newCount % 2 = lag ∧
    (diagonal - lastDiagonal oldCount newCount).natAbs + lag ≤ edits

/-- The opposite search, which has made `lag` edits fewer, may end on the opposite diagonal. -/
theorem Compared.opposite {oldCount newCount lag edits : Nat} {diagonal : Int}
    (compared : Compared oldCount newCount lag edits diagonal) (onLevel : OnLevel edits diagonal) :
    lag ≤ edits ∧ OnLevel (edits - lag) (lastDiagonal oldCount newCount - diagonal) := by
  unfold Compared OnLevel at *
  omega

/-- On the diagonals that were compared without a meeting, no border has been reached. -/
def Frontier.Inside (oldCount newCount lag edits : Nat) (frontier : Frontier) : Prop :=
  ∀ diagonal, OnLevel edits diagonal → Compared oldCount newCount lag edits diagonal →
    frontier.point diagonal < oldCount ∧ (frontier.point diagonal : Int) - diagonal < newCount

/-- The same of the level before. -/
def Frontier.InsideBefore (oldCount newCount lag : Nat) (frontier : Frontier) : Nat → Prop
  | 0 => True
  | edits + 1 => frontier.Inside oldCount newCount lag edits

section Entry

variable {oldCount newCount lag edits : Nat} {frontier : Frontier} {diagonal : Int}

/-- Where the searches are compared, a path enters inside the window. Across the last old element
it could come only from a diagonal that has come up to it; this one was compared itself, or it is so
far below that it has crossed the last new element, and then its neighbour was compared. -/
theorem Frontier.entry_le_oldCount (ready : frontier.Ready oldCount newCount edits)
    (inside : frontier.InsideBefore oldCount newCount lag edits)
    (onLevel : OnLevel edits diagonal) (compared : Compared oldCount newCount lag edits diagonal) :
    frontier.entry edits diagonal ≤ oldCount := by
  apply Nat.le_of_not_lt
  intro across
  obtain ⟨earlier, rfl, below, reached⟩ :=
    Frontier.below_of_entry_across ready onLevel across
  by_cases near : Compared oldCount newCount lag earlier (diagonal - 1)
  · have := (inside _ below near).1
    omega
  · unfold Compared lastDiagonal at *
    obtain ⟨farOn, farReached⟩ := Frontier.Level.acrossNew ready _ below (by
      unfold OnLevel at *
      omega)
    have neighbour := inside _ farOn (by
      unfold Compared lastDiagonal OnLevel at *
      omega)
    omega

/-- The mirror image: no path enters across the last new element. -/
theorem Frontier.entry_le_newCount (ready : frontier.Ready oldCount newCount edits)
    (inside : frontier.InsideBefore oldCount newCount lag edits)
    (onLevel : OnLevel edits diagonal) (compared : Compared oldCount newCount lag edits diagonal) :
    (frontier.entry edits diagonal : Int) - diagonal ≤ newCount := by
  apply Int.not_lt.mp
  intro across
  obtain ⟨earlier, rfl, above, reached⟩ :=
    Frontier.above_of_entry_across ready onLevel across
  by_cases near : Compared oldCount newCount lag earlier (diagonal + 1)
  · have := (inside _ above near).2
    omega
  · unfold Compared lastDiagonal at *
    obtain ⟨farOn, farReached⟩ := Frontier.Level.acrossOld ready _ above (by
      unfold OnLevel at *
      omega)
    have neighbour := inside _ farOn (by
      unfold Compared lastDiagonal OnLevel at *
      omega)
    omega

/-- Nor does a path enter at the opposite corner: one edit before, it would have been at a border
of a diagonal that was compared, or at the start. -/
theorem Frontier.entry_ne_corner (ready : frontier.Ready oldCount newCount edits)
    (inside : frontier.InsideBefore oldCount newCount lag edits)
    (onLevel : OnLevel edits diagonal) (compared : Compared oldCount newCount lag edits diagonal)
    (someOld : 0 < oldCount) (someNew : 0 < newCount) :
    ¬(frontier.entry edits diagonal = oldCount ∧
      (frontier.entry edits diagonal : Int) - diagonal = newCount) := by
  rintro ⟨oldEq, newEq⟩
  cases edits with
  | zero =>
      rw [onLevel.zero, Frontier.entry_zero ready] at oldEq
      omega
  | succ edits =>
      have atStart := Frontier.Level.stuck ready
      rcases Frontier.entry_cases frontier onLevel with
        ⟨above, entryEq, _⟩ | ⟨below, entryEq, _⟩
      · by_cases near : Compared oldCount newCount lag edits (diagonal + 1)
        · have := (inside _ above near).1
          omega
        · unfold Compared lastDiagonal OnLevel at *
          have zero : diagonal + 1 = 0 := by omega
          rw [zero] at entryEq
          omega
      · by_cases near : Compared oldCount newCount lag edits (diagonal - 1)
        · have := (inside _ below near).2
          omega
        · unfold Compared lastDiagonal OnLevel at *
          have zero : diagonal - 1 = 0 := by omega
          rw [zero] at entryEq
          omega

/-- A path with `edits` edits that enters inside the window, and not at the opposite corner. -/
structure EntersInside (oldCount newCount edits : Nat) (diagonal : Int) (entry : Nat) : Prop where
  low : diagonal ≤ entry
  oldBound : entry ≤ oldCount
  newBound : (entry : Int) - diagonal ≤ newCount
  far : (edits : Int) ≤ 2 * entry - diagonal
  notCorner : ¬(entry = oldCount ∧ (entry : Int) - diagonal = newCount)

theorem Frontier.entersInside (ready : frontier.Ready oldCount newCount edits)
    (inside : frontier.InsideBefore oldCount newCount lag edits)
    (onLevel : OnLevel edits diagonal) (compared : Compared oldCount newCount lag edits diagonal)
    (someOld : 0 < oldCount) (someNew : 0 < newCount) :
    EntersInside oldCount newCount edits diagonal (frontier.entry edits diagonal) where
  low := Frontier.le_entry ready onLevel
  oldBound := Frontier.entry_le_oldCount ready inside onLevel compared
  newBound := Frontier.entry_le_newCount ready inside onLevel compared
  far := Frontier.far_entry ready onLevel
  notCorner := Frontier.entry_ne_corner ready inside onLevel compared someOld someNew

end Entry

/-! ### Sweeps -/

/-- The state of a search in the middle of a sweep: the diagonals above `next` are done, those of
the level before are untouched. `advance` is how far common elements lead from where a path enters a
diagonal, and `other` is the opposite search, which stands still. -/
structure Sweeping (oldCount newCount lag bound edits : Nat) (advance : Int → Nat → Nat)
    (first other current : Frontier) (next : Int) : Prop where
  room : current.HasRoom bound
  untouched : ∀ diagonal : Int, diagonal.natAbs ≤ bound → (diagonal - edits) % 2 ≠ 0 →
    current.point diagonal = first.point diagonal
  done : ∀ diagonal, OnLevel edits diagonal → next < diagonal →
    Advances oldCount newCount diagonal (first.entry edits diagonal)
        (advance diagonal (first.entry edits diagonal)) ∧
      current.point diagonal =
        first.entry edits diagonal + advance diagonal (first.entry edits diagonal)
  apart : ∀ diagonal, OnLevel edits diagonal → next < diagonal →
    Compared oldCount newCount lag edits diagonal →
    current.point diagonal + other.point (lastDiagonal oldCount newCount - diagonal) < oldCount

section Sweep

variable {oldCount newCount lag bound edits : Nat} {advance : Int → Nat → Nat}
  {first other current : Frontier}

theorem Sweeping.start (room : first.HasRoom bound) :
    Sweeping oldCount newCount lag bound edits advance first other first edits where
  room := room
  untouched := fun _ _ _ => rfl
  done := by
    intro diagonal onLevel above
    unfold OnLevel at onLevel
    omega
  apart := by
    intro diagonal onLevel above
    unfold OnLevel at onLevel
    omega

/-- Entries are read off the level before, which a sweep leaves alone. -/
theorem Sweeping.entry_eq {next : Int}
    (sweeping : Sweeping oldCount newCount lag bound edits advance first other current next)
    (enough : edits < bound) {diagonal : Int} (onLevel : OnLevel edits diagonal) :
    current.entry edits diagonal = first.entry edits diagonal := by
  unfold OnLevel at onLevel
  have above := sweeping.untouched (diagonal + 1) (by omega) (by omega)
  have below := sweeping.untouched (diagonal - 1) (by omega) (by omega)
  unfold Frontier.entry
  rw [above, below]

/-- One step: the next diagonal is recorded and the searches are apart on it. -/
theorem Sweeping.step {next : Int}
    (sweeping : Sweeping oldCount newCount lag bound edits advance first other current next)
    (enough : edits < bound) (onLevel : OnLevel edits next)
    (advances : Advances oldCount newCount next (current.entry edits next)
      (advance next (current.entry edits next)))
    (apart : Compared oldCount newCount lag edits next →
      current.entry edits next + advance next (current.entry edits next) +
        other.point (lastDiagonal oldCount newCount - next) < oldCount) :
    Sweeping oldCount newCount lag bound edits advance first other
      (current.record next (current.entry edits next + advance next (current.entry edits next)))
      (next - 2) := by
  have entryEq := sweeping.entry_eq enough onLevel
  have nextWithin : next.natAbs ≤ bound := by
    unfold OnLevel at onLevel
    omega
  refine ⟨Frontier.hasRoom_record sweeping.room _ _, ?_, ?_, ?_⟩
  · intro diagonal within offLevel
    unfold OnLevel at onLevel
    rw [Frontier.point_record_other sweeping.room nextWithin within (by omega)]
    exact sweeping.untouched diagonal within offLevel
  · intro diagonal diagonalOn above
    by_cases same : diagonal = next
    · subst diagonal
      rw [Frontier.point_record_same sweeping.room nextWithin, entryEq]
      exact ⟨entryEq ▸ advances, rfl⟩
    · unfold OnLevel at onLevel diagonalOn
      rw [Frontier.point_record_other sweeping.room nextWithin (by omega) (Ne.symm same)]
      exact sweeping.done diagonal diagonalOn (by omega)
  · intro diagonal diagonalOn above compared
    by_cases same : diagonal = next
    · subst diagonal
      rw [Frontier.point_record_same sweeping.room nextWithin]
      exact apart compared
    · unfold OnLevel at onLevel diagonalOn
      rw [Frontier.point_record_other sweeping.room nextWithin (by omega) (Ne.symm same)]
      exact sweeping.apart diagonal diagonalOn (by omega) compared

theorem Sweeping.done_all {next : Int} (ended : next < -edits)
    (sweeping : Sweeping oldCount newCount lag bound edits advance first other current next)
    {diagonal : Int} (onLevel : OnLevel edits diagonal) :
    Advances oldCount newCount diagonal (first.entry edits diagonal)
        (advance diagonal (first.entry edits diagonal)) ∧
      current.point diagonal =
        first.entry edits diagonal + advance diagonal (first.entry edits diagonal) := by
  refine sweeping.done diagonal onLevel ?_
  unfold OnLevel at onLevel
  omega

/-- A search that has crossed the last old element has come up to it on the diagonal below. -/
theorem Sweeping.reaches_below {next : Int} (ended : next < -edits)
    (sweeping : Sweeping oldCount newCount lag bound edits advance first other current next)
    (ready : first.Ready oldCount newCount edits) {diagonal : Int}
    (onLevel : OnLevel edits diagonal) (across : oldCount < current.point diagonal) :
    OnLevel edits (diagonal - 2) ∧ oldCount ≤ current.point (diagonal - 2) := by
  obtain ⟨advances, pointEq⟩ := sweeping.done_all ended onLevel
  -- Common elements lead up to a border at most, so the entry itself is across.
  have entryAcross : oldCount < first.entry edits diagonal := by
    rcases advances with still | within <;> omega
  obtain ⟨earlier, rfl, below, reached⟩ := Frontier.below_of_entry_across ready onLevel entryAcross
  have belowOn : OnLevel (earlier + 1) (diagonal - 2) := by
    unfold OnLevel at *
    omega
  obtain ⟨_, belowEq⟩ := sweeping.done_all ended belowOn
  have ahead := Frontier.entry_ge_above first belowOn
    (by rw [show diagonal - 2 + 1 = diagonal - 1 by omega]; exact below)
  rw [show diagonal - 2 + 1 = diagonal - 1 by omega] at ahead
  exact ⟨belowOn, by omega⟩

theorem Sweeping.reaches_above {next : Int} (ended : next < -edits)
    (sweeping : Sweeping oldCount newCount lag bound edits advance first other current next)
    (ready : first.Ready oldCount newCount edits) {diagonal : Int}
    (onLevel : OnLevel edits diagonal)
    (across : (newCount : Int) < current.point diagonal - diagonal) :
    OnLevel edits (diagonal + 2) ∧
      (newCount : Int) ≤ current.point (diagonal + 2) - (diagonal + 2) := by
  obtain ⟨advances, pointEq⟩ := sweeping.done_all ended onLevel
  have entryAcross : (newCount : Int) < first.entry edits diagonal - diagonal := by
    rcases advances with still | within <;> omega
  obtain ⟨earlier, rfl, above, reached⟩ := Frontier.above_of_entry_across ready onLevel entryAcross
  have aboveOn : OnLevel (earlier + 1) (diagonal + 2) := by
    unfold OnLevel at *
    omega
  obtain ⟨_, aboveEq⟩ := sweeping.done_all ended aboveOn
  have ahead := Frontier.entry_gt_below first aboveOn
    (by rw [show diagonal + 2 - 1 = diagonal + 1 by omega]; exact above)
  rw [show diagonal + 2 - 1 = diagonal + 1 by omega] at ahead
  exact ⟨aboveOn, by omega⟩

theorem Sweeping.level {next : Int} (ended : next < -edits)
    (sweeping : Sweeping oldCount newCount lag bound edits advance first other current next)
    (ready : first.Ready oldCount newCount edits) : current.Level oldCount newCount edits where
  low := by
    intro diagonal onLevel
    obtain ⟨_, pointEq⟩ := sweeping.done_all ended onLevel
    have low := Frontier.le_entry ready onLevel
    omega
  acrossOld := fun _ onLevel across => sweeping.reaches_below ended ready onLevel across
  acrossNew := fun _ onLevel across => sweeping.reaches_above ended ready onLevel across
  far := by
    intro diagonal onLevel
    obtain ⟨_, pointEq⟩ := sweeping.done_all ended onLevel
    have far := Frontier.far_entry ready onLevel
    omega
  stuck := by
    rintro rfl
    have onLevel : OnLevel 0 0 := ⟨Nat.le_refl 0, rfl⟩
    obtain ⟨advances, pointEq⟩ := sweeping.done_all ended onLevel
    rw [Frontier.entry_zero ready] at advances pointEq
    rcases advances with still | moved
    · omega
    · exact absurd ⟨rfl, rfl⟩ moved.2.2.1

/-- Searches that are apart have not reached a border where they were compared: the opposite one
has come at least as far as its diagonal starts. -/
theorem Sweeping.inside {next : Int} (ended : next < -edits)
    (sweeping : Sweeping oldCount newCount lag bound edits advance first other current next)
    (opposite : lag ≤ edits → other.Level oldCount newCount (edits - lag)) :
    current.Inside oldCount newCount lag edits := by
  intro diagonal onLevel compared
  have apart := sweeping.apart diagonal onLevel (by unfold OnLevel at onLevel; omega) compared
  obtain ⟨lagged, oppositeOn⟩ := compared.opposite onLevel
  have low := (opposite lagged).low _ oppositeOn
  unfold lastDiagonal at *
  omega

/-- Two searches that together have made as many edits as there are elements cannot be apart: near
the middle there is a diagonal on which they were compared, and on it they overlap. -/
theorem Sweeping.not_apart {next : Int} (ended : next < -edits)
    (sweeping : Sweeping oldCount newCount lag bound edits advance first other current next)
    (ready : first.Ready oldCount newCount edits)
    (opposite : lag ≤ edits → other.Level oldCount newCount (edits - lag))
    (someOld : 0 < oldCount) (someNew : 0 < newCount)
    (odd : lastDiagonal oldCount newCount % 2 = lag)
    (many : oldCount + newCount + lag ≤ 2 * edits) : False := by
  obtain ⟨diagonal, onLevel, compared⟩ : ∃ diagonal, OnLevel edits diagonal ∧
      Compared oldCount newCount lag edits diagonal := by
    unfold OnLevel Compared lastDiagonal at *
    by_cases even : ((((oldCount : Int) - newCount) / 2) - edits) % 2 = 0
    · exact ⟨((oldCount : Int) - newCount) / 2, by omega⟩
    · exact ⟨((oldCount : Int) - newCount) / 2 + 1, by omega⟩
  have above : next < diagonal := by
    unfold OnLevel at onLevel
    omega
  have apart := sweeping.apart diagonal onLevel above compared
  have reach := (sweeping.level ended ready).far diagonal onLevel
  obtain ⟨lagged, oppositeOn⟩ := compared.opposite onLevel
  have otherReach := (opposite lagged).far _ oppositeOn
  unfold lastDiagonal at *
  omega

theorem Sweeping.edits_lt {back : Frontier} {backAdvance : Int → Nat → Nat}
    {frontLast backLast : Int}
    (frontSweep : Sweeping oldCount newCount 1 bound edits advance first other current frontLast)
    (frontOver : frontLast < -edits) (frontReady : first.Ready oldCount newCount edits)
    (backSweep : Sweeping oldCount newCount 0 bound edits backAdvance other current back backLast)
    (backOver : backLast < -edits) (backReady : other.Ready oldCount newCount edits)
    (someOld : 0 < oldCount) (someNew : 0 < newCount) : 2 * edits < oldCount + newCount := by
  apply Nat.lt_of_not_le
  intro many
  by_cases even : lastDiagonal oldCount newCount % 2 = 0
  · exact backSweep.not_apart backOver backReady (fun _ => frontSweep.level frontOver frontReady)
      someOld someNew even many
  · refine frontSweep.not_apart frontOver frontReady backReady.level someOld someNew (by omega) ?_
    -- The lengths differ by an odd number, so their sum is odd and not twice the edits.
    unfold lastDiagonal at even
    omega

end Sweep

end Codemod.Diff
