import Codemod.Diff.Script

/-!
Scripts as runs through two sequences.

A run goes through the operations of a script and tallies the elements that are kept, deleted and
inserted; the tally says how far it has come in either sequence. An operation fits a tally if the
ranges it works on start there. The shortest script fits with all its ranges.
-/

set_option autoImplicit false

namespace Codemod.Diff

/-- How many elements a script has kept, deleted and inserted up to some point. -/
structure Tally where
  kept : Nat
  deleted : Nat
  inserted : Nat
deriving DecidableEq, Repr

namespace Tally

def zero : Tally := ⟨0, 0, 0⟩

/-- How far a run has come in the old sequence. -/
def oldPlace (tally : Tally) : Nat := tally.kept + tally.deleted

def newPlace (tally : Tally) : Nat := tally.kept + tally.inserted

def next (tally : Tally) (op : Op) : Tally :=
  match op.tag with
  | .equal => { tally with kept := tally.kept + op.oldCount }
  | .delete => { tally with deleted := tally.deleted + op.oldCount }
  | .insert => { tally with inserted := tally.inserted + op.newCount }
  | .replace =>
      { tally with deleted := tally.deleted + op.oldCount,
                   inserted := tally.inserted + op.newCount }

end Tally

/-- Two ranges of the same length hold the same elements. -/
def Agree {α : Type} (old new : Array α) (oldStart newStart count : Nat) : Prop :=
  ∀ offset, offset < count → old[oldStart + offset]? = new[newStart + offset]?

/-- A run of a script: every operation fits where the ones before it have led. -/
def Run (fits : Tally → Op → Prop) : Tally → List Op → Tally → Prop
  | start, [], stop => start = stop
  | start, op :: rest, stop => fits start op ∧ Run fits (start.next op) rest stop

section

variable {fits : Tally → Op → Prop}

theorem run_append {start stop : Tally} {front back : List Op} :
    Run fits start (front ++ back) stop ↔
      ∃ middle, Run fits start front middle ∧ Run fits middle back stop := by
  induction front generalizing start with
  | nil =>
      constructor
      · intro run
        exact ⟨start, rfl, run⟩
      · rintro ⟨middle, rfl, run⟩
        exact run
  | cons op front ih =>
      change _ ∧ Run fits _ (front ++ back) stop ↔ _
      rw [ih]
      constructor
      · rintro ⟨fit, middle, frontRun, backRun⟩
        exact ⟨middle, ⟨fit, frontRun⟩, backRun⟩
      · rintro ⟨middle, ⟨fit, frontRun⟩, backRun⟩
        exact ⟨fit, middle, frontRun, backRun⟩

theorem run_mono {fits' : Tally → Op → Prop} (weaker : ∀ tally op, fits tally op → fits' tally op)
    {start stop : Tally} {ops : List Op} (run : Run fits start ops stop) :
    Run fits' start ops stop := by
  induction ops generalizing start with
  | nil => exact run
  | cons op rest ih => exact ⟨weaker _ _ run.1, ih run.2⟩

end

/-! ### Operations that fit with all their ranges -/

section

variable {α : Type}

/-- An operation that is not empty and starts where a run has come to, in both sequences. -/
def Op.Exact (old new : Array α) (tally : Tally) (op : Op) : Prop :=
  op.oldStart = tally.oldPlace ∧ op.newStart = tally.newPlace ∧
    match op.tag with
    | .equal =>
        0 < op.oldCount ∧ op.newCount = op.oldCount ∧
          Agree old new op.oldStart op.newStart op.oldCount
    | .delete => 0 < op.oldCount ∧ op.newCount = 0
    | .insert => 0 < op.newCount ∧ op.oldCount = 0
    | .replace => False

theorem run_equalRun (old new : Array α) {start : Tally} {count : Nat}
    (agree : Agree old new start.oldPlace start.newPlace count) :
    Run (Op.Exact old new) start (equalRun start.oldPlace start.newPlace count)
      { start with kept := start.kept + count } := by
  unfold equalRun
  split
  · rename_i none
    subst none
    rfl
  · rename_i some
    exact ⟨⟨rfl, rfl, Nat.pos_of_ne_zero some, rfl, agree⟩, rfl⟩

variable [BEq α] [LawfulBEq α]

theorem agree_commonFront (old new : Array α) (oldStart newStart limit : Nat) :
    Agree old new oldStart newStart (commonFront old new oldStart newStart limit) := by
  induction limit generalizing oldStart newStart with
  | zero =>
      intro offset within
      exact absurd within (Nat.not_lt_zero offset)
  | succ limit ih =>
      intro offset within
      unfold commonFront at within
      split at within
      · rename_i same
        cases offset with
        | zero => exact eq_of_beq same
        | succ offset =>
            have further := ih (oldStart + 1) (newStart + 1) offset (Nat.lt_of_succ_lt_succ within)
            rw [Nat.add_right_comm, Nat.add_right_comm newStart] at further
            exact further
      · exact absurd within (Nat.not_lt_zero offset)

/-- The elements that `commonBack` counts agree, as long as there are that many before both
ends. -/
theorem agree_commonBack (old new : Array α) (oldStop newStop limit : Nat)
    (oldEnough : limit ≤ oldStop) (newEnough : limit ≤ newStop) :
    Agree old new (oldStop - commonBack old new oldStop newStop limit)
      (newStop - commonBack old new oldStop newStop limit)
      (commonBack old new oldStop newStop limit) := by
  induction limit generalizing oldStop newStop with
  | zero =>
      intro offset within
      exact absurd within (Nat.not_lt_zero offset)
  | succ limit ih =>
      unfold commonBack
      split
      · rename_i same
        have further := ih (oldStop - 1) (newStop - 1) (by omega) (by omega)
        have atMost := commonBack_le old new (oldStop - 1) (newStop - 1) limit
        intro offset within
        by_cases last : offset = commonBack old new (oldStop - 1) (newStop - 1) limit
        · have oldIndex : oldStop - (commonBack old new (oldStop - 1) (newStop - 1) limit + 1) +
              offset = oldStop - 1 := by omega
          have newIndex : newStop - (commonBack old new (oldStop - 1) (newStop - 1) limit + 1) +
              offset = newStop - 1 := by omega
          rw [oldIndex, newIndex]
          exact eq_of_beq same
        · have inner := further offset (by omega)
          rw [Nat.sub_sub, Nat.sub_sub, Nat.add_comm 1] at inner
          exact inner
      · intro offset within
        exact absurd within (Nat.not_lt_zero offset)

/-- The elements behind the common ones differ, unless there are no more. -/
theorem commonFront_stops (old new : Array α) (oldStart newStart limit : Nat)
    (stops : commonFront old new oldStart newStart limit < limit) :
    old[oldStart + commonFront old new oldStart newStart limit]? ≠
      new[newStart + commonFront old new oldStart newStart limit]? := by
  induction limit generalizing oldStart newStart with
  | zero => exact absurd stops (Nat.not_lt_zero _)
  | succ limit ih =>
      unfold commonFront at stops ⊢
      split at stops
      · rename_i same
        have further := ih (oldStart + 1) (newStart + 1) (Nat.lt_of_succ_lt_succ stops)
        rw [Nat.add_assoc, Nat.add_assoc, Nat.add_comm 1] at further
        rw [if_pos same]
        exact further
      · rename_i differs
        rw [if_neg differs]
        intro same
        rw [Nat.add_zero, Nat.add_zero] at same
        exact differs (beq_iff_eq.mpr same)

theorem commonBack_stops (old new : Array α) (oldStop newStop limit : Nat)
    (stops : commonBack old new oldStop newStop limit < limit) :
    old[oldStop - commonBack old new oldStop newStop limit - 1]? ≠
      new[newStop - commonBack old new oldStop newStop limit - 1]? := by
  induction limit generalizing oldStop newStop with
  | zero => exact absurd stops (Nat.not_lt_zero _)
  | succ limit ih =>
      unfold commonBack at stops ⊢
      split at stops
      · rename_i same
        have further := ih (oldStop - 1) (newStop - 1) (Nat.lt_of_succ_lt_succ stops)
        rw [Nat.sub_sub oldStop, Nat.sub_sub newStop, Nat.add_comm 1] at further
        rw [if_pos same]
        exact further
      · rename_i differs
        rw [if_neg differs]
        intro same
        exact differs (beq_iff_eq.mpr same)

end

end Codemod.Diff
