/-!
Operations: runs of lines that are kept, deleted, inserted or replaced.

An operation names a range of the old and a range of the new sequence. A deletion has an empty
range of the new sequence, an insertion one of the old.
-/

set_option autoImplicit false

namespace Codemod.Diff

inductive Tag where
  | equal
  | delete
  | insert
  | replace
deriving DecidableEq, Repr

structure Op where
  tag : Tag
  oldStart : Nat
  oldCount : Nat
  newStart : Nat
  newCount : Nat
deriving DecidableEq, Repr

namespace Op

def equal (oldStart newStart count : Nat) : Op := ⟨.equal, oldStart, count, newStart, count⟩

def delete (oldStart count newStart : Nat) : Op := ⟨.delete, oldStart, count, newStart, 0⟩

def insert (oldStart newStart count : Nat) : Op := ⟨.insert, oldStart, 0, newStart, count⟩

def replace (oldStart oldCount newStart newCount : Nat) : Op :=
  ⟨.replace, oldStart, oldCount, newStart, newCount⟩

def oldStop (op : Op) : Nat := op.oldStart + op.oldCount

def newStop (op : Op) : Nat := op.newStart + op.newCount

def isEmpty (op : Op) : Bool := op.oldCount == 0 && op.newCount == 0

def shiftLeft (op : Op) (count : Nat) : Op :=
  { op with oldStart := op.oldStart - count, newStart := op.newStart - count }

def shiftRight (op : Op) (count : Nat) : Op :=
  { op with oldStart := op.oldStart + count, newStart := op.newStart + count }

/-- Add lines at the end. Ranges that an operation leaves empty stay empty. -/
def growRight (op : Op) (count : Nat) : Op :=
  match op.tag with
  | .delete => { op with oldCount := op.oldCount + count }
  | .insert => { op with newCount := op.newCount + count }
  | _ => { op with oldCount := op.oldCount + count, newCount := op.newCount + count }

def shrinkRight (op : Op) (count : Nat) : Op :=
  { op with oldCount := op.oldCount - count, newCount := op.newCount - count }

def growLeft (op : Op) (count : Nat) : Op :=
  (op.shiftLeft count).growRight count

def shrinkLeft (op : Op) (count : Nat) : Op :=
  (op.shiftRight count).shrinkRight count

end Op

/-! ### Common ends of two ranges -/

section

variable {α : Type} [BEq α]

/-- How many of the next `limit` elements of the two sequences are equal. -/
def commonFront (old new : Array α) (oldStart newStart : Nat) : (limit : Nat) → Nat
  | 0 => 0
  | limit + 1 =>
      if old[oldStart]? == new[newStart]? then
        commonFront old new (oldStart + 1) (newStart + 1) limit + 1
      else 0

def commonBack (old new : Array α) (oldStop newStop : Nat) : (limit : Nat) → Nat
  | 0 => 0
  | limit + 1 =>
      if old[oldStop - 1]? == new[newStop - 1]? then
        commonBack old new (oldStop - 1) (newStop - 1) limit + 1
      else 0

theorem commonFront_le (old new : Array α) (oldStart newStart limit : Nat) :
    commonFront old new oldStart newStart limit ≤ limit := by
  induction limit generalizing oldStart newStart with
  | zero => simp [commonFront]
  | succ limit ih =>
      unfold commonFront
      split
      · exact Nat.succ_le_succ (ih _ _)
      · exact Nat.zero_le _

theorem commonBack_le (old new : Array α) (oldStop newStop limit : Nat) :
    commonBack old new oldStop newStop limit ≤ limit := by
  induction limit generalizing oldStop newStop with
  | zero => simp [commonBack]
  | succ limit ih =>
      unfold commonBack
      split
      · exact Nat.succ_le_succ (ih _ _)
      · exact Nat.zero_le _

end

end Codemod.Diff
