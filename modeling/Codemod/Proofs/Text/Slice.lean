import Codemod.Text.ByteSplit

/-!
Slices of a text between byte offsets.

An offset is a boundary if it stands in front of a character or at the end of the text. Between two
boundaries there are whole characters, and slices next to each other make up a slice.
-/

set_option autoImplicit false

namespace Codemod.Text

/-- An offset between two characters of a text, or at one of its ends. -/
def Boundary (text : List Char) (offset : Nat) : Prop :=
  ∃ front back, text = front ++ back ∧ byteCount front = offset

/-- The characters between two offsets. -/
def sliceBytes (text : List Char) (start stop : Nat) : List Char :=
  (splitBytes (stop - start) (splitBytes start text).2).1

/-- A text from an offset on, with ranges of it replaced. -/
def replaceRanges (text new : List Char) : (behind : Nat) → List (Nat × Nat) → List Char
  | behind, [] => sliceBytes text behind (byteCount text)
  | behind, (start, stop) :: ranges =>
      sliceBytes text behind start ++ new ++ replaceRanges text new stop ranges

theorem byteCount_append (front back : List Char) :
    byteCount (front ++ back) = byteCount front + byteCount back := by
  induction front with
  | nil => exact (Nat.zero_add _).symm
  | cons c front ih => rw [List.cons_append, byteCount, byteCount, ih, Nat.add_assoc]

theorem eq_nil_of_byteCount_eq_zero {text : List Char} (none : byteCount text = 0) : text = [] := by
  cases text with
  | nil => rfl
  | cons c rest =>
      have positive := c.utf8Size_pos
      rw [byteCount] at none
      omega

theorem splitBytes_byteCount (front back : List Char) :
    splitBytes (byteCount front) (front ++ back) = (front, back) := by
  induction front with
  | nil => rw [byteCount, List.nil_append, splitBytes]
  | cons c front ih =>
      have positive := c.utf8Size_pos
      obtain ⟨size, sizeEq⟩ : ∃ size, byteCount (c :: front) = size + 1 :=
        ⟨byteCount (c :: front) - 1, by rw [byteCount]; omega⟩
      have restEq : size + 1 - c.utf8Size = byteCount front := by
        rw [← sizeEq, byteCount, Nat.add_sub_cancel_left]
      rw [sizeEq, List.cons_append, splitBytes, restEq, ih]

theorem sliceBytes_between (front part back : List Char) :
    sliceBytes (front ++ (part ++ back)) (byteCount front) (byteCount front + byteCount part) =
      part := by
  rw [sliceBytes, splitBytes_byteCount, Nat.add_sub_cancel_left, splitBytes_byteCount]

theorem boundary_behind {front rest : List Char} {stop : Nat}
    (boundary : Boundary (front ++ rest) stop) (behind : byteCount front ≤ stop) :
    ∃ part back, rest = part ++ back ∧ byteCount front + byteCount part = stop := by
  obtain ⟨front', back, same, rfl⟩ := boundary
  rcases List.append_eq_append_iff.mp same with ⟨part, rfl, rfl⟩ | ⟨extra, rfl, rfl⟩
  · exact ⟨part, back, rfl, (byteCount_append ..).symm⟩
  · rw [byteCount_append] at behind
    have none : extra = [] := eq_nil_of_byteCount_eq_zero (by omega)
    subst none
    exact ⟨[], rest, rfl, by rw [List.append_nil]; rfl⟩

theorem sliceBytes_append {text : List Char} {start middle stop : Nat}
    (startBoundary : Boundary text start) (middleBoundary : Boundary text middle)
    (stopBoundary : Boundary text stop) (first : start ≤ middle) (second : middle ≤ stop) :
    sliceBytes text start middle ++ sliceBytes text middle stop = sliceBytes text start stop := by
  obtain ⟨front, rest, rfl, rfl⟩ := startBoundary
  obtain ⟨left, rest, rfl, rfl⟩ := boundary_behind middleBoundary first
  rw [← byteCount_append] at second
  obtain ⟨right, back, rfl, rfl⟩ :=
    boundary_behind (List.append_assoc front left rest ▸ stopBoundary) second
  have rightSlice := sliceBytes_between (front ++ left) right back
  have bothSlice := sliceBytes_between front (left ++ right) back
  rw [List.append_assoc, byteCount_append] at rightSlice
  rw [List.append_assoc, byteCount_append, ← Nat.add_assoc] at bothSlice
  rw [sliceBytes_between, byteCount_append, rightSlice, bothSlice]

theorem sliceBytes_ne_nil {text : List Char} {start stop : Nat}
    (startBoundary : Boundary text start) (stopBoundary : Boundary text stop) (before : start < stop) :
    sliceBytes text start stop ≠ [] := by
  obtain ⟨front, rest, rfl, rfl⟩ := startBoundary
  obtain ⟨part, back, rfl, rfl⟩ := boundary_behind stopBoundary (Nat.le_of_lt before)
  rw [sliceBytes_between]
  rintro rfl
  exact absurd before (Nat.lt_irrefl _)

theorem boundary_length (text : List Char) : Boundary text (byteCount text) :=
  ⟨text, [], (List.append_nil text).symm, rfl⟩

theorem le_length_of_boundary {text : List Char} {offset : Nat} (boundary : Boundary text offset) :
    offset ≤ byteCount text := by
  obtain ⟨front, back, rfl, rfl⟩ := boundary
  rw [byteCount_append]
  exact Nat.le_add_right ..

theorem sliceBytes_self (text : List Char) (offset : Nat) : sliceBytes text offset offset = [] := by
  rw [sliceBytes, Nat.sub_self, splitBytes]

theorem boundary_iff {text : List Char} {offset : Nat} :
    Boundary text offset ↔ byteCount (splitBytes offset text).1 = offset := by
  constructor
  · rintro ⟨front, back, rfl, rfl⟩
    rw [splitBytes_byteCount]
  · intro counts
    exact ⟨_, _, (splitBytes_append offset text).symm, counts⟩

instance (text : List Char) (offset : Nat) : Decidable (Boundary text offset) :=
  decidable_of_iff _ boundary_iff.symm

theorem boundary_max {text : List Char} {left right : Nat} (leftBoundary : Boundary text left)
    (rightBoundary : Boundary text right) : Boundary text (max left right) := by
  rcases Nat.le_total left right with atMost | atMost
  · rw [Nat.max_eq_right atMost]
    exact rightBoundary
  · rw [Nat.max_eq_left atMost]
    exact leftBoundary

end Codemod.Text
