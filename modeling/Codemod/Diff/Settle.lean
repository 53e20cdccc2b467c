import Codemod.Diff.Op

/-!
Settling a script: where an insertion may stand in several places, it goes to the last of them.

The operations are walked with a focus. The focused operation first moves up as far as it can and
then down. Past a kept run an insertion slides as long as the lines it passes equal its own;
deletions do not slide. Insertions and deletions next to each other change places, and two of one
kind are joined. The ranges that are empty anyway are left as they are when operations change
places.
-/

set_option autoImplicit false

namespace Codemod.Diff

/-- Operations around a focus; those before it are listed backwards. -/
structure Focused where
  before : List Op
  focus : Op
  after : List Op

/-- How much there is to pass among operations. -/
def extent : List Op → Nat
  | [] => 0
  | op :: rest => op.oldCount + op.newCount + 1 + extent rest

section

variable {α : Type} [BEq α]

/-- How far an insertion slides up a kept run. Nothing else slides. -/
def slideUp (old new : Array α) (run focus : Op) : Nat :=
  if focus.tag = .insert then
    commonBack old new run.oldStop focus.newStop (min run.oldCount focus.newCount)
  else 0

def slideDown (old new : Array α) (run focus : Op) : Nat :=
  if focus.tag = .insert then
    commonFront old new run.oldStart focus.newStart (min run.oldCount focus.newCount)
  else 0

theorem slideUp_le (old new : Array α) (run focus : Op) :
    slideUp old new run focus ≤ run.oldCount := by
  unfold slideUp
  split
  · exact Nat.le_trans (commonBack_le ..) (Nat.min_le_left ..)
  · exact Nat.zero_le _

theorem slideDown_le (old new : Array α) (run focus : Op) :
    slideDown old new run focus ≤ run.oldCount := by
  unfold slideDown
  split
  · exact Nat.le_trans (commonFront_le ..) (Nat.min_le_left ..)
  · exact Nat.zero_le _

/-- Kept lines that follow the focus once it has slid up past them. -/
def keepBehind (run focus : Op) (count : Nat) : List Op → List Op
  | [] => [.equal (run.oldStop - count) (focus.newStop - count) count]
  | next :: rest =>
      if next.tag = .equal then next.growLeft count :: rest
      else .equal (run.oldStop - count) (focus.newStop - count) count :: next :: rest

/-- Kept lines that precede the focus once it has slid down past them. -/
def keepBefore (run focus : Op) (count : Nat) : List Op → List Op
  | [] => [.equal run.oldStart focus.newStart count]
  | previous :: rest =>
      if previous.tag = .equal then previous.growRight count :: rest
      else .equal run.oldStart focus.newStart count :: previous :: rest

def moveUp (old new : Array α) (before : List Op) (focus : Op) (after : List Op) : Focused :=
  match before with
  | [] => ⟨[], focus, after⟩
  | previous :: rest =>
      if previous.tag = .equal then
        if 0 < slideUp old new previous focus then
          let count := slideUp old new previous focus
          let kept := keepBehind previous focus count after
          if (previous.shrinkRight count).isEmpty then
            moveUp old new rest (focus.shiftLeft count) kept
          else moveUp old new (previous.shrinkRight count :: rest) (focus.shiftLeft count) kept
        else if previous.isEmpty then moveUp old new rest focus after
        else ⟨previous :: rest, focus, after⟩
      else if previous.tag = focus.tag then
        moveUp old new rest (previous.growRight (focus.oldCount + focus.newCount)) after
      else moveUp old new rest focus (previous :: after)
termination_by extent before
decreasing_by
  all_goals simp only [extent, Op.shrinkRight]
  all_goals try omega
  have := slideUp_le old new previous focus
  omega

def moveDown (old new : Array α) (before : List Op) (focus : Op) (after : List Op) : Focused :=
  match after with
  | [] => ⟨before, focus, []⟩
  | next :: rest =>
      if next.tag = .equal then
        if 0 < slideDown old new next focus then
          let count := slideDown old new next focus
          let kept := keepBefore next focus count before
          if (next.shrinkLeft count).isEmpty then
            moveDown old new kept (focus.shiftRight count) rest
          else moveDown old new kept (focus.shiftRight count) (next.shrinkLeft count :: rest)
        else if next.isEmpty then moveDown old new before focus rest
        else ⟨before, focus, next :: rest⟩
      else if next.tag = focus.tag then
        moveDown old new before (focus.growRight (next.oldCount + next.newCount)) rest
      else moveDown old new (next :: before) focus rest
termination_by extent after
decreasing_by
  all_goals simp only [extent, Op.shrinkLeft, Op.shiftRight, Op.shrinkRight]
  all_goals try omega
  have := slideDown_le old new next focus
  omega

/-- Settle every operation with the given tag, in at most `bound` rounds. -/
def settleTag (old new : Array α) (tag : Tag) : (bound : Nat) → List Op → List Op → List Op
  | 0, before, after => before.reverse ++ after
  | _ + 1, before, [] => before.reverse
  | bound + 1, before, op :: after =>
      if op.tag = tag then
        let up := moveUp old new before op after
        let down := moveDown old new up.before up.focus up.after
        settleTag old new tag bound (down.focus :: down.before) down.after
      else settleTag old new tag bound (op :: before) after

/-- More rounds than settling a script takes: an operation is passed, or two are joined and what they
slid past is passed again. -/
def settleBound (old new : Array α) : Nat :=
  let passes := 2 * (old.size + new.size) + 1
  passes * passes

/-- Settle the deletions of a script, and then its insertions. -/
def settle (old new : Array α) (ops : List Op) : List Op :=
  let bound := settleBound old new
  settleTag old new .insert bound [] (settleTag old new .delete bound [] ops)

end

/-! ### Joining -/

/-- Join the runs of a change that may have several deletions and insertions: with both, it is a
replacement. -/
def joinChange (deleted inserted : Option Op) : List Op :=
  match deleted, inserted with
  | some old, some new => [.replace old.oldStart old.oldCount new.newStart new.newCount]
  | some old, none => [old]
  | none, some new => [new]
  | none, none => []

def joinRun (earlier : Option Op) (op : Op) : Op :=
  match earlier with
  | some first =>
      { first with oldCount := first.oldCount + op.oldCount,
                   newCount := first.newCount + op.newCount }
  | none => op

/-- Join runs of one kind, and deletions with insertions next to them. -/
def joinFrom (kept deleted inserted : Option Op) : List Op → List Op
  | [] => kept.toList ++ joinChange deleted inserted
  | op :: rest =>
      match op.tag with
      | .equal =>
          joinChange deleted inserted ++ joinFrom (some (joinRun kept op)) none none rest
      | .delete => kept.toList ++ joinFrom none (some (joinRun deleted op)) inserted rest
      | .insert => kept.toList ++ joinFrom none deleted (some (joinRun inserted op)) rest
      | .replace => kept.toList ++ op :: joinFrom none deleted inserted rest

def join (ops : List Op) : List Op := joinFrom none none none ops

end Codemod.Diff
