import Mathlib.Data.List.Chain
import Mathlib.Data.List.Induction
import Codemod.Proofs.Diff.Layout

/-!
Kept runs and changes alternate.

Joining puts kept runs that follow each other together, so between two of them there is a change. A
kept run of a joined script is therefore as long as the changes around it are apart, and what stands
at the start and at the end of a script can be read off its first and its last operation.
-/

set_option autoImplicit false

namespace Codemod.Diff

/-! ### Joined scripts -/

/-- No two kept runs stand next to each other. -/
def Alternates (ops : List Op) : Prop :=
  (ops.map Op.tag).IsChain fun first second => ¬(first = .equal ∧ second = .equal)

/-- A script begins with a change, unless it is empty. -/
def BeginsWithChange (ops : List Op) : Prop :=
  ∀ op rest, ops = op :: rest → op.tag ≠ .equal

theorem alternates_cons {op : Op} {rest : List Op} (alternates : Alternates rest)
    (apart : op.tag = .equal → BeginsWithChange rest) : Alternates (op :: rest) := by
  unfold Alternates at *
  rw [List.map_cons, List.isChain_cons]
  refine ⟨?_, alternates⟩
  rintro second isHead ⟨isEqual, isEqual'⟩
  cases rest with
  | nil => cases isHead
  | cons next rest =>
      obtain rfl : next.tag = second := Option.some.inj isHead
      exact apart isEqual next rest rfl isEqual'

theorem Alternates.rest {op : Op} {rest : List Op} (alternates : Alternates (op :: rest)) :
    Alternates rest := (List.isChain_cons.mp alternates).2

theorem Alternates.begins {op : Op} {rest : List Op} (alternates : Alternates (op :: rest))
    (isEqual : op.tag = .equal) : BeginsWithChange rest := by
  rintro next behind rfl isEqual'
  exact (List.isChain_cons_cons.mp alternates).1 ⟨isEqual, isEqual'⟩

/-- A change is joined to one operation at most. -/
theorem joinChange_cases {kept deleted inserted : Option Op}
    (pending : Pending kept deleted inserted) :
    (deleted = none ∧ inserted = none ∧ joinChange deleted inserted = []) ∨
      ∃ op, op.tag ≠ .equal ∧ joinChange deleted inserted = [op] := by
  cases deleted with
  | none =>
      cases inserted with
      | none => exact Or.inl ⟨rfl, rfl, rfl⟩
      | some insertion =>
          refine Or.inr ⟨insertion, ?_, rfl⟩
          rw [pending.insertedTag insertion rfl]
          decide
  | some deletion =>
      cases inserted with
      | none =>
          refine Or.inr ⟨deletion, ?_, rfl⟩
          rw [pending.deletedTag deletion rfl]
          decide
      | some insertion =>
          refine Or.inr ⟨_, ?_, rfl⟩
          exact nofun

theorem begins_cons {op : Op} (isChange : op.tag ≠ .equal) (rest : List Op) :
    BeginsWithChange (op :: rest) := by
  rintro first behind same
  cases same
  exact isChange

theorem alternates_behind_kept (kept : Option Op) {ops : List Op} (alternates : Alternates ops)
    (begins : BeginsWithChange ops) :
    Alternates (kept.toList ++ ops) ∧ (kept = none → BeginsWithChange (kept.toList ++ ops)) := by
  cases kept with
  | none => exact ⟨alternates, fun _ => begins⟩
  | some op =>
      exact ⟨alternates_cons alternates fun _ => begins, fun impossible => nomatch impossible⟩

/-- With a change at hand, and no kept run in front of it, a joined script begins with it. -/
theorem alternates_joinFrom (ops : List Op) :
    ∀ kept deleted inserted : Option Op, Pending kept deleted inserted →
      Alternates (joinFrom kept deleted inserted ops) ∧
        (kept = none → deleted ≠ none ∨ inserted ≠ none →
          BeginsWithChange (joinFrom kept deleted inserted ops)) := by
  induction ops with
  | nil =>
      intro kept deleted inserted pending
      unfold joinFrom
      rcases joinChange_cases pending with ⟨rfl, rfl, none⟩ | ⟨change, isChange, single⟩
      · rw [none, List.append_nil]
        refine ⟨?_, fun _ some => absurd rfl (some.elim id id)⟩
        cases kept with
        | none => exact .nil
        | some op => exact .singleton _
      · rw [single]
        obtain ⟨alternates, begins⟩ := alternates_behind_kept kept
          (show Alternates [change] from .singleton _) (begins_cons isChange [])
        exact ⟨alternates, fun none _ => begins none⟩
  | cons op rest ih =>
      intro kept deleted inserted pending
      rw [joinFrom]
      cases tagEq : op.tag with
      | equal =>
          -- The kept run goes on unless a change is at hand, which goes out in front of it.
          simp only
          have further := (ih _ none none (pending.equal tagEq)).1
          rcases joinChange_cases pending with ⟨rfl, rfl, none⟩ | ⟨change, isChange, single⟩
          · rw [none]
            exact ⟨further, fun _ some => absurd rfl (some.elim id id)⟩
          · rw [single]
            exact ⟨alternates_cons further fun isEqual => absurd isEqual isChange,
              fun _ _ => begins_cons isChange _⟩
      | delete =>
          -- The kept run at hand goes out, and the change behind it is at hand.
          simp only
          obtain ⟨further, changes⟩ := ih none _ inserted (pending.delete tagEq)
          obtain ⟨alternates, begins⟩ := alternates_behind_kept kept further
            (changes rfl (Or.inl (Option.some_ne_none _)))
          exact ⟨alternates, fun none _ => begins none⟩
      | insert =>
          simp only
          obtain ⟨further, changes⟩ := ih none deleted _ (pending.insert tagEq)
          obtain ⟨alternates, begins⟩ := alternates_behind_kept kept further
            (changes rfl (Or.inr (Option.some_ne_none _)))
          exact ⟨alternates, fun none _ => begins none⟩
      | replace =>
          simp only
          have isChange : op.tag ≠ .equal := by
            rw [tagEq]
            decide
          have further := (ih none deleted inserted
            (pending_change pending.deletedTag pending.insertedTag)).1
          obtain ⟨alternates, begins⟩ := alternates_behind_kept kept
            (alternates_cons further fun isEqual => absurd isEqual isChange)
            (begins_cons isChange _)
          exact ⟨alternates, fun none _ => begins none⟩

theorem alternates_join (ops : List Op) : Alternates (join ops) :=
  (alternates_joinFrom ops none none none pending_none).1

/-! ### Runs of kept lines -/

def Change.isKept : Change → Bool
  | keep _ => true
  | _ => false

/-- How many kept lines changes begin with. -/
def keptAhead (changes : List Change) : Nat := (changes.takeWhile Change.isKept).length

/-- How many kept lines changes end with. -/
def keptBehind (changes : List Change) : Nat := keptAhead changes.reverse

theorem keptAhead_kept (lines : List String) (changes : List Change) :
    keptAhead (lines.map .keep ++ changes) = lines.length + keptAhead changes := by
  unfold keptAhead
  rw [List.takeWhile_append_of_pos, List.length_append, List.length_map]
  intro change isIn
  obtain ⟨line, _, rfl⟩ := List.mem_map.mp isIn
  rfl

theorem keptAhead_all (lines : List String) : keptAhead (lines.map .keep) = lines.length := by
  rw [← List.append_nil (lines.map Change.keep), keptAhead_kept]
  rfl

theorem keptBehind_all (lines : List String) : keptBehind (lines.map .keep) = lines.length := by
  unfold keptBehind
  rw [← List.map_reverse, keptAhead_all, List.length_reverse]

theorem keptAhead_change {change : Change} (isChange : change.isKept = false)
    (changes : List Change) : keptAhead (change :: changes) = 0 := by
  unfold keptAhead
  rw [List.takeWhile_cons, isChange]
  rfl

theorem keptBehind_kept (changes : List Change) (lines : List String) :
    keptBehind (changes ++ lines.map .keep) = lines.length + keptBehind changes := by
  unfold keptBehind
  rw [List.reverse_append, ← List.map_reverse, keptAhead_kept, List.length_reverse]

theorem keptBehind_change (changes : List Change) {change : Change}
    (isChange : change.isKept = false) : keptBehind (changes ++ [change]) = 0 := by
  unfold keptBehind
  rw [List.reverse_append]
  exact keptAhead_change isChange _

/-- Between two changes there are never more than `bound` kept lines. -/
def RunsWithin (bound : Nat) (changes : List Change) : Prop :=
  ∀ (front : List Change) (first : Change) (kept : List String) (second : Change)
    (behind : List Change), changes = front ++ first :: (kept.map .keep ++ second :: behind) →
      first.isKept = false → second.isKept = false → kept.length ≤ bound

section

variable {bound : Nat} {changes : List Change}

theorem runsWithin_nil : RunsWithin bound [] := by
  intro front first kept second behind impossible
  exact absurd impossible.symm (List.append_ne_nil_of_right_ne_nil _ (List.cons_ne_nil _ _))

/-- A change in front opens a run, and a kept line does not. -/
theorem runsWithin_cons {change : Change} (within : RunsWithin bound changes)
    (opens : change.isKept = false → keptAhead changes ≤ bound) :
    RunsWithin bound (change :: changes) := by
  intro front first kept second behind same isChange isChange'
  cases front with
  | nil =>
      obtain ⟨rfl, rfl⟩ := List.cons.inj same
      have atMost := opens isChange
      rw [keptAhead_kept, keptAhead_change isChange'] at atMost
      exact atMost
  | cons head front =>
      exact within front first kept second behind (List.cons.inj same).2 isChange isChange'

theorem runsWithin_kept (lines : List String) (within : RunsWithin bound changes) :
    RunsWithin bound (lines.map .keep ++ changes) := by
  induction lines with
  | nil => exact within
  | cons line lines ih => exact runsWithin_cons ih fun impossible => nomatch impossible

theorem runsWithin_changed {block : List Change}
    (changed : ∀ change, change ∈ block → change.isKept = false)
    (within : RunsWithin bound changes) (opens : keptAhead changes ≤ bound) :
    RunsWithin bound (block ++ changes) := by
  induction block with
  | nil => exact within
  | cons change block ih =>
      have further := ih fun other isIn => changed other (List.mem_cons_of_mem _ isIn)
      refine runsWithin_cons further fun _ => ?_
      cases block with
      | nil => exact opens
      | cons next block =>
          have isChange := changed next (List.mem_cons_of_mem _ List.mem_cons_self)
          exact (keptAhead_change isChange (block ++ changes)).trans_le (Nat.zero_le bound)

end

/-! ### Kept runs as operations -/

/-- How many lines an operation keeps. -/
def Op.keptCount (op : Op) : Nat := if op.tag = .equal then op.oldCount else 0

def headKept : List Op → Nat
  | [] => 0
  | op :: _ => op.keptCount

def tailKept (ops : List Op) : Nat := headKept ops.reverse

theorem tailKept_append_singleton (front : List Op) (op : Op) :
    tailKept (front ++ [op]) = op.keptCount := by
  unfold tailKept
  rw [List.reverse_append]
  rfl

theorem tailKept_append (front : List Op) {back : List Op} (nonempty : back ≠ []) :
    tailKept (front ++ back) = tailKept back := by
  obtain ⟨init, last, rfl⟩ := (List.eq_nil_or_concat back).resolve_left nonempty
  rw [List.concat_eq_append, ← List.append_assoc, tailKept_append_singleton,
    tailKept_append_singleton]

/-- An operation stands for lines: a kept run for as many old lines as it is long, and any other
operation for one at least. -/
def Op.Shown (old new : Array String) (op : Op) : Prop :=
  (op.tag = .equal → op.oldStop ≤ old.size) ∧ (op.tag ≠ .equal → op.changes old new ≠ [])

section

variable {old new : Array String} {op : Op} {ops : List Op}

theorem changes_kept (isEqual : op.tag = .equal) :
    op.changes old new = (slice old op.oldStart op.oldCount).map .keep := by
  unfold Op.changes
  rw [isEqual]

theorem isKept_of_mem_changes (isChange : op.tag ≠ .equal) :
    ∀ change, change ∈ op.changes old new → change.isKept = false := by
  intro change isIn
  cases tagEq : op.tag with
  | equal => exact absurd tagEq isChange
  | delete =>
      simp only [Op.changes, tagEq] at isIn
      obtain ⟨line, _, rfl⟩ := List.mem_map.mp isIn
      rfl
  | insert =>
      simp only [Op.changes, tagEq] at isIn
      obtain ⟨line, _, rfl⟩ := List.mem_map.mp isIn
      rfl
  | replace =>
      simp only [Op.changes, tagEq] at isIn
      rcases List.mem_append.mp isIn with isIn | isIn
      · obtain ⟨line, _, rfl⟩ := List.mem_map.mp isIn
        rfl
      · obtain ⟨line, _, rfl⟩ := List.mem_map.mp isIn
        rfl

theorem Alternates.front {front back : List Op} (alternates : Alternates (front ++ back)) :
    Alternates front := by
  unfold Alternates at *
  rw [List.map_append] at alternates
  exact (List.isChain_append.mp alternates).1

theorem Alternates.back {front back : List Op} (alternates : Alternates (front ++ back)) :
    Alternates back := by
  unfold Alternates at *
  rw [List.map_append] at alternates
  exact (List.isChain_append.mp alternates).2.1

theorem Alternates.ends {front back : List Op} (alternates : Alternates (front ++ op :: back))
    (isEqual : op.tag = .equal) (nonempty : front ≠ []) :
    ∃ init last, front = init ++ [last] ∧ last.tag ≠ .equal := by
  obtain ⟨init, last, frontEq⟩ := (List.eq_nil_or_concat front).resolve_left nonempty
  rw [List.concat_eq_append] at frontEq
  rw [frontEq, List.append_assoc] at alternates
  exact ⟨init, last, frontEq, fun isEqual' => alternates.back.begins isEqual' op back rfl isEqual⟩

theorem Alternates.tailKept_front {front back : List Op}
    (alternates : Alternates (front ++ op :: back)) (isEqual : op.tag = .equal) :
    tailKept front = 0 := by
  by_cases empty : front = []
  · rw [empty]
    rfl
  · obtain ⟨init, last, rfl, isChange⟩ := alternates.ends isEqual empty
    rw [tailKept_append_singleton]
    exact if_neg isChange

theorem headKept_begins (begins : BeginsWithChange ops) : headKept ops = 0 := by
  cases ops with
  | nil => rfl
  | cons op rest => exact if_neg (begins op rest rfl)

theorem keptAhead_changesOf (alternates : Alternates ops)
    (shown : ∀ op, op ∈ ops → op.Shown old new) :
    keptAhead (changesOf old new ops) = headKept ops := by
  induction ops with
  | nil => rfl
  | cons op rest ih =>
      have further := ih alternates.rest fun other isIn => shown other (List.mem_cons_of_mem _ isIn)
      obtain ⟨inside, nonempty⟩ := shown op List.mem_cons_self
      rw [changesOf_cons, headKept, Op.keptCount]
      split
      · rename_i isEqual
        rw [changes_kept isEqual, keptAhead_kept, length_slice (inside isEqual), further,
          headKept_begins (alternates.begins isEqual), Nat.add_zero]
      · rename_i isChange
        obtain ⟨change, changes, changesEq⟩ := List.exists_cons_of_ne_nil (nonempty isChange)
        have changed : change.isKept = false :=
          isKept_of_mem_changes isChange change (changesEq ▸ List.mem_cons_self)
        rw [changesEq]
        exact keptAhead_change changed _

theorem keptBehind_changesOf (alternates : Alternates ops)
    (shown : ∀ op, op ∈ ops → op.Shown old new) :
    keptBehind (changesOf old new ops) = tailKept ops := by
  induction ops using List.reverseRecOn with
  | nil => rfl
  | append_singleton front op ih =>
      have further := ih alternates.front fun other isIn =>
        shown other (List.mem_append_left _ isIn)
      obtain ⟨inside, nonempty⟩ := shown op (List.mem_append_right _ List.mem_cons_self)
      have single : changesOf old new [op] = op.changes old new := List.append_nil _
      rw [changesOf_append, single, tailKept_append_singleton, Op.keptCount]
      split
      · rename_i isEqual
        rw [changes_kept isEqual, keptBehind_kept, length_slice (inside isEqual), further,
          alternates.tailKept_front isEqual, Nat.add_zero]
      · rename_i isChange
        obtain ⟨changes, change, changesEq⟩ := List.eq_nil_or_concat (op.changes old new)
          |>.resolve_left (nonempty isChange)
        rw [List.concat_eq_append] at changesEq
        have changed : change.isKept = false := isKept_of_mem_changes isChange change
          (changesEq ▸ List.mem_append_right _ List.mem_cons_self)
        rw [changesEq, ← List.append_assoc]
        exact keptBehind_change _ changed

theorem runsWithin_changesOf {bound : Nat} (alternates : Alternates ops)
    (shown : ∀ op, op ∈ ops → op.Shown old new) (short : ∀ op, op ∈ ops → op.keptCount ≤ bound) :
    RunsWithin bound (changesOf old new ops) := by
  induction ops with
  | nil => exact runsWithin_nil
  | cons op rest ih =>
      have restShown (other : Op) (isIn : other ∈ rest) : other.Shown old new :=
        shown other (List.mem_cons_of_mem _ isIn)
      have restShort (other : Op) (isIn : other ∈ rest) : other.keptCount ≤ bound :=
        short other (List.mem_cons_of_mem _ isIn)
      have further := ih alternates.rest restShown restShort
      rw [changesOf_cons]
      by_cases isEqual : op.tag = .equal
      · rw [changes_kept isEqual]
        exact runsWithin_kept _ further
      · refine runsWithin_changed (isKept_of_mem_changes isEqual) further ?_
        rw [keptAhead_changesOf alternates.rest restShown]
        cases rest with
        | nil => exact Nat.zero_le bound
        | cons next _ => exact restShort next List.mem_cons_self

end

end Codemod.Diff
