import Codemod.Proofs.Diff.Alternate
import Codemod.Proofs.Diff.Summary

/-!
Hunks have the right context.

A script begins and ends with at most one kept run, and between two changes there is at most one, so
what grouping does with single operations it does with all kept lines between changes. A kept run
that is cut leaves the context on both sides of the cut, and one that is not cut is no longer than
the context on both sides.

Main statement: a hunk shows as many kept lines in front of its first and behind its last change as
the context asks for, or all there are, it has no longer run of kept lines between two changes than
the context on both sides, and at least one line is left out between two hunks.
-/

set_option autoImplicit false

namespace Codemod.Diff

/-! ### Hunks and the gaps between them -/

/-- All changes of two texts: the lines of the gaps are kept, and the hunks lie between them. -/
def scriptOf : (gaps : List (List String)) → (hunks : List (List Change)) → List Change
  | gap :: gaps, hunk :: hunks => gap.map .keep ++ hunk ++ scriptOf gaps hunks
  | gaps, [] => gaps.flatten.map .keep
  | [], hunks => hunks.flatten

theorem scriptOf_singleton (gap : List String) : scriptOf [gap] [] = gap.map .keep := by
  rw [scriptOf, List.flatten_singleton]

/-- What a hunk shows if `before` and `behind` are all changes in front of it and behind it: at least
one change, around its changes as many kept lines as the context asks for or all there are up to the
next change or the end of the text, and between two changes no more than the context of both. -/
structure RightContext (context : Nat) (before hunk behind : List Change) : Prop where
  changes : ∃ change, change ∈ hunk ∧ change.isKept = false
  ahead : keptAhead hunk = min context (keptBehind before + keptAhead hunk)
  behind : keptBehind hunk = min context (keptBehind hunk + keptAhead behind)
  inside : RunsWithin (2 * context) hunk

/-- All hunks have the right context, and between two of them a line is left out. -/
def InContext (context : Nat) :
    (before : List Change) → (gaps : List (List String)) → (hunks : List (List Change)) → Prop
  | before, gap :: gaps, hunk :: hunks =>
      (before ≠ [] → gap ≠ []) ∧
      RightContext context (before ++ gap.map .keep) hunk (scriptOf gaps hunks) ∧
      InContext context (before ++ gap.map .keep ++ hunk) gaps hunks
  | _, _, _ => True

/-! ### Cutting kept runs -/

section

variable {old new : Array String} {context : Nat} {op : Op}

theorem changes_firstKept (isEqual : op.tag = .equal) :
    (firstKept context op).changes old new =
      (slice old op.oldStart (min op.oldCount context)).map .keep := by
  have tagEq : (firstKept context op).tag = .equal := isEqual
  rw [changes_kept tagEq, ← Nat.sub_sub_eq_min]
  rfl

theorem changes_lastKept (isEqual : op.tag = .equal) :
    (lastKept context op).changes old new =
      (slice old (op.oldStart + (op.oldCount - context)) (min op.oldCount context)).map .keep := by
  have tagEq : (lastKept context op).tag = .equal := isEqual
  rw [changes_kept tagEq, ← Nat.sub_sub_eq_min]
  rfl

theorem keptCount_firstKept (isEqual : op.tag = .equal) :
    (firstKept context op).keptCount = min op.oldCount context := by
  have tagEq : (firstKept context op).tag = .equal := isEqual
  rw [Op.keptCount, if_pos tagEq, ← Nat.sub_sub_eq_min]
  rfl

theorem keptCount_lastKept (isEqual : op.tag = .equal) :
    (lastKept context op).keptCount = min op.oldCount context := by
  have tagEq : (lastKept context op).tag = .equal := isEqual
  rw [Op.keptCount, if_pos tagEq, ← Nat.sub_sub_eq_min]
  rfl

theorem shown_firstKept (isEqual : op.tag = .equal) (shown : op.Shown old new) :
    (firstKept context op).Shown old new := by
  refine ⟨fun _ => ?_, fun isChange => absurd isEqual isChange⟩
  have inside := shown.1 isEqual
  unfold firstKept Op.shrinkRight
  unfold Op.oldStop at *
  simp only
  omega

theorem shown_lastKept (isEqual : op.tag = .equal) (shown : op.Shown old new) :
    (lastKept context op).Shown old new := by
  refine ⟨fun _ => ?_, fun isChange => absurd isEqual isChange⟩
  have inside := shown.1 isEqual
  unfold lastKept Op.shrinkLeft Op.shiftRight Op.shrinkRight
  unfold Op.oldStop at *
  simp only
  omega

/-- A kept run that is longer than the context on both sides, cut into three parts. -/
theorem changes_cut (isEqual : op.tag = .equal) (long : 2 * context < op.oldCount) :
    op.changes old new = (firstKept context op).changes old new ++
      ((slice old (op.oldStart + context) (op.oldCount - 2 * context)).map .keep ++
        (lastKept context op).changes old new) := by
  rw [changes_kept isEqual, changes_firstKept isEqual, changes_lastKept isEqual,
    Nat.min_eq_right (by omega), ← List.map_append, ← List.map_append,
    show op.oldStart + (op.oldCount - context) =
      op.oldStart + context + (op.oldCount - 2 * context) by omega, ← slice_add, ← slice_add,
    show context + (op.oldCount - 2 * context + context) = op.oldCount by omega]

/-! ### Both ends -/

theorem tags_trimStart (context : Nat) (ops : List Op) :
    (trimStart context ops).map Op.tag = ops.map Op.tag := by
  cases ops with
  | nil => rfl
  | cons op rest =>
      rw [trimStart]
      split <;> rfl

theorem tags_trimEnd (context : Nat) (ops : List Op) :
    (trimEnd context ops).map Op.tag = ops.map Op.tag := by
  fun_induction trimEnd context ops with
  | case1 => rfl
  | case2 op isEqual => rfl
  | case3 op isChange => rfl
  | case4 op rest _ ih => rw [List.map_cons, List.map_cons, ih]

theorem shown_trimStart {ops : List Op} (shown : ∀ op, op ∈ ops → op.Shown old new) :
    ∀ op, op ∈ trimStart context ops → op.Shown old new := by
  cases ops with
  | nil => exact shown
  | cons op rest =>
      intro other isIn
      rw [trimStart] at isIn
      split at isIn
      · rename_i isEqual
        rcases List.mem_cons.mp isIn with rfl | isIn
        · exact shown_lastKept isEqual (shown op List.mem_cons_self)
        · exact shown other (List.mem_cons_of_mem _ isIn)
      · exact shown other isIn

theorem shown_trimEnd {ops : List Op} (shown : ∀ op, op ∈ ops → op.Shown old new) :
    ∀ op, op ∈ trimEnd context ops → op.Shown old new := by
  fun_induction trimEnd context ops with
  | case1 => exact shown
  | case2 op isEqual =>
      intro other isIn
      rw [List.mem_singleton.mp isIn]
      exact shown_firstKept isEqual (shown op List.mem_cons_self)
  | case3 op isChange => exact shown
  | case4 op rest _ ih =>
      intro other isIn
      rcases List.mem_cons.mp isIn with rfl | isIn
      · exact shown other List.mem_cons_self
      · exact ih (fun next nextIn => shown next (List.mem_cons_of_mem _ nextIn)) other isIn

theorem headKept_trimEnd {ops : List Op} (changes : ∃ op, op ∈ ops ∧ op.tag ≠ .equal) :
    headKept (trimEnd context ops) = headKept ops := by
  fun_cases trimEnd context ops with
  | case1 => rfl
  | case2 op isEqual =>
      obtain ⟨other, isIn, isChange⟩ := changes
      rw [List.mem_singleton.mp isIn] at isChange
      exact absurd isEqual isChange
  | case3 op isChange => rfl
  | case4 op rest _ => rfl

/-- What is cut off at the start is kept, and what is left of it is the context. -/
theorem trimStart_context {ops : List Op} (shown : ∀ op, op ∈ ops → op.Shown old new) :
    ∃ front : List String,
      changesOf old new ops = front.map .keep ++ changesOf old new (trimStart context ops) ∧
      headKept (trimStart context ops) =
        min context (front.length + headKept (trimStart context ops)) := by
  cases ops with
  | nil => exact ⟨[], rfl, (Nat.min_zero context).symm⟩
  | cons op rest =>
      rw [trimStart]
      split
      · rename_i isEqual
        have inside := (shown op List.mem_cons_self).1 isEqual
        unfold Op.oldStop at inside
        refine ⟨slice old op.oldStart (op.oldCount - context), ?_, ?_⟩
        · rw [changesOf_cons, changesOf_cons, changes_kept isEqual, changes_lastKept isEqual,
            ← List.append_assoc, ← List.map_append, ← slice_add,
            show op.oldCount - context + min op.oldCount context = op.oldCount by omega]
        · rw [headKept, keptCount_lastKept isEqual, length_slice (by omega)]
          omega
      · rename_i isChange
        have none : headKept (op :: rest) = 0 := if_neg isChange
        refine ⟨[], rfl, ?_⟩
        rw [none]
        exact (Nat.min_zero context).symm

theorem trimEnd_context {ops : List Op} (shown : ∀ op, op ∈ ops → op.Shown old new) :
    ∃ tail : List String,
      changesOf old new ops = changesOf old new (trimEnd context ops) ++ tail.map .keep ∧
      tailKept (trimEnd context ops) =
        min context (tailKept (trimEnd context ops) + tail.length) := by
  fun_induction trimEnd context ops with
  | case1 => exact ⟨[], rfl, (Nat.min_zero context).symm⟩
  | case2 op isEqual =>
      have inside := (shown op List.mem_cons_self).1 isEqual
      unfold Op.oldStop at inside
      refine ⟨slice old (op.oldStart + min op.oldCount context) (op.oldCount - context), ?_, ?_⟩
      · rw [changesOf_cons, changesOf_cons, changes_kept isEqual, changes_firstKept isEqual]
        change _ ++ [] = (_ ++ []) ++ _
        rw [List.append_nil, List.append_nil, ← List.map_append, ← slice_add,
          show min op.oldCount context + (op.oldCount - context) = op.oldCount by omega]
      · have single : tailKept [firstKept context op] = min op.oldCount context :=
          keptCount_firstKept isEqual
        rw [single, length_slice (by omega)]
        omega
  | case3 op isChange =>
      have none : tailKept [op] = 0 := if_neg isChange
      refine ⟨[], (List.append_nil _).symm, ?_⟩
      rw [none]
      exact (Nat.min_zero context).symm
  | case4 op rest more ih =>
      obtain ⟨tail, changesEq, trail⟩ :=
        ih fun other isIn => shown other (List.mem_cons_of_mem _ isIn)
      have nonempty : trimEnd context rest ≠ [] := by
        intro none
        have noTags := tags_trimEnd context rest
        rw [none, eq_comm] at noTags
        exact more (List.map_eq_nil_iff.mp noTags)
      have sameTail : tailKept (op :: trimEnd context rest) = tailKept (trimEnd context rest) :=
        tailKept_append [op] nonempty
      refine ⟨tail, ?_, ?_⟩
      · rw [changesOf_cons, changesOf_cons, changesEq, List.append_assoc]
      · rw [sameTail]
        exact trail

/-! ### Groups -/

/-- A script that can be grouped: kept runs and changes alternate, there is a change, and of what it
ends with, followed by the lines `tail`, the context is left. -/
structure Groupable (old new : Array String) (context : Nat) (ops : List Op)
    (tail : List String) : Prop where
  alternates : Alternates ops
  shown : ∀ op, op ∈ ops → op.Shown old new
  changes : ∃ op, op ∈ ops ∧ op.tag ≠ .equal
  trail : tailKept ops = min context (tailKept ops + tail.length)

/-- A group that a hunk may begin with behind `before` and a gap. -/
structure Begun (context : Nat) (before : List Change) (gap : List String) (group : List Op) :
    Prop where
  nonempty : group ≠ []
  short : ∀ op, op ∈ group → op.keptCount ≤ 2 * context
  lead : headKept group = min context (keptBehind (before ++ gap.map .keep) + headKept group)
  apart : before ≠ [] → gap ≠ []

theorem asHunk_of_change {group : List Op} (changes : ∃ op, op ∈ group ∧ op.tag ≠ .equal) :
    asHunk group = [group] := by
  obtain ⟨op, isIn, isChange⟩ := changes
  unfold asHunk
  split
  · exact absurd isIn List.not_mem_nil
  · rename_i single
    rw [List.mem_singleton.mp isIn] at isChange
    rw [if_neg isChange]
  · rfl

theorem headKept_append {front : List Op} (nonempty : front ≠ []) (back : List Op) :
    headKept (front ++ back) = headKept front := by
  obtain ⟨op, rest, rfl⟩ := List.exists_cons_of_ne_nil nonempty
  rfl

theorem Begun.append {before : List Change} {gap : List String} {group : List Op} {op : Op}
    (begun : Begun context before gap group) (short : op.keptCount ≤ 2 * context) :
    Begun context before gap (group ++ [op]) where
  nonempty := List.append_ne_nil_of_left_ne_nil begun.nonempty _
  short := by
    intro other isIn
    rcases List.mem_append.mp isIn with isIn | isIn
    · exact begun.short other isIn
    · rw [List.mem_singleton.mp isIn]
      exact short
  lead := by
    rw [headKept_append begun.nonempty]
    exact begun.lead
  apart := begun.apart

theorem rightContext_of_begun {before behind : List Change} {gap : List String} {group : List Op}
    (begun : Begun context before gap group) (alternates : Alternates group)
    (shown : ∀ op, op ∈ group → op.Shown old new)
    (changes : ∃ op, op ∈ group ∧ op.tag ≠ .equal)
    (trail : tailKept group = min context (tailKept group + keptAhead behind)) :
    RightContext context (before ++ gap.map .keep) (changesOf old new group) behind where
  changes := by
    obtain ⟨op, isIn, isChange⟩ := changes
    obtain ⟨change, changeIn⟩ := List.exists_mem_of_ne_nil _ ((shown op isIn).2 isChange)
    exact ⟨change, List.mem_flatMap.mpr ⟨op, isIn, changeIn⟩,
      isKept_of_mem_changes isChange change changeIn⟩
  ahead := by
    rw [keptAhead_changesOf alternates shown]
    exact begun.lead
  behind := by
    rw [keptBehind_changesOf alternates shown]
    exact trail
  inside := runsWithin_changesOf alternates shown begun.short

theorem begun_lastKept {op : Op} (isEqual : op.tag = .equal) (long : 2 * context < op.oldCount)
    (shown : op.Shown old new) (before : List Change) :
    Begun context before (slice old (op.oldStart + context) (op.oldCount - 2 * context))
      [lastKept context op] := by
  have inside := shown.1 isEqual
  unfold Op.oldStop at inside
  have kept : (lastKept context op).keptCount = context := by
    rw [keptCount_lastKept isEqual]
    exact Nat.min_eq_right (by omega)
  refine ⟨List.cons_ne_nil _ _, ?_, ?_, fun _ => ?_⟩
  · intro other isIn
    rw [List.mem_singleton.mp isIn, kept]
    omega
  · rw [headKept, kept]
    omega
  · rw [← List.length_pos_iff, length_slice (by omega)]
    omega

/-- What is left behind a cut can be grouped as well: the last kept run of a script is too short to
be cut, so a change follows. -/
theorem Groupable.cut {group rest : List Op} {op : Op} {tail : List String}
    (groupable : Groupable old new context (group ++ op :: rest) tail) (isEqual : op.tag = .equal)
    (long : 2 * context < op.oldCount) :
    Groupable old new context (lastKept context op :: rest) tail := by
  obtain ⟨alternates, shown, _, trail⟩ := groupable
  have more : rest ≠ [] := by
    rintro rfl
    rw [tailKept_append_singleton, Op.keptCount, if_pos isEqual] at trail
    omega
  obtain ⟨next, behind, rfl⟩ := List.exists_cons_of_ne_nil more
  have sameTail : tailKept (lastKept context op :: next :: behind) =
      tailKept (group ++ op :: next :: behind) := by
    rw [show lastKept context op :: next :: behind =
        [lastKept context op] ++ next :: behind from rfl,
      show group ++ op :: next :: behind = (group ++ [op]) ++ next :: behind by
        rw [List.append_assoc]; rfl,
      tailKept_append _ more, tailKept_append _ more]
  refine ⟨alternates.back, ?_, ⟨next, ?_, alternates.back.begins isEqual next behind rfl⟩, ?_⟩
  · intro other isIn
    rcases List.mem_cons.mp isIn with rfl | isIn
    · exact shown_lastKept isEqual (shown op (List.mem_append_right _ List.mem_cons_self))
    · exact shown other (List.mem_append_right _ (List.mem_cons_of_mem _ isIn))
  · exact List.mem_cons_of_mem _ List.mem_cons_self
  · rw [sameTail]
    exact trail

/-- A group in front of a cut is a hunk with the right context. -/
theorem rightContext_firstKept {before : List Change} {gap tail : List String}
    {group rest : List Op} {op : Op} (begun : Begun context before gap group)
    (groupable : Groupable old new context (group ++ op :: rest) tail) (isEqual : op.tag = .equal)
    (long : 2 * context < op.oldCount) (behind : List Change) :
    RightContext context (before ++ gap.map .keep)
      (changesOf old new (group ++ [firstKept context op])) behind := by
  have kept : (firstKept context op).keptCount = context := by
    rw [keptCount_firstKept isEqual]
    exact Nat.min_eq_right (by omega)
  obtain ⟨init, last, groupEq, isChange⟩ := groupable.alternates.ends isEqual begun.nonempty
  refine rightContext_of_begun (begun.append (by omega)) ?_ ?_ ⟨last, ?_, isChange⟩ ?_
  · have whole : Alternates ((group ++ [op]) ++ rest) := by
      rw [List.append_assoc]
      exact groupable.alternates
    have front := whole.front
    unfold Alternates at *
    rw [List.map_append] at front ⊢
    exact front
  · intro other isIn
    rcases List.mem_append.mp isIn with isIn | isIn
    · exact groupable.shown other (List.mem_append_left _ isIn)
    · rw [List.mem_singleton.mp isIn]
      exact shown_firstKept isEqual
        (groupable.shown op (List.mem_append_right _ List.mem_cons_self))
  · rw [groupEq]
    exact List.mem_append_left _ (List.mem_append_right _ List.mem_cons_self)
  · rw [tailKept_append_singleton, kept]
    omega

theorem inContext_groupFrom (group ops : List Op) :
    ∀ (before : List Change) (gap tail : List String), Begun context before gap group →
      Groupable old new context (group ++ ops) tail →
      ∃ gaps, gaps.length = (groupFrom context group ops).length ∧
        scriptOf (gap :: gaps) ((groupFrom context group ops).map (changesOf old new)) =
          gap.map .keep ++ (changesOf old new (group ++ ops) ++ tail.map .keep) ∧
        InContext context before (gap :: gaps)
          ((groupFrom context group ops).map (changesOf old new)) := by
  fun_induction groupFrom context group ops with
  | case1 group =>
      -- No operation is left: the group is the last hunk.
      intro before gap tail begun groupable
      rw [List.append_nil] at groupable ⊢
      obtain ⟨alternates, shown, changes, trail⟩ := groupable
      have behind := scriptOf_singleton tail
      rw [asHunk_of_change changes]
      refine ⟨[tail], rfl, ?_, begun.apart, ?_, trivial⟩
      · rw [List.map_singleton, scriptOf, behind, List.append_assoc]
      · refine rightContext_of_begun begun alternates shown changes ?_
        change tailKept group = min context (tailKept group + keptAhead (scriptOf [tail] []))
        rw [behind, keptAhead_all]
        exact trail
  | case2 group op rest long ih =>
      -- A cut: what it leaves out is the next gap, and the next group begins with the rest.
      intro before gap tail begun groupable
      have isEqual := long.1
      have shown := groupable.shown op (List.mem_append_right _ List.mem_cons_self)
      obtain ⟨gaps, lengthEq, scriptEq, inContext⟩ :=
        ih _ _ tail (begun_lastKept isEqual long.2 shown _) (groupable.cut isEqual long.2)
      have single : changesOf old new [firstKept context op] =
          (firstKept context op).changes old new := List.append_nil _
      refine ⟨_ :: gaps, ?_, ?_, begun.apart, ?_, inContext⟩
      · rw [List.length_cons, List.length_cons, lengthEq]
      · rw [List.map_cons, scriptOf, scriptEq, changesOf_append _ _ group,
          changesOf_append _ _ group, changesOf_cons _ _ op rest, changes_cut isEqual long.2,
          single]
        simp only [List.singleton_append, changesOf_cons, List.append_assoc]
      · exact rightContext_firstKept begun groupable isEqual long.2 _
  | case3 group op rest short ih =>
      -- Any other operation joins the group.
      intro before gap tail begun groupable
      have atMost : op.keptCount ≤ 2 * context := by
        unfold Op.keptCount
        split
        · rename_i isEqual
          exact Nat.le_of_not_lt fun long => short ⟨isEqual, long⟩
        · exact Nat.zero_le _
      rw [show group ++ op :: rest = (group ++ [op]) ++ rest by rw [List.append_assoc]; rfl]
        at groupable ⊢
      exact ih before gap tail (begun.append atMost) groupable

/-- What is cut off at both ends goes to the first and to the last gap, and what is left of the
script can be grouped. -/
theorem groupable_trimmed (context : Nat) {ops : List Op} (alternates : Alternates ops)
    (shown : ∀ op, op ∈ ops → op.Shown old new) (changes : ∃ op, op ∈ ops ∧ op.tag ≠ .equal) :
    let trimmed := trimEnd context (trimStart context ops)
    ∃ front tail : List String,
      changesOf old new ops =
        front.map .keep ++ (changesOf old new trimmed ++ tail.map .keep) ∧
      headKept trimmed = min context (front.length + headKept trimmed) ∧
      Groupable old new context trimmed tail := by
  intro trimmed
  have tags : trimmed.map Op.tag = ops.map Op.tag :=
    (tags_trimEnd context _).trans (tags_trimStart context ops)
  -- Whether there is a change depends on the tags alone.
  have hasChange {some : List Op} (same : some.map Op.tag = ops.map Op.tag) :
      ∃ op, op ∈ some ∧ op.tag ≠ .equal := by
    obtain ⟨op, isIn, isChange⟩ := changes
    have tagIn := List.mem_map_of_mem (f := Op.tag) isIn
    rw [← same] at tagIn
    obtain ⟨other, otherIn, sameTag⟩ := List.mem_map.mp tagIn
    exact ⟨other, otherIn, sameTag ▸ isChange⟩
  obtain ⟨front, frontEq, lead⟩ := trimStart_context shown
  obtain ⟨tail, tailEq, trail⟩ := trimEnd_context (shown_trimStart shown)
  rw [← headKept_trimEnd (hasChange (tags_trimStart context ops))] at lead
  refine ⟨front, tail, frontEq.trans (congrArg _ tailEq), lead, ?_,
    shown_trimEnd (shown_trimStart shown), hasChange tags, trail⟩
  unfold Alternates at *
  rw [tags]
  exact alternates

theorem inContext_hunksOf (context : Nat) {ops : List Op} (alternates : Alternates ops)
    (shown : ∀ op, op ∈ ops → op.Shown old new) (changes : ∃ op, op ∈ ops ∧ op.tag ≠ .equal) :
    ∃ gaps, gaps.length = (hunksOf context ops).length + 1 ∧
      scriptOf gaps ((hunksOf context ops).map (changesOf old new)) = changesOf old new ops ∧
      InContext context [] gaps ((hunksOf context ops).map (changesOf old new)) := by
  obtain ⟨front, tail, changesEq, lead, groupable⟩ :=
    groupable_trimmed context alternates shown changes
  rw [changesEq]
  unfold hunksOf
  generalize trimEnd context (trimStart context ops) = trimmed at *
  cases trimmed with
  | nil => exact absurd groupable.changes.choose_spec.1 List.not_mem_nil
  | cons op rest =>
      have atMost : op.keptCount ≤ context := by
        have headEq : headKept (op :: rest) = op.keptCount := rfl
        omega
      have begun : Begun context [] front [op] := by
        refine ⟨List.cons_ne_nil _ _, ?_, ?_, fun impossible => absurd rfl impossible⟩
        · intro other isIn
          rw [List.mem_singleton.mp isIn]
          omega
        · rw [List.nil_append, keptBehind_all]
          exact lead
      have short : ¬(op.tag = .equal ∧ 2 * context < op.oldCount) := by
        rintro ⟨isEqual, long⟩
        rw [Op.keptCount, if_pos isEqual] at atMost
        omega
      obtain ⟨gaps, lengthEq, scriptEq, inContext⟩ :=
        inContext_groupFrom [op] rest [] front tail begun groupable
      rw [groupFrom, if_neg short, List.nil_append]
      refine ⟨front :: gaps, ?_, scriptEq, inContext⟩
      rw [List.length_cons, lengthEq]

end

/-! ### The diff of two texts -/

section

variable {old new : Array String} {anchors : Anchors} {start stop : Tally}

theorem shown_run {ops : List Op} (run : Run (Op.FitsJoined old new anchors) start ops stop)
    (oldWithin : stop.oldPlace ≤ old.size) (newWithin : stop.newPlace ≤ new.size) :
    ∀ op, op ∈ ops → op.Shown old new := by
  induction ops generalizing start with
  | nil => exact fun _ impossible => absurd impossible List.not_mem_nil
  | cons op rest ih =>
      obtain ⟨fits, restRun⟩ := run
      obtain ⟨_, nextPlace⟩ := oldSide_changes fits
      obtain ⟨oldCount, oldStop, _⟩ := oldSide_run restRun
      obtain ⟨newCount, newStop, _⟩ := newSide_run restRun
      intro other isIn
      rcases List.mem_cons.mp isIn with rfl | isIn
      · constructor
        · intro isEqual
          simp only [Op.FitsJoined, Op.Fits, isEqual] at fits
          unfold Op.oldStop
          omega
        · intro _
          have single : changesOf old new [other] ≠ [] :=
            changesOf_ne_nil (List.cons_ne_nil _ _) ⟨fits, rfl⟩ (by omega) (by omega)
          rw [changesOf_cons] at single
          exact fun none => single (List.append_eq_nil_iff.mpr ⟨none, rfl⟩)
      · exact ih restRun other isIn

/-- A script of kept runs only leads from a text to itself. -/
theorem exists_change_of_sides {ops : List Op}
    (differ : oldSide (changesOf old new ops) ≠ newSide (changesOf old new ops)) :
    ∃ op, op ∈ ops ∧ op.tag ≠ .equal := by
  apply Classical.byContradiction
  intro none
  refine differ (List.filterMap_congr fun change isIn => ?_)
  obtain ⟨op, opIn, changeIn⟩ := List.mem_flatMap.mp isIn
  have isEqual : op.tag = .equal :=
    Classical.byContradiction fun isChange => none ⟨op, opIn, isChange⟩
  rw [changes_kept isEqual] at changeIn
  obtain ⟨line, _, rfl⟩ := List.mem_map.mp changeIn
  rfl

end

/-- The hunks that can be read from the diff of two texts stand between gaps of kept lines, and with
these they are all changes from the one text to the other. Every hunk has a change, in front of its
first and behind its last change the lines of context that there are, up to three, and between two
changes no more than six kept lines in a row; and between two hunks at least one line is left out.
There are none exactly if the texts are equal. -/
theorem hunks_in_context (oldPath old newPath new : String) :
    ∃ (hunks : List HunkText) (gaps : List (List String)),
      ShowsHunks oldPath newPath (unified oldPath old newPath new) hunks ∧
      (hunks = [] ↔ old = new) ∧ gaps.length = hunks.length + 1 ∧
      oldSide (scriptOf gaps (hunks.map HunkText.changes)) = (linesOf old).toList ∧
      newSide (scriptOf gaps (hunks.map HunkText.changes)) = (linesOf new).toList ∧
      InContext contextLines [] gaps (hunks.map HunkText.changes) := by
  have isNone : (textHunks old new).map (hunkText (linesOf old) (linesOf new)) = [] ↔ old = new :=
    List.map_eq_nil_iff.trans (textHunks_eq_nil_iff old new)
  have changesEq : ((textHunks old new).map (hunkText (linesOf old) (linesOf new))).map
      HunkText.changes = (textHunks old new).map (changesOf (linesOf old) (linesOf new)) :=
    map_hunkText_changes old new id
  refine ⟨(textHunks old new).map (hunkText (linesOf old) (linesOf new)), ?_⟩
  rw [changesEq]
  by_cases same : old = new
  · subst same
    have none := (textHunks_eq_nil_iff old old).mpr rfl
    refine ⟨[(linesOf old).toList], showsHunks_unified .., isNone, ?_⟩
    rw [none]
    refine ⟨rfl, ?_, ?_, trivial⟩
    · rw [List.map_nil, scriptOf_singleton, oldSide_keep]
    · rw [List.map_nil, scriptOf_singleton, newSide_keep]
  · obtain ⟨oldLines, newLines⟩ := sides_lineOps (linesOf old) (linesOf new)
    obtain ⟨stop, oldAll, newAll, run⟩ := run_lineOps (linesOf old) (linesOf new)
    have differ : oldSide (textChanges old new) ≠ newSide (textChanges old new) := by
      unfold textChanges
      rw [oldLines, newLines]
      exact fun sameLines => same (linesOf_inj.mp (Array.toList_inj.mp sameLines))
    obtain ⟨gaps, lengthEq, scriptEq, inContext⟩ := inContext_hunksOf contextLines
      (alternates_join _) (shown_run run (Nat.le_of_eq oldAll) (Nat.le_of_eq newAll))
      (exists_change_of_sides differ)
    refine ⟨gaps, showsHunks_unified .., isNone, ?_, ?_, ?_, inContext⟩
    · rw [List.length_map]
      exact lengthEq
    · exact (congrArg oldSide scriptEq).trans oldLines
    · exact (congrArg newSide scriptEq).trans newLines

end Codemod.Diff
