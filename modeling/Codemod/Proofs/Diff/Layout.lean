import Codemod.Proofs.Diff.Hunk

/-!
How the hunks of two texts lie in them.

The lines of either text are the gaps between the hunks, which are the same in both, with the lines
of the hunks between them. There are no hunks exactly if the lines of the two texts are the same.
-/

set_option autoImplicit false

namespace Codemod.Diff

/-! ### The same lines twice -/

theorem commonFront_self {α : Type} [BEq α] [LawfulBEq α] (lines : Array α) (start limit : Nat) :
    commonFront lines lines start start limit = limit := by
  induction limit generalizing start with
  | zero => rfl
  | succ limit ih => rw [commonFront, if_pos (beq_self_eq_true _), ih]

theorem script_self {α : Type} [BEq α] [LawfulBEq α] (lines : Array α) :
    script lines lines = equalRun 0 0 lines.size := by
  let whole : Window := ⟨0, lines.size, 0, lines.size⟩
  have front : whole.frontCount lines lines = lines.size := by
    unfold Window.frontCount
    rw [commonFront_self]
    exact Nat.min_self _
  have back : whole.backCount lines lines = 0 := by
    unfold Window.backCount
    rw [front]
    simp only [whole, Nat.zero_add, Nat.sub_self, Nat.min_self, commonBack]
  have inner : whole.inner lines lines = ⟨lines.size, lines.size, lines.size, lines.size⟩ := by
    unfold Window.inner
    rw [front, back]
    simp only [whole, Nat.zero_add, Nat.sub_zero]
  unfold script
  rw [scriptWithin_eq]
  change equalRun 0 0 (whole.frontCount lines lines) ++
    middleScript lines lines _ (whole.inner lines lines) ++ equalRun _ _ (whole.backCount _ _) = _
  rw [front, back, inner]
  simp only [middleScript, Window.oldCount, Window.newCount, Nat.sub_self, and_self, if_true,
    equalRun, List.append_nil]

theorem settleTag_other {α : Type} [BEq α] (old new : Array α) (tag : Tag) (bound : Nat)
    (before after : List Op) (other : ∀ op, op ∈ after → op.tag ≠ tag) :
    settleTag old new tag bound before after = before.reverse ++ after := by
  fun_induction settleTag old new tag bound before after with
  | case1 before after => rfl
  | case2 bound before => rw [List.append_nil]
  | case3 bound before op after isTag => exact absurd isTag (other op List.mem_cons_self)
  | case4 bound before op after notTag ih =>
      rw [ih fun op' isIn => other op' (List.mem_cons_of_mem _ isIn), List.reverse_cons,
        List.append_assoc]
      rfl

theorem lineOps_self (lines : Array String) : lineOps lines lines = equalRun 0 0 lines.size := by
  have kept (op : Op) (isIn : op ∈ equalRun 0 0 lines.size) : op.tag = .equal := by
    unfold equalRun at isIn
    split at isIn
    · exact absurd isIn List.not_mem_nil
    · rw [List.mem_singleton.mp isIn]
      rfl
  have apart (tag : Tag) (moves : tag.Moves) (op : Op) (isIn : op ∈ equalRun 0 0 lines.size) :
      op.tag ≠ tag := by
    rw [kept op isIn]
    rcases moves with rfl | rfl <;> exact nofun
  unfold lineOps settle
  rw [script_self]
  simp only
  rw [settleTag_other _ _ _ _ _ _ (apart .delete (Or.inr rfl)), List.reverse_nil, List.nil_append,
    settleTag_other _ _ _ _ _ _ (apart .insert (Or.inl rfl)), List.reverse_nil, List.nil_append]
  unfold equalRun
  split <;> rfl

theorem hunksOf_self (context : Nat) (lines : Array String) :
    hunksOf context (lineOps lines lines) = [] := by
  rw [lineOps_self]
  unfold equalRun
  split
  · rfl
  · have short : ¬ 2 * context <
        (firstKept context (lastKept context (.equal 0 0 lines.size))).oldCount := by
      simp only [firstKept, lastKept, Op.shrinkLeft, Op.shrinkRight, Op.shiftRight]
      omega
    change groupFrom context [] [firstKept context (lastKept context (.equal 0 0 lines.size))] = []
    rw [groupFrom, if_neg fun long => short long.2]
    rfl

/-! ### Gaps -/

/-- The lines of a text, from the gaps and what lies between them. There is one gap more than there
are sides. -/
def weave : (gaps sides : List (List String)) → List String
  | gap :: gaps, side :: sides => gap ++ side ++ weave gaps sides
  | gaps, [] => gaps.flatten
  | [], sides => sides.flatten

section

variable (old new : Array String)

/-- Lines that lead from one tally to another and are kept. -/
def Gap (start : Tally) (gap : List String) (stop : Tally) : Prop :=
  stop = ⟨start.kept + gap.length, start.deleted, start.inserted⟩ ∧
    gap = slice old start.oldPlace gap.length ∧ gap = slice new start.newPlace gap.length

/-- Hunks with the gaps before, between and behind them. -/
inductive Laid (anchors : Anchors) : Tally → List (List String) → List Hunk → Tally → Prop
  | last {start stop : Tally} {gap : List String} : Gap old new start gap stop →
      Laid anchors start [gap] [] stop
  | hunk {start before behind stop : Tally} {gap : List String} {gaps : List (List String)}
      {hunk : Hunk} {hunks : List Hunk} : Gap old new start gap before →
      Run (Op.FitsJoined old new anchors) before hunk behind →
      Laid anchors behind gaps hunks stop → Laid anchors start (gap :: gaps) (hunk :: hunks) stop

end

section

variable {old new : Array String} {anchors : Anchors} {start stop : Tally}

theorem length_slice {lines : Array String} {from' count : Nat}
    (within : from' + count ≤ lines.size) : (slice lines from' count).length = count := by
  rw [slice_eq, List.length_take, List.length_drop, Array.length_toList]
  omega

theorem slice_all (lines : Array String) : slice lines 0 lines.size = lines.toList := by
  rw [slice_eq, List.drop_zero, ← Array.length_toList, List.take_length]

theorem gap_of_skips (skips : Skips old new start stop) (within : stop.oldPlace ≤ old.size) :
    ∃ gap, Gap old new start gap stop := by
  obtain ⟨count, rfl, agree⟩ := skips
  simp only [Tally.oldPlace] at within
  have length : (slice old start.oldPlace count).length = count :=
    length_slice (by unfold Tally.oldPlace; omega)
  refine ⟨slice old start.oldPlace count, ?_⟩
  unfold Gap
  rw [length]
  exact ⟨rfl, rfl, slice_of_agree agree⟩

theorem hunksRun_le {hunks : List Hunk} (runs : HunksRun old new anchors start hunks stop) :
    start.oldPlace ≤ stop.oldPlace := by
  have skip_le {start stop : Tally} (skips : Skips old new start stop) :
      start.oldPlace ≤ stop.oldPlace := by
    obtain ⟨count, rfl, _⟩ := skips
    exact Nat.add_le_add_right (Nat.le_add_right ..) _
  induction hunks generalizing start with
  | nil => exact skip_le runs
  | cons hunk rest ih =>
      obtain ⟨before, behind, skips, hunkRun, restRuns⟩ := runs
      obtain ⟨count, behindPlace, _⟩ := oldSide_run hunkRun
      have beforeLe := skip_le skips
      have behindLe := ih restRuns
      omega

theorem laid_of_hunksRun {hunks : List Hunk} (runs : HunksRun old new anchors start hunks stop)
    (within : stop.oldPlace ≤ old.size) : ∃ gaps, Laid old new anchors start gaps hunks stop := by
  induction hunks generalizing start with
  | nil =>
      obtain ⟨gap, isGap⟩ := gap_of_skips runs within
      exact ⟨[gap], .last isGap⟩
  | cons hunk rest ih =>
      obtain ⟨before, behind, skips, hunkRun, restRuns⟩ := runs
      obtain ⟨count, behindPlace, _⟩ := oldSide_run hunkRun
      have behindLe := hunksRun_le restRuns
      obtain ⟨gap, isGap⟩ := gap_of_skips skips (by omega)
      obtain ⟨gaps, laid⟩ := ih restRuns
      exact ⟨gap :: gaps, .hunk isGap hunkRun laid⟩

theorem length_of_laid {gaps : List (List String)} {hunks : List Hunk}
    (laid : Laid old new anchors start gaps hunks stop) : gaps.length = hunks.length + 1 := by
  induction laid with
  | last => rfl
  | hunk _ _ _ ih => rw [List.length_cons, List.length_cons, ih]

/-- The lines of a side between two tallies are the gaps with what the hunks show. -/
theorem Side.weave_shows (side : Side old new anchors)
    (gapLines : ∀ {start stop : Tally} {gap : List String}, Gap old new start gap stop →
      gap = slice side.lines (side.place start) gap.length)
    {gaps : List (List String)} {hunks : List Hunk}
    (laid : Laid old new anchors start gaps hunks stop) :
    ∃ count, side.place stop = side.place start + count ∧
      slice side.lines (side.place start) count =
        weave gaps (hunks.map fun hunk => (changesOf old new hunk).filterMap side.line?) := by
  induction laid with
  | last isGap =>
      have lines := gapLines isGap
      obtain ⟨rfl, _, _⟩ := isGap
      refine ⟨_, side.place_kept .., lines.symm.trans ?_⟩
      exact (List.append_nil _).symm
  | @hunk start before behind stop gap gaps hunk hunks isGap hunkRun _ ih =>
      have lines := gapLines isGap
      obtain ⟨rfl, _, _⟩ := isGap
      obtain ⟨hunkCount, behindPlace, hunkLines⟩ := side.shows_run hunkRun
      obtain ⟨restCount, stopPlace, restLines⟩ := ih
      rw [side.place_kept] at behindPlace hunkLines
      rw [behindPlace] at stopPlace restLines
      refine ⟨gap.length + hunkCount + restCount, by omega, ?_⟩
      rw [slice_add, slice_add, ← lines, ← hunkLines, ← Nat.add_assoc, restLines]
      rfl

theorem weave_oldSide {gaps : List (List String)} {hunks : List Hunk}
    (laid : Laid old new anchors start gaps hunks stop) :
    ∃ count, stop.oldPlace = start.oldPlace + count ∧
      slice old start.oldPlace count =
        weave gaps (hunks.map fun hunk => oldSide (changesOf old new hunk)) :=
  (Side.ofOld old new anchors).weave_shows (fun isGap => isGap.2.1) laid

theorem weave_newSide {gaps : List (List String)} {hunks : List Hunk}
    (laid : Laid old new anchors start gaps hunks stop) :
    ∃ count, stop.newPlace = start.newPlace + count ∧
      slice new start.newPlace count =
        weave gaps (hunks.map fun hunk => newSide (changesOf old new hunk)) :=
  (Side.ofNew old new anchors).weave_shows (fun isGap => isGap.2.2) laid

end

theorem laid_hunksOf {context : Nat} (some : 0 < context) (old new : Array String) :
    ∃ gaps stop, stop.oldPlace = old.size ∧ stop.newPlace = new.size ∧
      Laid old new (anchorsOf (script old new)) Tally.zero gaps
        (hunksOf context (lineOps old new)) stop := by
  obtain ⟨stop, oldAll, newAll, run⟩ := run_lineOps old new
  obtain ⟨gaps, laid⟩ := laid_of_hunksRun (hunksRun_hunksOf some run) (Nat.le_of_eq oldAll)
  exact ⟨gaps, stop, oldAll, newAll, laid⟩

/-- From the start to the end of both texts, the gaps and the sides of the hunks are all lines. -/
theorem toList_eq_weave {old new : Array String} {anchors : Anchors} {gaps : List (List String)}
    {hunks : List Hunk} {stop : Tally} (oldAll : stop.oldPlace = old.size)
    (newAll : stop.newPlace = new.size) (laid : Laid old new anchors Tally.zero gaps hunks stop) :
    old.toList = weave gaps (hunks.map fun hunk => oldSide (changesOf old new hunk)) ∧
      new.toList = weave gaps (hunks.map fun hunk => newSide (changesOf old new hunk)) := by
  have zeroOld : Tally.zero.oldPlace = 0 := rfl
  have zeroNew : Tally.zero.newPlace = 0 := rfl
  obtain ⟨oldCount, oldStop, oldLines⟩ := weave_oldSide laid
  obtain ⟨newCount, newStop, newLines⟩ := weave_newSide laid
  rw [zeroOld, oldAll, Nat.zero_add] at oldStop
  rw [zeroNew, newAll, Nat.zero_add] at newStop
  rw [← oldLines, ← newLines, ← oldStop, ← newStop, zeroOld, zeroNew, slice_all, slice_all]
  exact ⟨rfl, rfl⟩

theorem hunksOf_lineOps_eq_nil_iff {context : Nat} (some : 0 < context) (old new : Array String) :
    hunksOf context (lineOps old new) = [] ↔ old = new := by
  constructor
  · intro none
    obtain ⟨gaps, stop, oldAll, newAll, laid⟩ := laid_hunksOf some old new
    obtain ⟨oldLines, newLines⟩ := toList_eq_weave oldAll newAll laid
    rw [none] at oldLines newLines
    exact Array.toList_inj.mp (oldLines.trans newLines.symm)
  · rintro rfl
    exact hunksOf_self context old

/-! ### Hunks are not empty -/

theorem ne_nil_of_mem_groupFrom (context : Nat) (group ops : List Op) :
    ∀ hunk, hunk ∈ groupFrom context group ops → hunk ≠ [] := by
  fun_induction groupFrom context group ops with
  | case1 group =>
      intro hunk isIn
      unfold asHunk at isIn
      split at isIn
      · exact absurd isIn List.not_mem_nil
      · split at isIn
        · exact absurd isIn List.not_mem_nil
        · rw [List.mem_singleton.mp isIn]
          exact List.cons_ne_nil _ _
      · rename_i nonempty _
        rw [List.mem_singleton.mp isIn]
        exact nonempty
  | case2 group op rest long ih =>
      intro hunk isIn
      rcases List.mem_cons.mp isIn with rfl | isIn
      · exact List.append_ne_nil_of_right_ne_nil _ (List.cons_ne_nil _ _)
      · exact ih hunk isIn
  | case3 group op rest short ih => exact ih

section

variable {old new : Array String} {anchors : Anchors} {start stop : Tally}

theorem run_lt {op : Op} {rest : List Op}
    (run : Run (Op.FitsJoined old new anchors) start (op :: rest) stop) :
    start.oldPlace < stop.oldPlace ∨ start.newPlace < stop.newPlace := by
  obtain ⟨fits, restRun⟩ := run
  obtain ⟨_, oldNext⟩ := oldSide_changes fits
  obtain ⟨_, newNext⟩ := newSide_changes fits
  obtain ⟨oldCount, oldStop, _⟩ := oldSide_run restRun
  obtain ⟨newCount, newStop, _⟩ := newSide_run restRun
  have opSome : 0 < op.oldCount ∨ 0 < op.newCount := by
    cases tagEq : op.tag with
    | equal =>
        simp only [Op.FitsJoined, Op.Fits, tagEq] at fits
        exact Or.inl fits.2.2.1
    | delete =>
        simp only [Op.FitsJoined, Op.Fits, tagEq] at fits
        exact Or.inl fits.2.2.1
    | insert =>
        simp only [Op.FitsJoined, Op.Fits, tagEq] at fits
        exact Or.inr fits.2.2.1
    | replace =>
        simp only [Op.FitsJoined, tagEq] at fits
        exact Or.inl fits.2.2.1
  omega

/-- A run inside both texts has as many lines on either side as it gets on there. -/
theorem length_sides {ops : List Op} (run : Run (Op.FitsJoined old new anchors) start ops stop)
    (oldWithin : stop.oldPlace ≤ old.size) (newWithin : stop.newPlace ≤ new.size) :
    start.oldPlace + (oldSide (changesOf old new ops)).length = stop.oldPlace ∧
      start.newPlace + (newSide (changesOf old new ops)).length = stop.newPlace := by
  obtain ⟨oldCount, oldStop, oldLines⟩ := oldSide_run run
  obtain ⟨newCount, newStop, newLines⟩ := newSide_run run
  rw [oldLines, newLines, length_slice (by omega), length_slice (by omega)]
  exact ⟨oldStop.symm, newStop.symm⟩

theorem changesOf_ne_nil {ops : List Op} (nonempty : ops ≠ [])
    (run : Run (Op.FitsJoined old new anchors) start ops stop)
    (oldWithin : stop.oldPlace ≤ old.size) (newWithin : stop.newPlace ≤ new.size) :
    changesOf old new ops ≠ [] := by
  intro none
  obtain ⟨oldLength, newLength⟩ := length_sides run oldWithin newWithin
  rw [none] at oldLength newLength
  simp only [oldSide, newSide, List.filterMap_nil, List.length_nil, Nat.add_zero]
    at oldLength newLength
  cases ops with
  | nil => exact nonempty rfl
  | cons op rest =>
      have gets := run_lt run
      omega

theorem changesOf_ne_nil_of_laid {gaps : List (List String)} {hunks : List Hunk}
    (nonempty : ∀ hunk, hunk ∈ hunks → hunk ≠ [])
    (laid : Laid old new anchors start gaps hunks stop) (oldWithin : stop.oldPlace ≤ old.size)
    (newWithin : stop.newPlace ≤ new.size) :
    ∀ hunk, hunk ∈ hunks → changesOf old new hunk ≠ [] := by
  induction laid with
  | last => exact fun hunk isIn => absurd isIn List.not_mem_nil
  | hunk _ hunkRun restLaid ih =>
      intro hunk' isIn
      rcases List.mem_cons.mp isIn with rfl | isIn
      · obtain ⟨oldCount, oldStop, _⟩ := weave_oldSide restLaid
        obtain ⟨newCount, newStop, _⟩ := weave_newSide restLaid
        exact changesOf_ne_nil (nonempty _ List.mem_cons_self) hunkRun (by omega) (by omega)
      · exact ih (fun next nextIn => nonempty next (List.mem_cons_of_mem _ nextIn)) oldWithin
          newWithin hunk' isIn

end

theorem hunksOf_nonempty {context : Nat} (some : 0 < context) (old new : Array String) :
    ∀ hunk, hunk ∈ hunksOf context (lineOps old new) → hunk ≠ [] ∧ changesOf old new hunk ≠ [] := by
  intro hunk isIn
  have nonempty := ne_nil_of_mem_groupFrom context [] (trimEnd context (trimStart context
    (lineOps old new)))
  obtain ⟨gaps, stop, oldAll, newAll, laid⟩ := laid_hunksOf some old new
  exact ⟨nonempty hunk isIn, changesOf_ne_nil_of_laid nonempty laid (Nat.le_of_eq oldAll)
    (Nat.le_of_eq newAll) hunk isIn⟩

end Codemod.Diff
