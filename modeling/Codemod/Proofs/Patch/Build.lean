import Codemod.Proofs.Patch.Revision

/-!
The two policies agree, and files do not depend on one another.

What becomes of a list of files is decided file by file: those with a revision are in the patch and in
the counts, the others among the failures, both in the order of the list. Aborting only looks at
whether there is a failure, and reports the first.
-/

set_option autoImplicit false

namespace Codemod

open Codemod.Diff (Stats)
open Codemod.Files (FileTree Path)
open Codemod.Tree

/-! ### Adding up -/

namespace Diff.Stats

/-- All differences taken together. -/
def sum (all : List Stats) : Stats := all.foldr add zero

theorem add_zero (stats : Stats) : stats.add zero = stats := rfl

theorem zero_add (stats : Stats) : zero.add stats = stats := by
  simp only [add, zero, Nat.zero_add]

theorem add_assoc (left middle right : Stats) :
    (left.add middle).add right = left.add (middle.add right) := by
  simp only [add, Nat.add_assoc]

end Diff.Stats

/-! ### File by file -/

/-- The failure of a file, if it fails. -/
def failure? {α : Type} : Except ProcessError α → Option ProcessError
  | .error failure => some failure
  | .ok _ => none

section

variable (tree : FileTree) (pipeline : Pipeline) (paths : List Path)

def revisions : List Revision :=
  paths.filterMap fun path => (reviseFile tree path pipeline).toOption

def failures : List ProcessError :=
  paths.filterMap fun path => failure? (reviseFile tree path pipeline)

theorem revisions_cons (path : Path) :
    revisions tree pipeline (path :: paths) =
      match reviseFile tree path pipeline with
      | .ok revision => revision :: revisions tree pipeline paths
      | .error _ => revisions tree pipeline paths := by
  rw [revisions, List.filterMap_cons]
  cases reviseFile tree path pipeline <;> rfl

theorem failures_cons (path : Path) :
    failures tree pipeline (path :: paths) =
      match reviseFile tree path pipeline with
      | .ok _ => failures tree pipeline paths
      | .error failure => failure :: failures tree pipeline paths := by
  rw [failures, List.filterMap_cons]
  cases reviseFile tree path pipeline <;> rfl

theorem diffs_revisions :
    (revisions tree pipeline paths).map Revision.diff =
      paths.filterMap fun path => (processFile tree path pipeline).toOption := by
  simp only [processFile_eq]
  exact map_filterMap_toOption ..

theorem failures_eq :
    failures tree pipeline paths =
      paths.filterMap fun path => failure? (processFile tree path pipeline) := by
  refine congrArg (fun choose => paths.filterMap choose) (funext fun path => ?_)
  rw [processFile_eq]
  cases reviseFile tree path pipeline <;> rfl

theorem length_revisions_add_length_failures :
    (revisions tree pipeline paths).length + (failures tree pipeline paths).length =
      paths.length := by
  induction paths with
  | nil => rfl
  | cons path rest ih =>
      rw [revisions_cons, failures_cons, List.length_cons, ← ih]
      cases reviseFile tree path pipeline with
      | ok revision => exact Nat.add_right_comm ..
      | error failure => exact (Nat.add_assoc ..).symm

/-! ### The loop -/

namespace BuildOutcome

/-- What is found out about more files, added to an outcome. -/
def extend (outcome : BuildOutcome) (revised : List Revision) (failed : List ProcessError) :
    BuildOutcome :=
  ⟨⟨outcome.patch.diffs ++ revised.map Revision.diff⟩,
    outcome.stats.add (Stats.sum (revised.map Revision.stats)), outcome.failures ++ failed⟩

variable (outcome : BuildOutcome) (revised : List Revision) (failed : List ProcessError)

theorem extend_nil : outcome.extend [] [] = outcome := by
  simp only [extend, List.map_nil, List.append_nil, Stats.sum, List.foldr_nil, Stats.add_zero]

theorem extend_record (revision : Revision) :
    (outcome.record revision.diff revision.stats).extend revised failed =
      outcome.extend (revision :: revised) failed := by
  simp only [extend, record, Patch.add, List.map_cons, List.append_assoc, List.singleton_append,
    Stats.sum, List.foldr_cons, Stats.add_assoc]

theorem extend_skip (failure : ProcessError) :
    (outcome.skip failure).extend revised failed = outcome.extend revised (failure :: failed) := by
  simp only [extend, skip, List.append_assoc, List.singleton_append]

end BuildOutcome

variable (policy : FailurePolicy) (outcome : BuildOutcome)

theorem buildFrom_cons (path : Path) :
    buildFrom tree pipeline policy outcome (path :: paths) =
      match reviseFile tree path pipeline, policy with
      | .ok revision, _ =>
          buildFrom tree pipeline policy (outcome.record revision.diff revision.stats) paths
      | .error failure, .abort => .error failure
      | .error failure, .keepGoing =>
          buildFrom tree pipeline policy (outcome.skip failure) paths := by
  rw [buildFrom, diffFile_eq]
  cases reviseFile tree path pipeline with
  | ok revision => rfl
  | error failure => cases policy <;> rfl

theorem buildFrom_keepGoing :
    buildFrom tree pipeline .keepGoing outcome paths =
      .ok (outcome.extend (revisions tree pipeline paths) (failures tree pipeline paths)) := by
  induction paths generalizing outcome with
  | nil => exact congrArg Except.ok outcome.extend_nil.symm
  | cons path rest ih =>
      rw [buildFrom_cons, revisions_cons, failures_cons]
      cases reviseFile tree path pipeline with
      | ok revision =>
          refine (ih _).trans (congrArg Except.ok ?_)
          exact outcome.extend_record _ _ revision
      | error failure =>
          refine (ih _).trans (congrArg Except.ok ?_)
          exact outcome.extend_skip _ _ failure

theorem buildFrom_abort :
    buildFrom tree pipeline .abort outcome paths =
      match failures tree pipeline paths with
      | [] => .ok (outcome.extend (revisions tree pipeline paths) [])
      | first :: _ => .error first := by
  induction paths generalizing outcome with
  | nil => exact congrArg Except.ok outcome.extend_nil.symm
  | cons path rest ih =>
      rw [buildFrom_cons, revisions_cons, failures_cons]
      cases reviseFile tree path pipeline with
      | ok revision =>
          refine (ih _).trans ?_
          rw [outcome.extend_record _ _ revision]
      | error failure => rfl

/-- What is found out about files, whatever the policy. -/
def outcomeOf : BuildOutcome :=
  BuildOutcome.empty.extend (revisions tree pipeline paths) (failures tree pipeline paths)

theorem diffs_outcomeOf :
    (outcomeOf tree pipeline paths).patch.diffs =
      paths.filterMap fun path => (processFile tree path pipeline).toOption := by
  rw [← diffs_revisions]
  rfl

theorem failures_outcomeOf :
    (outcomeOf tree pipeline paths).failures = failures tree pipeline paths := rfl

theorem stats_outcomeOf :
    (outcomeOf tree pipeline paths).stats =
      Stats.sum ((revisions tree pipeline paths).map Revision.stats) :=
  Stats.zero_add _

theorem buildPatch_keepGoing :
    buildPatch tree paths pipeline .keepGoing = .ok (outcomeOf tree pipeline paths) :=
  buildFrom_keepGoing ..

theorem buildPatch_abort :
    buildPatch tree paths pipeline .abort =
      match failures tree pipeline paths with
      | [] => .ok (outcomeOf tree pipeline paths)
      | first :: _ => .error first := by
  rw [buildPatch, buildFrom_abort, outcomeOf]
  cases failures tree pipeline paths <;> rfl

theorem processFile_congr {other : FileTree} {path : Path}
    (sameText : other.readText path = tree.readText path) :
    processFile other path pipeline = processFile tree path pipeline := by
  rw [processFile_eq, processFile_eq, reviseFile, reviseFile, sameText]

/-- If failures are passed over, there is always an outcome. Every file is in it once, with its diff or
with its failure, in the order of the files, and as it is processed by itself, for which nothing but
its own text matters. The counts are those of the revisions: what the tree that is read prints, which is
the text of the file if its leaves start and end at boundaries, against what the tree prints that the
rules make of it. If the first failure ends everything, the outcome is the same where there is no
failure, and otherwise the first failure is all there is. -/
theorem policies_agree :
    ∃ outcome, buildPatch tree paths pipeline .keepGoing = .ok outcome ∧
      (outcome.patch.diffs =
          paths.filterMap (fun path => (processFile tree path pipeline).toOption) ∧
        outcome.failures =
          paths.filterMap (fun path => failure? (processFile tree path pipeline)) ∧
        outcome.patch.size + outcome.failures.length = paths.length) ∧
      (∀ (other : FileTree) (path : Path), other.readText path = tree.readText path →
        processFile other path pipeline = processFile tree path pipeline) ∧
      (outcome.stats = Stats.sum ((revisions tree pipeline paths).map Revision.stats) ∧
        outcome.patch.diffs = (revisions tree pipeline paths).map Revision.diff ∧
        ∀ revision, revision ∈ revisions tree pipeline paths →
          revision.path ∈ paths ∧ ∃ source, tree.readText revision.path = .ok source ∧
            revision.Rewrites source pipeline ∧
            ((∀ cst, concreteTree? source = some cst → OnBoundaries source cst) →
              revision.before = source)) ∧
      buildPatch tree paths pipeline .abort =
        match outcome.failures with
        | [] => .ok outcome
        | first :: _ => .error first := by
  refine ⟨outcomeOf tree pipeline paths, buildPatch_keepGoing .., ⟨diffs_outcomeOf .., ?_, ?_⟩,
    fun _ _ sameText => processFile_congr tree pipeline sameText, ⟨stats_outcomeOf .., ?_, ?_⟩,
    buildPatch_abort ..⟩
  · rw [failures_outcomeOf, failures_eq]
  · rw [Patch.size, diffs_outcomeOf, ← diffs_revisions, List.length_map]
    exact length_revisions_add_length_failures ..
  · rw [diffs_outcomeOf, diffs_revisions]
  · intro revision isIn
    obtain ⟨path, isPath, revised⟩ := (mem_filterMap_toOption ..).mp isIn
    obtain ⟨source, isText, rfl, rewrites⟩ := reviseFile_eq_ok_iff.mp revised
    exact ⟨isPath, source, isText, rewrites, before_of_rewrites rewrites⟩

end

end Codemod
