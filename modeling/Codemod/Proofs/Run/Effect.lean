import Codemod.Proofs.Files.Place
import Codemod.Proofs.Files.Walk
import Codemod.Proofs.Patch.Build
import Codemod.Run.Basic

/-!
A run changes its output and nothing else, or nothing at all.

Files are found and taken up without a change to any of them, so what a run does to the files is what
replacing its output does. The report is read off the outcome that the text of the output comes from.
-/

set_option autoImplicit false

namespace Codemod

open Codemod.Diff (Stats)
open Codemod.Files (FileTree Host Path discover discoverOn discover_of_discoverOn)
open Codemod.Files.FileTree (DiffersAt Obstacle)

/-- Why a run fails: no files can be looked for, be it that the system refuses, a file fails, the first
one to do so, where that ends the run, or there is an obstacle to the output. -/
def RunError.Cause (host : Host) (tree : FileTree) (config : RunConfig) : RunError → Prop
  | walk cause => discoverOn host tree config.root config.pattern = .error cause
  | process cause =>
      config.policy = .abort ∧ ∃ paths more, discover tree config.root config.pattern = .ok paths ∧
        failures tree config.pipeline paths = cause :: more
  | patch cause => cause.path = config.output ∧ Obstacle host tree config.output cause.cause

section

variable (host : Host) (tree : FileTree) (config : RunConfig)

theorem collect_cases :
    (∃ error, collect host tree config = .error error ∧ error.Cause host tree config) ∨
      ∃ paths, discover tree config.root config.pattern = .ok paths ∧
        collect host tree config = .ok (outcomeOf tree config.pipeline paths) ∧
        (config.policy = .abort → failures tree config.pipeline paths = []) := by
  unfold collect
  cases shown : discoverOn host tree config.root config.pattern with
  | error cause => exact Or.inl ⟨.walk cause, rfl, shown⟩
  | ok paths =>
      have found := discover_of_discoverOn shown
      cases policy : config.policy with
      | keepGoing =>
          simp only [buildPatch_keepGoing]
          exact Or.inr ⟨paths, found, rfl, nofun⟩
      | abort =>
          simp only [buildPatch_abort]
          cases failed : failures tree config.pipeline paths with
          | nil => exact Or.inr ⟨paths, found, rfl, fun _ => failed⟩
          | cons first more =>
              exact Or.inl ⟨.process first, rfl, policy, paths, more, found, failed⟩

theorem writeOn_cases (patch : Patch) (path : Path) :
    (∃ location after, patch.writeOn host tree path = (.ok (), after) ∧
        tree.Names path location ∧ DiffersAt tree location patch.text.toUTF8 after ∧
        ((∀ target, tree.contentAt? location ≠ some (.link target)) →
          after.readText path = .ok patch.text)) ∨
      ∃ cause, patch.writeOn host tree path = (.error ⟨path, cause⟩, tree) ∧
        Obstacle host tree path cause := by
  unfold Patch.writeOn
  rcases FileTree.replaceText_cases host tree path patch.text with
    ⟨location, after, succeeded, placed⟩ | ⟨cause, failed, obstacle⟩
  · rw [succeeded]
    exact Or.inl ⟨location, after, rfl, placed⟩
  · rw [failed]
    exact Or.inr ⟨cause, rfl, obstacle⟩

/-- If a run fails, there is a cause and the files are as they were, without a trace of a new file. If
it succeeds, nothing shows a difference but the place that the output names. It holds the diffs of the
files that did not fail, one after the other in the order in which the files were found, and can be
read there unless the place had a link. The report counts those diffs, and those that are not empty,
adds up their changes, and has the failures of the other files. -/
theorem run_all_or_nothing :
    (∀ error after, runOn host tree config = (.error error, after) →
      after = tree ∧ error.Cause host tree config) ∧
    ∀ report after, runOn host tree config = (.ok report, after) →
      ∃ paths location, discover tree config.root config.pattern = .ok paths ∧
        (config.policy = .abort → report.failures = []) ∧
        let diffs := paths.filterMap fun path => (processFile tree path config.pipeline).toOption
        let text := String.join (diffs.map FileDiff.text)
        (tree.Names config.output location ∧ DiffersAt tree location text.toUTF8 after ∧
          ((∀ target, tree.contentAt? location ≠ some (.link target)) →
            after.readText config.output = .ok text)) ∧
        report.output = config.output ∧ report.processed = diffs.length ∧
        report.changed = (diffs.filter fun diff => !diff.isEmpty).length ∧
        (report.stats = Stats.sum ((revisions tree config.pipeline paths).map Revision.stats) ∧
          diffs = (revisions tree config.pipeline paths).map Revision.diff) ∧
        report.failures =
          paths.filterMap fun path => failure? (processFile tree path config.pipeline) := by
  unfold runOn
  rcases collect_cases host tree config with
    ⟨error, failed, cause⟩ | ⟨paths, found, collected, noFailure⟩
  · rw [failed]
    constructor
    · rintro _ _ ⟨rfl, rfl⟩
      exact ⟨rfl, cause⟩
    · intro _ _ succeeded
      cases succeeded
  · rw [collected]
    have isText : (outcomeOf tree config.pipeline paths).patch.text = String.join
        ((paths.filterMap fun path => (processFile tree path config.pipeline).toOption).map
          FileDiff.text) := by
      rw [Patch.text, diffs_outcomeOf]
    rcases writeOn_cases host tree (outcomeOf tree config.pipeline paths).patch config.output with
      ⟨location, after, written, placed⟩ | ⟨cause, failed, obstacle⟩
    · rw [isText] at placed
      simp only [written]
      constructor
      · intro _ _ failed
        cases failed
      · rintro _ _ ⟨rfl, rfl⟩
        refine ⟨paths, location, found, noFailure, placed, rfl, ?_, ?_, ⟨stats_outcomeOf .., ?_⟩, ?_⟩
        · rw [BuildOutcome.report, Patch.size, diffs_outcomeOf]
        · rw [BuildOutcome.report, Patch.changed, diffs_outcomeOf, List.length_map]
        · rw [diffs_revisions]
        · rw [← failures_eq]
          rfl
    · simp only [failed]
      constructor
      · rintro _ _ ⟨rfl, rfl⟩
        exact ⟨rfl, rfl, obstacle⟩
      · intro _ _ succeeded
        cases succeeded

end

end Codemod
