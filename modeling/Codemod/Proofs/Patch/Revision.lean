import Codemod.Patch.Build
import Codemod.Proofs.Tree.Print

/-!
Revisions: the text of a file before and after the rules.

The diff of a file and the count of its changes are those of its revision, and a file fails if and
only if there is no revision of it.
-/

set_option autoImplicit false

namespace Codemod

open Codemod.Diff (Stats)
open Codemod.Files (FileTree Path)
open Codemod.Tree

/-- The two texts of a file that was taken up. -/
structure Revision where
  path : Path
  before : String
  after : String

namespace Revision

def diff (revision : Revision) : FileDiff :=
  ⟨revision.path, revision.path,
    Diff.unified revision.path.display revision.before revision.path.display revision.after⟩

def stats (revision : Revision) : Stats := Diff.stats revision.before revision.after

/-- The text is read as a tree that prints what stands before, and the rules make a tree of it that
prints what stands after. -/
def Rewrites (revision : Revision) (source : String) (pipeline : Pipeline) : Prop :=
  ∃ parsed, parse source = .ok parsed ∧ print parsed = .ok revision.before ∧
    (pipeline.applyAll revision.path parsed).error = none ∧
    print (pipeline.applyAll revision.path parsed).tree = .ok revision.after

end Revision

/-! ### What succeeds -/

section

variable {α β γ ε : Type} (items : List α) (attempt : α → Except ε β)

theorem map_filterMap_toOption (view : β → γ) :
    (items.filterMap fun item => (attempt item).toOption).map view =
      items.filterMap fun item => ((attempt item).map view).toOption := by
  rw [List.map_filterMap]
  refine congrArg (fun choose => items.filterMap choose) (funext fun item => ?_)
  cases attempt item <;> rfl

theorem mem_filterMap_toOption {result : β} :
    (result ∈ items.filterMap fun item => (attempt item).toOption) ↔
      ∃ item, item ∈ items ∧ attempt item = .ok result := by
  rw [List.mem_filterMap]
  refine exists_congr fun item => and_congr_right fun _ => ?_
  cases attempt item with
  | error failure => exact iff_of_false nofun nofun
  | ok found =>
      rw [Except.ok.injEq]
      exact Option.some_inj

end

/-! ### Revisions of files -/

/-- The revision of a file whose text is given. -/
def reviseSource (path : Path) (source : String) (pipeline : Pipeline) :
    Except ProcessError Revision :=
  match transformSource path source pipeline with
  | .error cause => .error ⟨path, cause⟩
  | .ok (before, after) => .ok ⟨path, before, after⟩

def reviseFile (tree : FileTree) (path : Path) (pipeline : Pipeline) :
    Except ProcessError Revision :=
  match tree.readText path with
  | .error cause => .error ⟨path, .read cause⟩
  | .ok source => reviseSource path source pipeline

section

variable (path : Path) (source : String) (tree : FileTree) (pipeline : Pipeline)

theorem diffSource_eq :
    diffSource path source pipeline =
      (reviseSource path source pipeline).map fun revision => (revision.diff, revision.stats) := by
  unfold diffSource reviseSource
  cases transformSource path source pipeline with
  | error cause => rfl
  | ok texts => rfl

theorem diffFile_eq :
    diffFile tree path pipeline =
      (reviseFile tree path pipeline).map fun revision => (revision.diff, revision.stats) := by
  unfold diffFile reviseFile
  cases tree.readText path with
  | error cause => rfl
  | ok source => exact diffSource_eq path source pipeline

theorem processSource_eq :
    processSource path source pipeline = (reviseSource path source pipeline).map Revision.diff := by
  rw [processSource, diffSource_eq]
  cases reviseSource path source pipeline <;> rfl

theorem processFile_eq :
    processFile tree path pipeline = (reviseFile tree path pipeline).map Revision.diff := by
  rw [processFile, diffFile_eq]
  cases reviseFile tree path pipeline <;> rfl

variable {path source tree pipeline} {revision : Revision}

theorem reviseSource_eq_ok_iff :
    reviseSource path source pipeline = .ok revision ↔
      revision.path = path ∧ revision.Rewrites source pipeline := by
  unfold reviseSource transformSource Revision.Rewrites
  constructor
  · intro isOk
    cases isParsed : parse source with
    | error cause =>
        rw [isParsed] at isOk
        exact nomatch isOk
    | ok parsed =>
        simp only [isParsed] at isOk
        cases applied : pipeline.applyAll path parsed with
        | mk changed error? =>
            simp only [applied] at isOk
            cases error? with
            | some cause => exact nomatch isOk
            | none =>
                cases isBefore : print parsed with
                | error cause =>
                    simp only [isBefore] at isOk
                    exact nomatch isOk
                | ok before =>
                    cases isAfter : print changed with
                    | error cause =>
                        simp only [isBefore, isAfter] at isOk
                        exact nomatch isOk
                    | ok after =>
                        simp only [isBefore, isAfter, Except.ok.injEq] at isOk
                        subst isOk
                        refine ⟨rfl, parsed, rfl, isBefore, ?_, ?_⟩
                        · exact congrArg PipelineResult.error applied
                        · rw [applied]
                          exact isAfter
  · rintro ⟨rfl, parsed, isParsed, isBefore, noError, isAfter⟩
    cases applied : pipeline.applyAll revision.path parsed with
    | mk changed error? =>
        rw [applied] at noError isAfter
        simp only at noError isAfter
        subst noError
        simp only [isParsed, applied, isBefore, isAfter]

theorem reviseFile_eq_ok_iff :
    reviseFile tree path pipeline = .ok revision ↔
      ∃ source, tree.readText path = .ok source ∧ revision.path = path ∧
        revision.Rewrites source pipeline := by
  unfold reviseFile
  cases tree.readText path with
  | error cause => exact iff_of_false nofun nofun
  | ok source =>
      rw [reviseSource_eq_ok_iff]
      constructor
      · intro revised
        exact ⟨source, rfl, revised⟩
      · rintro ⟨_, ⟨rfl⟩, revised⟩
        exact revised

/-- What stands before is the text itself, provided that its leaves start and end at boundaries. -/
theorem before_of_rewrites (rewrites : revision.Rewrites source pipeline)
    (onBoundaries : ∀ cst, concreteTree? source = some cst → OnBoundaries source cst) :
    revision.before = source := by
  obtain ⟨parsed, isParsed, isBefore, _⟩ := rewrites
  obtain ⟨cst, isTree, rfl⟩ := (parse_eq_ok_iff source parsed).mp isParsed
  rw [(print_eq_ok_iff.mp isBefore).2.2]
  exact toSource_convert (onBoundaries cst isTree)

end

end Codemod
