import Codemod.Files.Walk
import Codemod.Patch.Build

/-!
Runs: the source files below a root are found and taken up, and their patch is put into a file.
A run that fails leaves all files as they are.
-/

set_option autoImplicit false

namespace Codemod

open Codemod.Diff (Stats)
open Codemod.Files (FileTree Host Path WalkError)

structure RunConfig where
  root : Path
  /-- The pattern of file names. -/
  pattern : String
  /-- Where the patch goes. -/
  output : Path
  pipeline : Pipeline
  policy : FailurePolicy

def defaultRoot : String := "."

def defaultPattern : String := "*.rs"

def defaultOutput : String := "output.patch"

def RunConfig.ofPipeline (pipeline : Pipeline) : RunConfig :=
  ⟨.ofText defaultRoot, defaultPattern, .ofText defaultOutput, pipeline, .abort⟩

inductive RunError where
  | walk (cause : WalkError)
  | process (cause : ProcessError)
  | patch (cause : PatchError)

def RunError.message : RunError → String
  | walk cause => cause.message
  | process cause => cause.message
  | patch cause => cause.message

structure RunReport where
  output : Path
  /-- The number of files in the patch, with or without changes. -/
  processed : Nat
  changed : Nat
  stats : Stats
  failures : List ProcessError

def RunReport.isSuccess (report : RunReport) : Bool := report.failures.isEmpty

def BuildOutcome.report (outcome : BuildOutcome) (output : Path) : RunReport :=
  ⟨output, outcome.patch.size, outcome.patch.changed.length, outcome.stats, outcome.failures⟩

def collect (host : Host) (tree : FileTree) (config : RunConfig) :
    Except RunError BuildOutcome :=
  match Files.discoverOn host tree config.root config.pattern with
  | .error cause => .error (.walk cause)
  | .ok paths => (buildPatch tree paths config.pipeline config.policy).mapError .process

/-- A run on a system that may refuse to show the files or to put the patch into its file. -/
def runOn (host : Host) (tree : FileTree) (config : RunConfig) :
    Except RunError RunReport × FileTree :=
  match collect host tree config with
  | .error error => (.error error, tree)
  | .ok outcome =>
      match outcome.patch.writeOn host tree config.output with
      | (.error cause, after) => (.error (.patch cause), after)
      | (.ok (), after) => (.ok (outcome.report config.output), after)

def run (tree : FileTree) (config : RunConfig) : Except RunError RunReport × FileTree :=
  runOn .usual tree config

end Codemod
