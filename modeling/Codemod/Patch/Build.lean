import Codemod.Patch.Source

/-!
The patch of several files. Files do not depend on one another; what happens after a failure is
for the policy to say.
-/

set_option autoImplicit false

namespace Codemod

open Codemod.Diff (Stats)
open Codemod.Files (FileTree Path)

/-- What a failing file means for the others. -/
inductive FailurePolicy where
  /-- The first failure ends everything. -/
  | abort
  /-- Failures are noted, and the other files are taken up all the same. -/
  | keepGoing
deriving DecidableEq, Repr

/-- The patch of the files that did not fail, and the failures of those that did. -/
structure BuildOutcome where
  patch : Patch
  stats : Stats
  failures : List ProcessError

namespace BuildOutcome

def empty : BuildOutcome := ⟨.empty, .zero, []⟩

def record (outcome : BuildOutcome) (diff : FileDiff) (stats : Stats) : BuildOutcome :=
  { outcome with patch := outcome.patch.add diff, stats := outcome.stats.add stats }

def skip (outcome : BuildOutcome) (failure : ProcessError) : BuildOutcome :=
  { outcome with failures := outcome.failures ++ [failure] }

end BuildOutcome

def buildFrom (tree : FileTree) (pipeline : Pipeline) (policy : FailurePolicy) :
    BuildOutcome → List Path → Except ProcessError BuildOutcome
  | outcome, [] => .ok outcome
  | outcome, path :: rest =>
      match diffFile tree path pipeline with
      | .ok (diff, stats) => buildFrom tree pipeline policy (outcome.record diff stats) rest
      | .error failure =>
          match policy with
          | .abort => .error failure
          | .keepGoing => buildFrom tree pipeline policy (outcome.skip failure) rest

def buildPatch (tree : FileTree) (paths : List Path) (pipeline : Pipeline)
    (policy : FailurePolicy) : Except ProcessError BuildOutcome :=
  buildFrom tree pipeline policy .empty paths

end Codemod
