import Codemod.Diff.Unified
import Codemod.Patch.Basic
import Codemod.Rule.Pipeline
import Codemod.Tree.Print

/-!
From a source file to its diff: the text is parsed, the rules are applied to the tree, the trees
before and after are printed, and the two texts are compared.
-/

set_option autoImplicit false

namespace Codemod

open Codemod.Diff (Stats)
open Codemod.Files (FileError FileTree Path)
open Codemod.Tree (ParseError PrintError)

inductive Stage where
  | discovered
  | parsed
  | transformed
  | printed
  | diffed
  | recorded
deriving DecidableEq, Repr

def Stage.name : Stage → String
  | discovered => "discovered"
  | parsed => "parsed"
  | transformed => "transformed"
  | printed => "printed"
  | diffed => "diffed"
  | recorded => "recorded"

inductive TreeRole where
  /-- As it was read. -/
  | before
  /-- As the rules left it. -/
  | after
deriving DecidableEq, Repr

def TreeRole.name : TreeRole → String
  | before => "original"
  | after => "rewritten"

/-- Why a file has no diff. -/
inductive ProcessFailure where
  | read (cause : FileError)
  | parse (cause : ParseError)
  | transform (cause : PipelineError)
  | print (which : TreeRole) (cause : PrintError)
deriving DecidableEq

namespace ProcessFailure

def message : ProcessFailure → String
  | read cause => s!"failed to read source: {cause.message}"
  | parse cause => s!"parse failed: {cause.message}"
  | transform cause => cause.message
  | print which cause => s!"failed to print {which.name} tree: {cause.message}"

def stage : ProcessFailure → Stage
  | read _ => .discovered
  | parse _ => .discovered
  | transform _ => .parsed
  | print _ _ => .transformed

end ProcessFailure

structure ProcessError where
  path : Path
  cause : ProcessFailure
deriving DecidableEq

namespace ProcessError

def message (error : ProcessError) : String :=
  s!"{error.path.display}: {error.cause.message}"

def stage (error : ProcessError) : Stage := error.cause.stage

end ProcessError

/-- The two texts of a file, before and after the rules. -/
def transformSource (path : Path) (source : String) (pipeline : Pipeline) :
    Except ProcessFailure (String × String) :=
  match Tree.parse source with
  | .error cause => .error (.parse cause)
  | .ok tree =>
      match pipeline.applyAll path tree with
      | ⟨_, some cause⟩ => .error (.transform cause)
      | ⟨changed, none⟩ =>
          match Tree.print tree, Tree.print changed with
          | .error cause, _ => .error (.print .before cause)
          | _, .error cause => .error (.print .after cause)
          | .ok before, .ok after => .ok (before, after)

def diffSource (path : Path) (source : String) (pipeline : Pipeline) :
    Except ProcessError (FileDiff × Stats) :=
  match transformSource path source pipeline with
  | .error cause => .error ⟨path, cause⟩
  | .ok (before, after) =>
      .ok (⟨path, path, Diff.unified path.display before path.display after⟩,
        Diff.stats before after)

def diffFile (tree : FileTree) (path : Path) (pipeline : Pipeline) :
    Except ProcessError (FileDiff × Stats) :=
  match tree.readText path with
  | .error cause => .error ⟨path, .read cause⟩
  | .ok source => diffSource path source pipeline

def processSource (path : Path) (source : String) (pipeline : Pipeline) :
    Except ProcessError FileDiff :=
  (diffSource path source pipeline).map Prod.fst

def processFile (tree : FileTree) (path : Path) (pipeline : Pipeline) :
    Except ProcessError FileDiff :=
  (diffFile tree path pipeline).map Prod.fst

end Codemod
