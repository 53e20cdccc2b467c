import Codemod.CommandLine.Parse
import Codemod.RuleSet.Load
import Codemod.Run.Log

/-!
What the program does with its arguments: it builds the pipeline, runs it and reports.

The rules of a file come first, then the renamings of declarations, then those of all
identifiers.
-/

set_option autoImplicit false

namespace Codemod.CommandLine

open Codemod.Files (FileTree Path)
open Codemod.Text (Style)

/-! ### The pipeline -/

inductive BuildError where
  | rules (cause : LoadError)
  | rename (cause : RuleError)
deriving DecidableEq

def BuildError.message : BuildError → String
  | rules cause => cause.message
  | rename cause => cause.message

def renameRules (reach : Reach) (pairs : List (String × String)) : Except BuildError Pipeline :=
  pairs.mapM fun pair =>
    match Renaming.make pair.1 pair.2 reach with
    | .ok rule => .ok (.rename rule)
    | .error cause => .error (.rename cause)

def fileRules (tree : FileTree) : Option String → Except BuildError Pipeline
  | none => .ok []
  | some path => (RuleSet.loadPipeline tree (Path.ofText path)).mapError .rules

def buildPipeline (tree : FileTree) (settings : Settings) : Except BuildError Pipeline := do
  let file ← fileRules tree settings.rules
  let declarations ← renameRules (.declarations none) settings.renameDecl
  let identifiers ← renameRules .everywhere settings.rename
  return file ++ declarations ++ identifiers

def Settings.toConfig (settings : Settings) (pipeline : Pipeline) : RunConfig :=
  ⟨.ofText settings.root, settings.pattern, .ofText settings.output, pipeline,
    if settings.keepGoing then .keepGoing else .abort⟩

/-! ### Reports -/

structure Surroundings where
  /-- Whether messages are coloured. -/
  colored : Bool
  /-- What is to be logged, if something is said about it. -/
  logging : Option String

structure Outcome where
  code : Nat
  output : String
  errors : String
  tree : FileTree

def emptyWarning (colored : Bool) (pipeline : Pipeline) : String :=
  if pipeline.isEmpty then
    Style.yellow.paint colored "Warning: no rules given, the patch will be empty" ++ "\n"
  else ""

def errorLine (colored : Bool) (message : String) : String :=
  Style.red.paint colored "error:" ++ s!" {message}\n"

def failureLines (colored : Bool) (report : RunReport) : String :=
  String.join (report.failures.map fun failure =>
    Style.red.paint colored "✗" ++ s!" {failure.message}\n")

def summary (colored : Bool) (report : RunReport) : String :=
  let failed :=
    if report.failures.isEmpty then ""
    else "  " ++ Style.red.paint colored (toString report.failures.length) ++ " failed\n"
  Style.green.paint colored s!"Patch written to {report.output.display}" ++ "\n" ++
    Style.bold.paint colored "Summary:" ++ "\n" ++
    s!"  {report.processed} files processed\n" ++
    "  " ++ Style.green.paint colored (toString report.changed) ++ " changed\n" ++
    s!"  {report.stats.insertions} insertions(+), {report.stats.deletions} deletions(-)\n" ++
    failed

def logFilter (surroundings : Surroundings) (settings : Settings) : LogFilter :=
  (surroundings.logging.bind LogFilter.ofText?).getD (.standard settings.verbose)

def executePipeline (tree : FileTree) (surroundings : Surroundings) (settings : Settings)
    (pipeline : Pipeline) : Outcome :=
  let colored := surroundings.colored
  let config := settings.toConfig pipeline
  let events := runLog tree config (logFilter surroundings settings)
  let notes := emptyWarning colored pipeline ++ String.join (events.map (·.render colored))
  match run tree config with
  | (.ok report, after) =>
      ⟨if report.isSuccess then 0 else 1, summary colored report,
        notes ++ failureLines colored report, after⟩
  | (.error error, after) => ⟨1, "", notes ++ errorLine colored error.message, after⟩

def execute (tree : FileTree) (surroundings : Surroundings) (arguments : List String) : Outcome :=
  let colored := surroundings.colored
  match parse arguments with
  | .error .help => ⟨0, helpText colored, "", tree⟩
  | .error .version => ⟨0, versionText, "", tree⟩
  | .error (.mistake error) => ⟨2, "", error.message colored, tree⟩
  | .ok settings =>
      match buildPipeline tree settings with
      | .error error => ⟨1, "", errorLine colored error.message, tree⟩
      | .ok pipeline => executePipeline tree surroundings settings pipeline

end Codemod.CommandLine
