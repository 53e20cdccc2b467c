import Codemod.Run.Basic
import Codemod.Text.Styled

/-!
The log of a run: what it says about itself while it goes from file to file, and which of it is
wanted.
-/

set_option autoImplicit false

namespace Codemod

open Codemod.Files (FileTree Path)
open Codemod.Text (Style)
open Codemod.Tree (SyntaxTree)

/-! ### Events -/

/-- How much an event matters, the most pressing first. -/
inductive LogLevel where
  | error
  | warn
  | info
  | debug
  | trace
deriving DecidableEq, Repr

namespace LogLevel

def rank : LogLevel → Nat
  | error => 1
  | warn => 2
  | info => 3
  | debug => 4
  | trace => 5

def label : LogLevel → String
  | error => "ERROR"
  | warn => " WARN"
  | info => " INFO"
  | debug => "DEBUG"
  | trace => "TRACE"

def style : LogLevel → Style
  | error => .red
  | warn => .yellow
  | info => .green
  | debug => .blue
  | trace => .purple

end LogLevel

inductive LogTopic where
  | files
  | pipeline
  | renames
deriving DecidableEq, Repr

def LogTopic.name : LogTopic → String
  | files => "treeshift::orchestrator"
  | pipeline => "treeshift::rules::pipeline"
  | renames => "treeshift::rules::rename"

structure LogEvent where
  level : LogLevel
  topic : LogTopic
  message : Option String
  fields : List (String × String)
deriving DecidableEq, Repr

def renderField (colored : Bool) (field : String × String) : String :=
  Style.italic.paint colored field.1 ++ Style.dimmed.paint colored "=" ++ field.2

def LogEvent.render (colored : Bool) (event : LogEvent) : String :=
  let parts := event.message.toList ++ event.fields.map (renderField colored)
  event.level.style.paint colored event.level.label ++ " " ++ " ".intercalate parts ++ "\n"

/-! ### What a run says -/

def stageEvent (path : Path) (stage : Stage) : LogEvent :=
  ⟨.debug, .files, none, [("file", path.display), ("stage", stage.name)]⟩

def applyingEvent (file : String) (rule : Rule) (position : Nat) : LogEvent :=
  ⟨.debug, .pipeline, some "applying rule",
    [("file", file), ("rule", Text.quote rule.name), ("position", toString position)]⟩

def renamedEvent (rule : Renaming) (before after : SyntaxTree) : LogEvent :=
  let what :=
    match rule.reach with
    | .everywhere => "renamed identifiers"
    | .declarations _ => "renamed declarations"
  let count := after.countIdentifier rule.new - before.countIdentifier rule.new
  ⟨.debug, .renames, some what, [("rule", rule.name), ("renamed", toString count)]⟩

/-- What a rule says: a renaming counts what it renamed, unless there was nothing to do. -/
def ruleEvents (rule : Rule) (before after : SyntaxTree) : List LogEvent :=
  match rule with
  | .rename change => if change.isIdle before then [] else [renamedEvent change before after]
  | .custom _ _ => []

def pipelineEvents (file : String) : (position : Nat) → Pipeline → SyntaxTree → List LogEvent
  | _, [], _ => []
  | position, rule :: rest, tree =>
      applyingEvent file rule position ::
        match rule.apply tree with
        | ⟨_, some _⟩ => []
        | ⟨after, none⟩ =>
            ruleEvents rule tree after ++ pipelineEvents file (position + 1) rest after

def sourceEvents (path : Path) (source : String) (pipeline : Pipeline) : List LogEvent :=
  stageEvent path .discovered ::
    match Tree.parse source with
    | .error _ => []
    | .ok tree =>
        stageEvent path .parsed :: pipelineEvents path.display 0 pipeline tree ++
          match transformSource path source pipeline with
          | .ok _ => [.transformed, .printed, .diffed].map (stageEvent path)
          | .error (.print _ _) => [stageEvent path .transformed]
          | .error _ => []

def fileEvents (tree : FileTree) (path : Path) (pipeline : Pipeline) : List LogEvent :=
  match tree.readText path with
  | .error _ => []
  | .ok source => sourceEvents path source pipeline

def recordedEvent (diff : FileDiff) : LogEvent :=
  ⟨.info, .files, some "recorded file diff",
    [("file", diff.oldPath.display), ("changed", toString (!diff.isEmpty)),
      ("stage", Stage.recorded.name)]⟩

def skippedEvent (failure : ProcessError) : LogEvent :=
  ⟨.warn, .files, some "skipping file",
    [("file", failure.path.display), ("stage", failure.stage.name),
      ("error", failure.cause.message)]⟩

def buildEvents (tree : FileTree) (pipeline : Pipeline) (policy : FailurePolicy) :
    List Path → List LogEvent
  | [] => []
  | path :: rest =>
      fileEvents tree path pipeline ++
        match diffFile tree path pipeline, policy with
        | .ok (diff, _), _ => recordedEvent diff :: buildEvents tree pipeline policy rest
        | .error failure, .keepGoing =>
            skippedEvent failure :: buildEvents tree pipeline policy rest
        | .error _, .abort => []

def discoveredEvent (config : RunConfig) (count : Nat) : LogEvent :=
  ⟨.info, .files, some "discovered source files",
    [("root", config.root.display), ("pattern", config.pattern), ("files", toString count),
      ("rules", toString config.pipeline.length)]⟩

def writtenEvent (config : RunConfig) : LogEvent :=
  ⟨.info, .files, some "patch written", [("output", config.output.display)]⟩

def runEvents (tree : FileTree) (config : RunConfig) : List LogEvent :=
  match Files.discoverOn .usual tree config.root config.pattern with
  | .error _ => []
  | .ok paths =>
      discoveredEvent config paths.length ::
        buildEvents tree config.pipeline config.policy paths ++
        match (run tree config).1 with
        | .ok _ => [writtenEvent config]
        | .error _ => []

/-! ### What is wanted -/

/-- Events of the topics whose names start with a text are wanted up to a rank. -/
structure LogDirective where
  target : String
  rank : Nat
deriving DecidableEq, Repr

abbrev LogFilter := List LogDirective

def rankOf? (word : String) : Option Nat :=
  match String.ofList (word.toList.map Char.toLower) with
  | "off" => some 0
  | "0" => some 0
  | "error" => some 1
  | "1" => some 1
  | "warn" => some 2
  | "2" => some 2
  | "info" => some 3
  | "3" => some 3
  | "debug" => some 4
  | "4" => some 4
  | "trace" => some 5
  | "5" => some 5
  | _ => none

def isTarget (text : String) : Bool :=
  !text.isEmpty && text.all fun c => c.isAlphanum || c == '_' || c == ':' || c == '-'

/-- A rank for everything, a topic with all it says, or a topic and a rank. -/
def LogDirective.ofText? (text : String) : Option LogDirective :=
  match text.splitOn "=" with
  | [word] =>
      match rankOf? word with
      | some rank => some ⟨"", rank⟩
      | none => if isTarget word then some ⟨word, LogLevel.trace.rank⟩ else none
  | [target, word] =>
      if isTarget target then (rankOf? word).map fun rank => ⟨target, rank⟩ else none
  | _ => none

def LogFilter.ofText? (text : String) : Option LogFilter :=
  ((text.splitOn ",").filter fun part => !part.isEmpty).mapM LogDirective.ofText?

def LogDirective.covers (directive : LogDirective) (topic : LogTopic) : Bool :=
  directive.target.toList.isPrefixOf topic.name.toList

/-- Of the directives about a topic the one with the longest name counts, and of several with the
same name the last. -/
def LogFilter.rankFor (filter : LogFilter) (topic : LogTopic) : Nat :=
  let better (best : Option LogDirective) (next : LogDirective) : Option LogDirective :=
    match best with
    | none => some next
    | some directive =>
        if next.target.length < directive.target.length then some directive else some next
  (((List.filter (fun directive => directive.covers topic) filter).foldl better none).map
    LogDirective.rank).getD 0

def LogFilter.wants (filter : LogFilter) (event : LogEvent) : Bool :=
  event.level.rank ≤ filter.rankFor event.topic

def LogFilter.isSilent (filter : LogFilter) : Bool :=
  filter.all fun directive => directive.rank ≤ LogLevel.error.rank

def LogFilter.standard (verbose : Bool) : LogFilter :=
  [⟨"treeshift", if verbose then LogLevel.debug.rank else LogLevel.error.rank⟩]

def runLog (tree : FileTree) (config : RunConfig) (filter : LogFilter) : List LogEvent :=
  if filter.isSilent then [] else (runEvents tree config).filter filter.wants

end Codemod
