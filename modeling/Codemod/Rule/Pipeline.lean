import Codemod.Files.Path
import Codemod.Rule.Basic
import Codemod.Text.Quoted

/-!
Pipelines: rules in order. The first rule that fails stops the pipeline; what the rules before it
have done to the tree stays.
-/

set_option autoImplicit false

namespace Codemod

open Codemod.Files (Path)
open Codemod.Tree (SyntaxTree)

/-- Rules in the order in which they are applied. -/
abbrev Pipeline := List Rule

structure PipelineError where
  /-- What the rule is called. -/
  rule : String
  /-- How many rules stand before it. -/
  position : Nat
  file : Path
  cause : RuleError
deriving DecidableEq

def PipelineError.message (error : PipelineError) : String :=
  s!"rule '{error.rule}' (#{error.position}) failed: {error.cause.message}"

structure PipelineResult where
  tree : SyntaxTree
  error : Option PipelineError

namespace Pipeline

def names (pipeline : Pipeline) : List String := pipeline.map Rule.name

def describe (pipeline : Pipeline) : String := Text.quoteList pipeline.names

def applyFrom (file : Path) : (position : Nat) → Pipeline → SyntaxTree → PipelineResult
  | _, [], tree => ⟨tree, none⟩
  | position, rule :: rest, tree =>
      match rule.apply tree with
      | ⟨after, none⟩ => applyFrom file (position + 1) rest after
      | ⟨after, some cause⟩ => ⟨after, some ⟨rule.name, position, file, cause⟩⟩

def applyAll (pipeline : Pipeline) (file : Path) (tree : SyntaxTree) : PipelineResult :=
  applyFrom file 0 pipeline tree

end Pipeline

end Codemod
