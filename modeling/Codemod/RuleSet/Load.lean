import Codemod.Files.Access
import Codemod.RuleSet.Decode
import Codemod.RuleSet.Issue

/-!
Loading rule sets, from a text or from a file. A rule set is only accepted without any issue.
-/

set_option autoImplicit false

namespace Codemod

open Codemod.Files (FileError FileTree Path)

/-- Why a rule set is not accepted. Where it came from a file, the path is kept. -/
inductive LoadError where
  | unreadable (path : Path) (cause : FileError)
  | malformed (path : Option Path) (source : String) (fault : Toml.Fault)
  | invalid (path : Option Path) (issues : List Issue)
  | rule (path : Option Path) (cause : RuleError)
deriving DecidableEq

namespace LoadError

def origin : Option Path → String
  | some path => s!" ({path.display})"
  | none => ""

def message : LoadError → String
  | unreadable path cause => s!"failed to read rule config from {path.display}: {cause.message}"
  | malformed path source fault =>
      s!"failed to parse rule config TOML{origin path}: {fault.report source}"
  | invalid path issues =>
      s!"invalid rule config{origin path}: " ++ "\n".intercalate (issues.map Issue.message)
  | rule path cause => s!"invalid rule{origin path}: {cause.message}"

def path? : LoadError → Option Path
  | unreadable path _ => some path
  | malformed path _ _ => path
  | invalid path _ => path
  | rule path _ => path

end LoadError

namespace RuleSet

def load (path : Option Path) (source : String) : Except LoadError RuleSet :=
  match ofToml source with
  | .error fault => .error (.malformed path source fault)
  | .ok rules =>
      match rules.issues with
      | [] => .ok rules
      | issues => .error (.invalid path issues)

def loadFile (tree : FileTree) (path : Path) : Except LoadError RuleSet :=
  match tree.readText path with
  | .error cause => .error (.unreadable path cause)
  | .ok source => load (some path) source

def loadPipeline (tree : FileTree) (path : Path) : Except LoadError Pipeline :=
  match loadFile tree path with
  | .error error => .error error
  | .ok rules =>
      match rules.pipeline with
      | .ok rules => .ok rules
      | .error cause => .error (.rule (some path) cause)

end RuleSet

end Codemod
