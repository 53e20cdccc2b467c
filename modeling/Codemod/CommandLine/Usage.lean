import Codemod.CommandLine.Flag
import Codemod.Run.Basic
import Codemod.Text.Styled

/-!
What the command line says about itself: help, version, and what is wrong with the arguments.
-/

set_option autoImplicit false

namespace Codemod.CommandLine

open Codemod.Text (Style)

inductive UsageError where
  /-- Nothing is known under this name. Something similar may be, and other options are given. -/
  | unknownArgument (argument : String) (similar : Option Flag) (given : List Flag)
  /-- A value for an option that takes none, with the options given before. -/
  | unexpectedValue (value : String) (flag : Flag) (given : List Flag)
  | repeated (flag : Flag)
  | missingValue (flag : Flag)
  /-- The value of a renaming that is no pair of names. -/
  | invalidRename (value : String) (flag : Flag)
deriving DecidableEq

/-- What ends the reading of arguments before a run. -/
inductive Stop where
  | help
  | version
  | mistake (error : UsageError)
deriving DecidableEq

def programName : String := "treeshift"

def programVersion : String := "0.1.0"

/-! ### Usage -/

def paintFlag (colored : Bool) (flag : Flag) : String :=
  Style.bold.paint colored s!"--{flag.long}" ++
    (match flag.placeholder with
      | some value => s!" <{value}>"
      | none => "")

/-- The line about usage. It lists the options given, if there are any. -/
def usageLine (colored : Bool) (given : List Flag) : String :=
  let options :=
    match given with
    | [] => "[OPTIONS]"
    | _ => " ".intercalate (given.eraseDups.map (paintFlag colored))
  Style.boldUnderlined.paint colored "Usage:" ++ " " ++
    Style.bold.paint colored programName ++ " " ++ options

/-! ### Help -/

def purpose : String :=
  "Apply structural rename rules to Rust sources and write the changes as a unified-diff patch"

def Flag.purpose : Flag → String
  | root => s!"Directory searched recursively for source files [default: {defaultRoot}]"
  | pattern => s!"Glob matched against file names [default: {defaultPattern}]"
  | output => s!"Patch file to write [default: {defaultOutput}]"
  | rules => "TOML rule set; its rules run before any command-line rule"
  | renameDecl => "Rename item declarations only (repeatable)"
  | rename => "Rename every identifier occurrence (repeatable)"
  | keepGoing => "Skip files that fail and still write the patch of the others"
  | verbose => "Log every pipeline stage to stderr"
  | help => "Print help"
  | version => "Print version"

def optionWidth : Nat :=
  (Flag.all.map fun flag => flag.display.length).foldl max 0

def optionLine (colored : Bool) (flag : Flag) : String :=
  let short :=
    match flag.short with
    | some letter => Style.bold.paint colored (String.ofList ['-', letter]) ++ ", "
    | none => "    "
  let blanks := String.ofList (List.replicate (optionWidth + 2 - flag.display.length) ' ')
  "  " ++ short ++ paintFlag colored flag ++ blanks ++ flag.purpose ++ "\n"

def helpText (colored : Bool) : String :=
  purpose ++ "\n\n" ++ usageLine colored [] ++ "\n\n" ++
    Style.boldUnderlined.paint colored "Options:" ++ "\n" ++
    String.join (Flag.all.map (optionLine colored))

def versionText : String := s!"{programName} {programVersion}\n"

/-! ### Mistakes -/

def renameExpectation (value : String) : String := s!"expected FROM=TO, got '{value}'"

namespace UsageError

def describe (colored : Bool) : UsageError → String
  | unknownArgument argument _ _ =>
      s!"unexpected argument '{Style.yellow.paint colored argument}' found"
  | unexpectedValue value flag _ =>
      s!"unexpected value '{Style.yellow.paint colored value}' for " ++
        s!"'{Style.bold.paint colored flag.display}' found; no more were expected"
  | repeated flag =>
      s!"the argument '{Style.yellow.paint colored flag.display}' cannot be used multiple times"
  | missingValue flag =>
      s!"a value is required for '{Style.yellow.paint colored flag.display}' " ++
        "but none was supplied"
  | invalidRename value flag =>
      s!"invalid value '{Style.yellow.paint colored value}' for " ++
        s!"'{Style.bold.paint colored flag.display}': {renameExpectation value}"

def advice (colored : Bool) : UsageError → String
  | unknownArgument _ (some flag) given =>
      "\n\n  " ++ Style.green.paint colored "tip:" ++ " a similar argument exists: '" ++
        Style.green.paint colored s!"--{flag.long}" ++ "'\n\n" ++
        usageLine colored (given ++ [flag])
  | unknownArgument _ none given => "\n\n" ++ usageLine colored given
  | unexpectedValue _ flag given => "\n\n" ++ usageLine colored (given ++ [flag])
  | repeated _ => "\n\n" ++ usageLine colored []
  | missingValue _ => ""
  | invalidRename _ _ => ""

def message (colored : Bool) (error : UsageError) : String :=
  Style.boldRed.paint colored "error:" ++ " " ++ error.describe colored ++ error.advice colored ++
    "\n\nFor more information, try '" ++ Style.bold.paint colored "--help" ++ "'.\n"

end UsageError

end Codemod.CommandLine
