/-!
The options of the command line.
-/

set_option autoImplicit false

namespace Codemod.CommandLine

inductive Flag where
  | root
  | pattern
  | output
  | rules
  | renameDecl
  | rename
  | keepGoing
  | verbose
  | help
  | version
deriving DecidableEq, Repr

namespace Flag

def all : List Flag :=
  [root, pattern, output, rules, renameDecl, rename, keepGoing, verbose, help, version]

theorem mem_all (flag : Flag) : flag ∈ all := by
  cases flag <;> decide

/-- The name of an option behind two dashes. -/
def long : Flag → String
  | root => "root"
  | pattern => "pattern"
  | output => "output"
  | rules => "rules"
  | renameDecl => "rename-decl"
  | rename => "rename"
  | keepGoing => "keep-going"
  | verbose => "verbose"
  | help => "help"
  | version => "version"

/-- The letter of an option behind one dash, if it has one. -/
def short : Flag → Option Char
  | root => some 'r'
  | pattern => some 'p'
  | output => some 'o'
  | keepGoing => some 'k'
  | verbose => some 'v'
  | help => some 'h'
  | version => some 'V'
  | _ => none

def placeholder : Flag → Option String
  | root => some "ROOT"
  | pattern => some "PATTERN"
  | output => some "OUTPUT"
  | rules => some "FILE"
  | renameDecl => some "FROM=TO"
  | rename => some "FROM=TO"
  | _ => none

def takesValue (flag : Flag) : Bool := flag.placeholder.isSome

def isRepeatable : Flag → Bool
  | renameDecl => true
  | rename => true
  | _ => false

def ofLong? (name : String) : Option Flag := all.find? fun flag => flag.long == name

def ofShort? (letter : Char) : Option Flag := all.find? fun flag => flag.short == some letter

def display (flag : Flag) : String :=
  match flag.placeholder with
  | some value => s!"--{flag.long} <{value}>"
  | none => s!"--{flag.long}"

end Flag

end Codemod.CommandLine
