import Codemod.Files.Host
import Codemod.Glob.Pattern

/-!
Finding files.

A walk lists what is at and below a root, a directory before what it holds and names in the order
of their bytes. Links below the root are listed but not followed. An entry is found if its name is
text that matches the pattern. Where the system refuses a step, the walk fails.
-/

set_option autoImplicit false

namespace Codemod.Files

open Codemod.Glob (Pattern PatternError)

/-- Why nothing can be looked for. -/
inductive WalkError where
  | invalidPattern (pattern : String) (error : PatternError)
  | rootNotFound (root : Path)
  /-- The system refused a step. -/
  | refused (path : Path) (fault : WalkFault)
deriving DecidableEq

def WalkError.message : WalkError → String
  | invalidPattern pattern error => s!"invalid glob pattern '{pattern}': {error.message}"
  | rootNotFound root => s!"root directory does not exist: {root.display}"
  | refused path fault => s!"failed to walk {path.display}: {fault.message}"

/-! ### The order of names -/

/-- Put an entry in front of the first one whose name is not smaller. -/
def insertByName (name : FileName) (entry : Entry) :
    List (FileName × Entry) → List (FileName × Entry)
  | [] => [(name, entry)]
  | (other, next) :: rest =>
      if other < name then (other, next) :: insertByName name entry rest
      else (name, entry) :: (other, next) :: rest

mutual

def Entry.sorted : Entry → Entry
  | .file content => .file content
  | .link target => .link target
  | .directory entries => .directory (sortEntries entries)

def sortEntries : List (FileName × Entry) → List (FileName × Entry)
  | [] => []
  | (name, entry) :: rest => insertByName name entry.sorted (sortEntries rest)

end

/-! ### Walks -/

structure Visited where
  path : Path
  name : FileName
  entry : Entry

mutual

def visit (path : Path) (name : FileName) : Entry → List Visited
  | .file content => [⟨path, name, .file content⟩]
  | .link target => [⟨path, name, .link target⟩]
  | .directory entries => ⟨path, name, .directory entries⟩ :: visitAll path entries

def visitAll (path : Path) : List (FileName × Entry) → List Visited
  | [] => []
  | (name, entry) :: rest => visit (path.join name) name entry ++ visitAll path rest

end

/-- The name of a root: the one its path ends in, or else the whole path. -/
def rootName (root : Path) : FileName := root.fileName?.getD root.bytes

/-- What stands below a link at the root: the entries of the directory it leads to. -/
def behindLink (tree : FileTree) (root : Path) : List Visited :=
  match tree.entryAt root true with
  | .ok (.directory entries) => visitAll root (sortEntries entries)
  | _ => []

def walkFrom (tree : FileTree) (root : Path) : List Visited :=
  match tree.entryAt root false with
  | .ok (.link target) => ⟨root, rootName root, .link target⟩ :: behindLink tree root
  | .ok entry => visit root (rootName root) entry.sorted
  | .error _ => []

def Visited.matches (pattern : Pattern) (visited : Visited) : Bool :=
  (Text.textOf? visited.name).any pattern.matches

/-- Whether a walk reads what an entry holds. At the root, it is what a link leads to that counts. -/
def isListed (tree : FileTree) (root : Path) (visited : Visited) : Bool :=
  visited.entry.isDirectory || visited.path == root && tree.leadsToDirectory root

/-- What the system has against coming by an entry. It is asked about a matching entry first, and
then about what a directory holds. -/
def faultAt? (host : Host) (tree : FileTree) (root : Path) (pattern : Pattern)
    (visited : Visited) : Option WalkFault :=
  let step? (taken : Bool) (step : WalkStep) : Option WalkFault :=
    if taken then host.refusesWalk step visited.path else none
  (step? (visited.matches pattern) .inspect).or (step? (isListed tree root visited) .list)

/-- The first thing that the system has against a walk. -/
def walkFault? (host : Host) (tree : FileTree) (root : Path) (pattern : Pattern) :
    Option WalkFault :=
  (host.refusesWalk .enter root).or
    ((walkFrom tree root).findSome? (faultAt? host tree root pattern))

/-- The entries at and below a root whose names match, on a system that may refuse to show them. -/
def walkOn (host : Host) (tree : FileTree) (root : Path) (pattern : String) :
    Except WalkError (List Visited) :=
  match Pattern.ofText pattern with
  | .error error => .error (.invalidPattern pattern error)
  | .ok pieces =>
      if tree.contains root then
        match walkFault? host tree root pieces with
        | some fault => .error (.refused (fault.path?.getD root) fault)
        | none => .ok ((walkFrom tree root).filter (Visited.matches pieces))
      else .error (.rootNotFound root)

/-- The entries at and below a root whose names match. -/
def walk (tree : FileTree) (root : Path) (pattern : String) : Except WalkError (List Visited) :=
  walkOn .willing tree root pattern

def sourceExtension : FileName := Text.bytesOf "rs"

/-- Whether an entry is a source file: a regular file with the extension of one. -/
def Visited.isSource (visited : Visited) : Bool :=
  match visited.entry with
  | .file _ => visited.path.extension? == some sourceExtension
  | _ => false

/-- The paths of the source files at and below a root whose names match, on a system that may refuse
to show them. -/
def discoverOn (host : Host) (tree : FileTree) (root : Path) (pattern : String) :
    Except WalkError (List Path) :=
  (walkOn host tree root pattern).map fun found =>
    (found.filter Visited.isSource).map Visited.path

/-- The paths of the source files at and below a root whose names match. -/
def discover (tree : FileTree) (root : Path) (pattern : String) : Except WalkError (List Path) :=
  discoverOn .willing tree root pattern

end Codemod.Files
