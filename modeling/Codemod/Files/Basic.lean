import Codemod.Files.Path

/-!
Trees of files, with a working directory in them.
-/

set_option autoImplicit false

namespace Codemod.Files

/-- What a name in a directory stands for. -/
inductive Entry where
  | file (content : ByteArray)
  | link (target : Path)
  | directory (entries : List (FileName × Entry))

/-- The names that lead from the root of all files to an entry. -/
abbrev Location := List FileName

/-- Where a path starts that is met in a directory. -/
def Path.startIn (path : Path) (directory : Location) : Location :=
  if path.isAbsolute then [] else directory

namespace Entry

def isDirectory : Entry → Bool
  | directory _ => true
  | _ => false

def child? (name : FileName) (entries : List (FileName × Entry)) : Option Entry :=
  (entries.find? fun entry => entry.1 == name).map Prod.snd

def setChild (name : FileName) (new : Entry) :
    List (FileName × Entry) → List (FileName × Entry)
  | [] => [(name, new)]
  | (other, entry) :: rest =>
      if other = name then (name, new) :: rest else (other, entry) :: setChild name new rest

def dropChild (name : FileName) (entries : List (FileName × Entry)) : List (FileName × Entry) :=
  entries.eraseP fun entry => entry.1 == name

/-- Give an entry another name. An entry that has the name already makes way for it. -/
def renameChild (old new : FileName) (entries : List (FileName × Entry)) :
    List (FileName × Entry) :=
  match child? old entries with
  | some entry => setChild new entry (dropChild old entries)
  | none => entries

def changeChild (name : FileName) (change : Entry → Entry) :
    List (FileName × Entry) → List (FileName × Entry)
  | [] => []
  | (other, entry) :: rest =>
      if other = name then (other, change entry) :: rest
      else (other, entry) :: changeChild name change rest

def get? : Entry → Location → Option Entry
  | entry, [] => some entry
  | directory entries, name :: rest => (child? name entries).bind fun entry => entry.get? rest
  | _, _ :: _ => none

/-- Put an entry where names lead to. Missing directories on the way are made. -/
def put (new : Entry) : Location → Entry → Entry
  | [], _ => new
  | name :: rest, directory entries =>
      directory (setChild name (put new rest ((child? name entries).getD (directory []))) entries)
  | _ :: _, entry => entry

def changeDirectory (change : List (FileName × Entry) → List (FileName × Entry)) :
    Location → Entry → Entry
  | [], directory entries => directory (change entries)
  | name :: rest, directory entries =>
      directory (changeChild name (changeDirectory change rest) entries)
  | _, entry => entry

mutual

def files (location : Location) : Entry → List (Location × ByteArray)
  | file content => [(location, content)]
  | link _ => []
  | directory entries => filesOf location entries

def filesOf (location : Location) : List (FileName × Entry) → List (Location × ByteArray)
  | [] => []
  | (name, entry) :: rest => files (location ++ [name]) entry ++ filesOf location rest

end

end Entry

/-- All files, as seen from a working directory. -/
structure FileTree where
  entries : List (FileName × Entry)
  /-- The working directory. -/
  home : Location

namespace FileTree

def root (tree : FileTree) : Entry := .directory tree.entries

def get? (tree : FileTree) (location : Location) : Option Entry := tree.root.get? location

/-- Put an entry at a location. The root itself stays a directory. -/
def put (tree : FileTree) (location : Location) (new : Entry) : FileTree :=
  match Entry.put new location tree.root with
  | .directory entries => ⟨entries, tree.home⟩
  | _ => tree

def changeDirectory (tree : FileTree) (location : Location)
    (change : List (FileName × Entry) → List (FileName × Entry)) : FileTree :=
  match tree.root.changeDirectory change location with
  | .directory entries => ⟨entries, tree.home⟩
  | _ => tree

def namesIn (tree : FileTree) (location : Location) : List FileName :=
  match tree.get? location with
  | some (.directory entries) => entries.map Prod.fst
  | _ => []

/-- Nothing but an empty working directory. -/
def emptyAt (home : Location) : FileTree := FileTree.put ⟨[], home⟩ home (.directory [])

/-- The regular files in the working directory, each with the names that lead there from it. -/
def filesAtHome (tree : FileTree) : List (Location × ByteArray) :=
  match tree.get? tree.home with
  | some entry => entry.files []
  | none => []

end FileTree

end Codemod.Files
