import Codemod.Files.Basic

/-!
Reading files by their paths, and laying them out.

A path is followed from the working directory, or from the root if it starts with a slash. Links
are followed on the way, and at the end where the entry behind them is meant. Two dots at the root
stay there.
-/

set_option autoImplicit false

namespace Codemod.Files

/-- Why a file cannot be read or replaced. -/
inductive FileError where
  | notFound
  | notADirectory
  | isADirectory
  | tooManyLinks
  | nameTooLong
  /-- The path holds a byte that no name may hold. -/
  | zeroByte
  /-- The content is no text. -/
  | notText
  /-- A directory stands where a file is to be put. -/
  | occupied
  /-- Whatever else the system says. -/
  | other (message : String)
deriving DecidableEq, Repr

def FileError.message : FileError → String
  | notFound => "No such file or directory (os error 2)"
  | notADirectory => "Not a directory (os error 20)"
  | isADirectory => "Is a directory (os error 21)"
  | tooManyLinks => "Too many levels of symbolic links (os error 40)"
  | nameTooLong => "File name too long (os error 36)"
  | zeroByte => "file name contained an unexpected NUL byte"
  | notText => "stream did not contain valid UTF-8"
  | occupied => "destination is a directory"
  | other message => message

def maxLinks : Nat := 40

def maxNameLength : Nat := 255

/-- The shortest path that is too long. -/
def pathLengthLimit : Nat := 4096

/-- Where a walk along a path stops. -/
inductive Halt where
  | arrived (location : Location)
  /-- At a link in a directory, with moves left to make behind it. -/
  | atLink (directory : Location) (target : Path) (rest : List Step)

namespace FileTree

def isDirectoryAt (tree : FileTree) (location : Location) : Bool :=
  (tree.get? location).any Entry.isDirectory

/-- Move up to the end, or to the first link that has to be followed. -/
def advance (tree : FileTree) (followLast : Bool) : Location → List Step → Except FileError Halt
  | location, [] => .ok (.arrived location)
  | location, step :: rest =>
      if !tree.isDirectoryAt location then .error .notADirectory
      else
        match step with
        | .stay => advance tree followLast location rest
        | .up => advance tree followLast location.dropLast rest
        | .down name =>
            if maxNameLength < name.length then .error .nameTooLong
            else
              match tree.get? (location ++ [name]) with
              | none => .error .notFound
              | some (.link target) =>
                  if followLast || !rest.isEmpty then .ok (.atLink location target rest)
                  else .ok (.arrived (location ++ [name]))
              | some _ => advance tree followLast (location ++ [name]) rest

/-- Move to the end, through at most so many links. -/
def resolveFrom (tree : FileTree) (followLast : Bool) :
    (links : Nat) → Location → List Step → Except FileError Location
  | links, location, steps =>
      match tree.advance followLast location steps with
      | .error error => .error error
      | .ok (.arrived final) => .ok final
      | .ok (.atLink directory target rest) =>
          match links with
          | 0 => .error .tooManyLinks
          | links + 1 =>
              resolveFrom tree followLast links (target.startIn directory) (target.steps ++ rest)

/-- The location a path leads to. With `followLast`, a link at the end is followed too. -/
def resolve (tree : FileTree) (path : Path) (followLast : Bool) : Except FileError Location :=
  if path.bytes.contains 0 then .error .zeroByte
  else if pathLengthLimit ≤ path.bytes.length then .error .nameTooLong
  else if path.bytes.isEmpty then .error .notFound
  else tree.resolveFrom followLast maxLinks (path.startIn tree.home) path.steps

def entryAt (tree : FileTree) (path : Path) (followLast : Bool) : Except FileError Entry := do
  let location ← tree.resolve path followLast
  match tree.get? location with
  | some entry => .ok entry
  | none => .error .notFound

def contains (tree : FileTree) (path : Path) : Bool := (tree.entryAt path true).isOk

def leadsToDirectory (tree : FileTree) (path : Path) : Bool :=
  match tree.entryAt path true with
  | .ok entry => entry.isDirectory
  | .error _ => false

/-! ### Reading -/

def readText (tree : FileTree) (path : Path) : Except FileError String := do
  match ← tree.entryAt path true with
  | .file content =>
      match String.fromUTF8? content with
      | some text => .ok text
      | none => .error .notText
  | _ => .error .isADirectory

/-! ### Directories -/

/-- The location of a directory that pieces of a path lead to. -/
def directoryAt (tree : FileTree) (path : Path) (pieces : List FileName) :
    Except FileError Location := do
  let location ←
    tree.resolveFrom true maxLinks (path.startIn tree.home) (pieces.map Path.stepOf)
  if tree.isDirectoryAt location then .ok location else .error .notADirectory

/-! ### Laying out -/

/-- Put an entry at a path, making the directories on the way. A directory stays as it is if it
exists. -/
def place (tree : FileTree) (path : Path) (new : Entry) : FileTree :=
  let names := path.activePieces
  let location :=
    match tree.directoryAt path names.dropLast with
    | .ok directory => directory ++ names.drop (names.length - 1)
    | .error _ => path.startIn tree.home ++ names
  if new.isDirectory && tree.leadsToDirectory path then tree else tree.put location new

end FileTree

end Codemod.Files
