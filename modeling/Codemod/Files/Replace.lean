import Codemod.Files.Host

/-!
Replacing files.

A file is replaced in steps. A new file is made in the same directory, under a name that nothing
there has; the content goes into it and is made to last; then the file is moved to its place, where
it takes over from another file or from a link. Where a step fails, the new file is removed. The
system has a say in every step.
-/

set_option autoImplicit false

namespace Codemod.Files

structure Draft where
  directory : Location
  name : FileName
deriving DecidableEq, Repr

def Path.trimmedPieces (path : Path) : List FileName :=
  (path.pieces.reverse.dropWhile fun piece => piece.isEmpty).reverse

def Path.nameFor (path : Path) : Except FileError FileName :=
  match path.trimmedPieces.getLast?.map Path.stepOf with
  | some (.down name) =>
      if path.bytes.getLast? == some slash then .error .notADirectory
      else if maxNameLength < name.length then .error .nameTooLong
      else .ok name
  | _ => .error .notADirectory

namespace FileTree

def directoryFor (tree : FileTree) (path : Path) : Except FileError Location :=
  if tree.leadsToDirectory path then .error .occupied
  else if path.bytes.contains 0 then .error .zeroByte
  else if pathLengthLimit ≤ path.bytes.length then .error .nameTooLong
  else if path.trimmedPieces.isEmpty then .error .notFound
  else tree.directoryAt path path.trimmedPieces.dropLast

/-! ### The steps

A step leaves an answer and a tree behind. -/

def create (tree : FileTree) (host : Host) (path : Path) :
    Except FileError Draft × FileTree :=
  match tree.directoryFor path, host.refuses .create with
  | .error error, _ => (.error error, tree)
  | .ok _, some error => (.error error, tree)
  | .ok directory, none =>
      let name := host.freshName (tree.namesIn directory)
      (.ok ⟨directory, name⟩, tree.changeDirectory directory (Entry.setChild name (.file .empty)))

/-- Put a content into a new file. Part of it may get there even if this fails. -/
def fill (host : Host) (draft : Draft) (content : ByteArray) (tree : FileTree) :
    Except FileError Unit × FileTree :=
  let holding (written : ByteArray) : FileTree :=
    tree.changeDirectory draft.directory (Entry.setChild draft.name (.file written))
  match host.refuses .fill with
  | some error => (.error error, holding (host.partOf content))
  | none => (.ok (), holding content)

def sync (host : Host) (tree : FileTree) : Except FileError Unit × FileTree :=
  match host.refuses .sync with
  | some error => (.error error, tree)
  | none => (.ok (), tree)

/-- Move a new file to its place. It does not take over from a directory. -/
def move (host : Host) (draft : Draft) (path : Path) (tree : FileTree) :
    Except FileError Unit × FileTree :=
  match path.nameFor, host.refuses .move with
  | .error error, _ => (.error error, tree)
  | .ok _, some error => (.error error, tree)
  | .ok name, none =>
      if tree.isDirectoryAt (draft.directory ++ [name]) then (.error .isADirectory, tree)
      else (.ok (), tree.changeDirectory draft.directory (Entry.renameChild draft.name name))

def discard (tree : FileTree) (draft : Draft) : FileTree :=
  tree.changeDirectory draft.directory (Entry.dropChild draft.name)

/-- Take steps up to the first one that fails, and remove the new file if one does. -/
def finish (draft : Draft) :
    List (FileTree → Except FileError Unit × FileTree) → FileTree → Except FileError Unit × FileTree
  | [], tree => (.ok (), tree)
  | step :: rest, tree =>
      match step tree with
      | (.ok (), after) => finish draft rest after
      | (.error error, after) => (.error error, after.discard draft)

/-- Put a file at a path. What stands there is replaced as a whole, a link by the file. -/
def replaceFile (tree : FileTree) (host : Host) (path : Path) (content : ByteArray) :
    Except FileError Unit × FileTree :=
  match tree.create host path with
  | (.error error, after) => (.error error, after)
  | (.ok draft, made) =>
      finish draft [fill host draft content, sync host, move host draft path] made

end FileTree

end Codemod.Files
