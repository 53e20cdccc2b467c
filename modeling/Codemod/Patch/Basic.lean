import Codemod.Files.Replace

/-!
Patches: the diffs of files, in the order in which the files were taken up.
-/

set_option autoImplicit false

namespace Codemod

open Codemod.Files (FileError FileTree Host Path)

structure FileDiff where
  /-- What the file is called before. -/
  oldPath : Path
  /-- What the file is called after. -/
  newPath : Path
  /-- The unified diff, empty if the two states are the same. -/
  text : String
deriving DecidableEq

def FileDiff.isEmpty (diff : FileDiff) : Bool := diff.text.isEmpty

structure PatchError where
  path : Path
  cause : FileError
deriving DecidableEq

def PatchError.message (error : PatchError) : String :=
  s!"failed to write patch to {error.path.display}: {error.cause.message}"

structure Patch where
  diffs : List FileDiff
deriving DecidableEq

namespace Patch

def empty : Patch := ⟨[]⟩

def add (patch : Patch) (diff : FileDiff) : Patch := ⟨patch.diffs ++ [diff]⟩

def size (patch : Patch) : Nat := patch.diffs.length

def isEmpty (patch : Patch) : Bool := patch.diffs.isEmpty

def changed (patch : Patch) : List Path :=
  (patch.diffs.filter fun diff => !diff.isEmpty).map FileDiff.oldPath

def text (patch : Patch) : String := String.join (patch.diffs.map FileDiff.text)

def writeOn (patch : Patch) (host : Host) (tree : FileTree) (path : Path) :
    Except PatchError Unit × FileTree :=
  let (result, after) := tree.replaceFile host path patch.text.toUTF8
  (result.mapError fun cause => ⟨path, cause⟩, after)

def write (patch : Patch) (tree : FileTree) (path : Path) : Except PatchError FileTree :=
  match patch.writeOn .willing tree path with
  | (.ok (), after) => .ok after
  | (.error error, _) => .error error

end Patch

end Codemod
