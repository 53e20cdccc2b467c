import Codemod.CommandLine.Execute

/-!
The program: it takes in the working directory and the other places that its arguments name, does what
they ask for, and puts the files that changed back.
-/

set_option autoImplicit false

namespace Codemod

open Codemod.CommandLine (Surroundings execute)
open Codemod.Files (Entry FileName FileTree Location Path Step slash)

/-- Take in an entry of a directory, with everything below it. What cannot be read is left
out. -/
partial def takeIn (item : IO.FS.DirEntry) : IO (List (FileName × Entry)) := do
  let name := Text.bytesOf item.fileName
  try
    match (← item.path.symlinkMetadata).type with
    | .dir =>
        let inner ← (← item.path.readDir).toList.mapM takeIn
        return [(name, .directory inner.flatten)]
    | .file => return [(name, .file (← IO.FS.readBinFile item.path))]
    | .symlink => return [(name, .link (.ofText (← IO.FS.realPath item.path).toString))]
    | .other => return []
  catch _ => return []

/-- Where a path leads as long as there are no links on the way. -/
def namedBy (home : Location) (path : Path) : Location :=
  let move (location : Location) : Step → Location
    | .stay => location
    | .up => location.dropLast
    | .down name => location ++ [name]
  path.steps.foldl move (path.startIn home)

/-- Put an entry where a place really is, and a link to it where the place is said to be. -/
def mount (tree : FileTree) (place real : String) (entry : Entry) : FileTree :=
  let mounted := tree.put (namedBy [] (.ofText real)) entry
  let named := namedBy tree.home (.ofText place)
  if (mounted.get? named).isSome then mounted else mounted.put named (.link (.ofText real))

/-- Take in what is at a place outside of the working directory, or if there is nothing, the
directory around it. -/
def takeInPlace (tree : FileTree) (place : String) : IO FileTree := do
  let around := String.ofList (place.toList.reverse.dropWhile (· != '/')).reverse
  try
    let real ← IO.FS.realPath place
    if tree.home.isPrefixOf (namedBy [] (.ofText real.toString)) then return tree
    let found ← takeIn ⟨real.parent.getD real, real.fileName.getD ""⟩
    return found.foldl (fun tree entry => mount tree place real.toString entry.2) tree
  catch _ =>
    try
      let real := (← IO.FS.realPath around).toString
      if (tree.get? (namedBy [] (.ofText real))).isSome then return tree
      return mount tree around real (.directory [])
    catch _ => return tree

/-- What a run needs of the disk: the working directory, and where its arguments lead out of it. -/
def takeInAll (arguments : List String) : IO FileTree := do
  let home ← IO.currentDir
  let location := namedBy [] (.ofText home.toString)
  let items ← (← home.readDir).toList.mapM takeIn
  let tree := (FileTree.emptyAt location).put location (.directory items.flatten)
  match CommandLine.parse arguments with
  | .error _ => return tree
  | .ok settings =>
      (settings.root :: settings.output :: settings.rules.toList).foldlM takeInPlace tree

/-- Put the files back that are not as they were. A file is written under another name first and
then moved to its place. -/
def putBack (before after : FileTree) : IO Unit := do
  let known := before.root.files []
  for (location, content) in after.root.files [] do
    unless known.any fun file => file.1 == location && file.2.data == content.data do
      let path := ((⟨[slash]⟩ : Path).below location).display
      IO.FS.writeBinFile (path ++ ".part") content
      IO.FS.rename (path ++ ".part") path

def surroundings : IO Surroundings := do
  let plain ← IO.getEnv "NO_COLOR"
  let forced ← IO.getEnv "CLICOLOR_FORCE"
  let terminal ← (← IO.getStdout).isTty
  let colored := plain.isNone && (forced.any (· != "0") || terminal)
  return ⟨colored, ← IO.getEnv "RUST_LOG"⟩

end Codemod

def main (arguments : List String) : IO UInt32 := do
  let before ← Codemod.takeInAll arguments
  let outcome := Codemod.CommandLine.execute before (← Codemod.surroundings) arguments
  IO.eprint outcome.errors
  IO.print outcome.output
  Codemod.putBack before outcome.tree
  return UInt32.ofNat outcome.code
