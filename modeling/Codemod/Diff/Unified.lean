import Codemod.Diff.Hunk
import Codemod.Diff.Lines

/-!
Unified diffs.

A diff names the two files and lists the hunks, each under the ranges of lines it covers. Of a
range, a length of one is left out, and an empty range names the line before it. A line without
an end is followed by a remark that says so. Equal texts have an empty diff.
-/

set_option autoImplicit false

namespace Codemod.Diff

inductive Change where
  | keep (line : String)
  | delete (line : String)
  | insert (line : String)
deriving DecidableEq, Repr

namespace Change

def line : Change → String
  | keep line => line
  | delete line => line
  | insert line => line

def sign : Change → String
  | keep _ => " "
  | delete _ => "-"
  | insert _ => "+"

def noEndRemark : String := "\n\\ No newline at end of file\n"

def render (change : Change) : String :=
  change.sign ++ change.line ++ (if isEnded change.line then "" else noEndRemark)

end Change

def slice (lines : Array String) (start count : Nat) : List String :=
  (lines.extract start (start + count)).toList

/-- The changes of an operation. A replacement first deletes and then inserts. -/
def Op.changes (old new : Array String) (op : Op) : List Change :=
  match op.tag with
  | .equal => (slice old op.oldStart op.oldCount).map .keep
  | .delete => (slice old op.oldStart op.oldCount).map .delete
  | .insert => (slice new op.newStart op.newCount).map .insert
  | .replace =>
      (slice old op.oldStart op.oldCount).map .delete ++
        (slice new op.newStart op.newCount).map .insert

def renderRange (start stop : Nat) : String :=
  match stop - start with
  | 0 => s!"{start},0"
  | 1 => s!"{start + 1}"
  | count => s!"{start + 1},{count}"

def hunkHeader (hunk : Hunk) : String :=
  match hunk.head?, hunk.getLast? with
  | some first, some last =>
      let old := renderRange first.oldStart last.oldStop
      let new := renderRange first.newStart last.newStop
      s!"@@ -{old} +{new} @@"
  | _, _ => ""

def renderHunk (old new : Array String) (hunk : Hunk) : String :=
  let changes := hunk.flatMap (Op.changes old new)
  if changes.isEmpty then ""
  else hunkHeader hunk ++ "\n" ++ String.join (changes.map Change.render)

/-- The unified diff of two texts under the names of their files. -/
def unified (oldPath old newPath new : String) : String :=
  let oldLines := linesOf old
  let newLines := linesOf new
  match hunksOf contextLines (lineOps oldLines newLines) with
  | [] => ""
  | hunks =>
      s!"--- {oldPath}\n+++ {newPath}\n" ++
        String.join (hunks.map (renderHunk oldLines newLines))

structure Stats where
  insertions : Nat
  deletions : Nat
  hunks : Nat
deriving DecidableEq, Repr

namespace Stats

def zero : Stats := ⟨0, 0, 0⟩

def add (left right : Stats) : Stats :=
  ⟨left.insertions + right.insertions, left.deletions + right.deletions,
    left.hunks + right.hunks⟩

def isEmpty (stats : Stats) : Bool := stats.insertions == 0 && stats.deletions == 0

end Stats

def Change.isInsertion : Change → Bool
  | insert _ => true
  | _ => false

def Change.isDeletion : Change → Bool
  | delete _ => true
  | _ => false

def stats (old new : String) : Stats :=
  let oldLines := linesOf old
  let newLines := linesOf new
  let ops := lineOps oldLines newLines
  let changes := ops.flatMap (Op.changes oldLines newLines)
  ⟨changes.countP Change.isInsertion, changes.countP Change.isDeletion,
    (hunksOf contextLines ops).length⟩

end Codemod.Diff
