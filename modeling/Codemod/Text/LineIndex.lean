/-!
Lines and columns of byte offsets.

The index of a text lists where its lines start; only a line feed ends a line. Lines and columns
are counted from one, columns in bytes.
-/

set_option autoImplicit false

namespace Codemod.Text

structure Position where
  line : Nat
  column : Nat
deriving DecidableEq, Repr

/-- The offsets at which the lines of a text start, in order. -/
structure LineIndex where
  starts : Array Nat

namespace LineIndex

def startsBehind : Nat → List Char → List Nat
  | _, [] => []
  | offset, c :: rest =>
      let next := offset + c.utf8Size
      if c = '\n' then next :: startsBehind next rest else startsBehind next rest

def ofText (text : List Char) : LineIndex :=
  ⟨(0 :: startsBehind 0 text).toArray⟩

/-- The last of the lines from `low` on, and before `high`, that starts at or before the offset.
The range is halved in every step. -/
def lastStart (index : LineIndex) (offset : Nat) : (bound low high : Nat) → Nat
  | 0, low, _ => low
  | bound + 1, low, high =>
      if low + 1 < high then
        let middle := (low + high) / 2
        if index.starts.getD middle 0 ≤ offset then lastStart index offset bound middle high
        else lastStart index offset bound low middle
      else low

def locate (index : LineIndex) (offset : Nat) : Position :=
  let line := index.lastStart offset index.starts.size 0 index.starts.size
  ⟨line + 1, offset - index.starts.getD line 0 + 1⟩

end LineIndex

end Codemod.Text
