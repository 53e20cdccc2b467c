import Codemod.Diff.Script
import Codemod.Diff.Settle

/-!
Hunks: changes with a few kept lines around them.

Kept lines at the start and at the end of a script are cut down to the context, and a script is
divided wherever more lines are kept between two changes than the context on both sides needs.
-/

set_option autoImplicit false

namespace Codemod.Diff

abbrev Hunk := List Op

def contextLines : Nat := 3

def lastKept (count : Nat) (op : Op) : Op :=
  op.shrinkLeft (op.oldCount - count)

def firstKept (count : Nat) (op : Op) : Op :=
  op.shrinkRight (op.oldCount - count)

def trimStart (context : Nat) : List Op → List Op
  | [] => []
  | op :: rest => if op.tag = .equal then lastKept context op :: rest else op :: rest

def trimEnd (context : Nat) : List Op → List Op
  | [] => []
  | [op] => if op.tag = .equal then [firstKept context op] else [op]
  | op :: rest => op :: trimEnd context rest

/-- A group is a hunk unless it is empty or a single kept run. -/
def asHunk (group : List Op) : List Hunk :=
  match group with
  | [] => []
  | [op] => if op.tag = .equal then [] else [[op]]
  | _ => [group]

def groupFrom (context : Nat) (group : List Op) : List Op → List Hunk
  | [] => asHunk group
  | op :: rest =>
      if op.tag = .equal ∧ 2 * context < op.oldCount then
        (group ++ [firstKept context op]) :: groupFrom context [lastKept context op] rest
      else groupFrom context (group ++ [op]) rest

def hunksOf (context : Nat) (ops : List Op) : List Hunk :=
  groupFrom context [] (trimEnd context (trimStart context ops))

/-- The operations between two texts, by lines. -/
def lineOps (old new : Array String) : List Op :=
  join (settle old new (script old new))

end Codemod.Diff
