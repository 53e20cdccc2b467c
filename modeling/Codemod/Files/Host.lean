import Codemod.Files.Access

/-!
The system that files are kept on.

It has a say in every step that is taken with files: a step may be refused, and then what was to be
done fails.
-/

set_option autoImplicit false

namespace Codemod.Files

inductive ReplaceStep where
  | create
  | fill
  | sync
  | move
deriving DecidableEq, Repr

inductive WalkStep where
  /-- See what the root is. -/
  | enter
  /-- Ask for more about an entry whose name matches. -/
  | inspect
  /-- Read what a directory holds. -/
  | list
deriving DecidableEq, Repr

/-- Why a walk stops. The system may or may not say at which path. -/
structure WalkFault where
  path? : Option Path
  cause : FileError
deriving DecidableEq

def WalkFault.message (fault : WalkFault) : String :=
  match fault.path? with
  | some path => s!"IO error for operation on {path.display}: {fault.cause.message}"
  | none => fault.cause.message

/-- What the system decides: which name a new file gets, which steps it refuses, and how much of a
content is written where that is refused. -/
structure Host where
  freshName : List FileName → FileName
  freshName_not_mem : ∀ names, freshName names ∉ names
  refuses : ReplaceStep → Option FileError
  partOf : ByteArray → ByteArray
  refusesWalk : WalkStep → Path → Option WalkFault

def longestName (names : List FileName) : Nat :=
  names.foldr (fun name longest => max name.length longest) 0

theorem length_le_longestName {names : List FileName} {name : FileName} (isIn : name ∈ names) :
    name.length ≤ longestName names := by
  induction names with
  | nil => exact absurd isIn List.not_mem_nil
  | cons first rest ih =>
      rcases List.mem_cons.mp isIn with rfl | isIn
      · exact Nat.le_max_left _ _
      · exact Nat.le_trans (ih isIn) (Nat.le_max_right _ _)

/-- A dot with one more dot for every byte of the longest name. -/
def longerName (names : List FileName) : FileName := List.replicate (longestName names + 1) dot

theorem longerName_not_mem (names : List FileName) : longerName names ∉ names := by
  intro isIn
  have bounded := length_le_longestName isIn
  rw [longerName, List.length_replicate] at bounded
  exact Nat.not_succ_le_self _ bounded

namespace Host

/-- The system that refuses nothing. -/
def willing : Host :=
  ⟨longerName, longerName_not_mem, fun _ => none, id, fun _ _ => none⟩

/-- The system that refuses nothing but to follow a path that is too long. -/
def usual : Host :=
  { willing with
    refusesWalk := fun _ path =>
      if pathLengthLimit ≤ path.bytes.length then some ⟨some path, .nameTooLong⟩ else none }

end Host

end Codemod.Files
