import Codemod.Text.Lossy

/-!
Paths. A path is a run of bytes; slashes part it into pieces. Empty pieces and single dots stay
where they are, and two dots lead one directory up.
-/

set_option autoImplicit false

namespace Codemod.Files

abbrev FileName := List UInt8

def slash : UInt8 := 47

def dot : UInt8 := 46

structure Path where
  bytes : List UInt8
deriving DecidableEq, Repr

inductive Step where
  | stay
  | up
  | down (name : FileName)
deriving DecidableEq, Repr

namespace Path

def ofText (text : String) : Path := ⟨Text.bytesOf text⟩

def display (path : Path) : String := Text.lossy path.bytes

def split : List UInt8 → List FileName
  | [] => [[]]
  | byte :: rest =>
      if byte = slash then [] :: split rest
      else
        match split rest with
        | [] => [[byte]]
        | piece :: pieces => (byte :: piece) :: pieces

def pieces (path : Path) : List FileName := split path.bytes

def isIdlePiece (piece : FileName) : Bool := piece == [] || piece == [dot]

def stepOf (piece : FileName) : Step :=
  if isIdlePiece piece then .stay
  else if piece = [dot, dot] then .up
  else .down piece

/-- The moves of a path. A slash at the end is a move that stays, so what it follows has to be a
directory. -/
def steps (path : Path) : List Step := path.pieces.map stepOf

def isAbsolute (path : Path) : Bool := path.bytes.head? == some slash

def activePieces (path : Path) : List FileName :=
  path.pieces.filter fun piece => !isIdlePiece piece

def fileName? (path : Path) : Option FileName :=
  match path.activePieces.getLast? with
  | some piece => if piece = [dot, dot] then none else some piece
  | none => none

/-- What stands behind the last dot of a name, unless nothing stands in front of it. -/
def extensionOf? (name : FileName) : Option FileName :=
  let reversed := name.reverse
  match reversed.dropWhile (· != dot) with
  | [] => none
  | [_] => none
  | _ :: _ :: _ => some (reversed.takeWhile (· != dot)).reverse

def extension? (path : Path) : Option FileName := path.fileName?.bind extensionOf?

def join (path : Path) (name : FileName) : Path :=
  match path.bytes.getLast? with
  | none => ⟨name⟩
  | some last => if last = slash then ⟨path.bytes ++ name⟩ else ⟨path.bytes ++ slash :: name⟩

def below (path : Path) (location : List FileName) : Path := location.foldl join path

end Path

end Codemod.Files
