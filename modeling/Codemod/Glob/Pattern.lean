/-!
Patterns of names.

A question mark stands for any character, a star for any run of characters, and brackets for one
of the characters they list, or with an exclamation mark for one they do not list. Two stars
stand for any run of characters that ends behind a slash, or at the end; they have to fill the
space between two slashes.
-/

set_option autoImplicit false

namespace Codemod.Glob

inductive CharRange where
  | single (c : Char)
  | range (first last : Char)
deriving DecidableEq, Repr

def CharRange.contains : CharRange → Char → Bool
  | single listed, c => listed == c
  | range first last, c => first ≤ c && c ≤ last

inductive Piece where
  | literal (c : Char)
  | anyChar
  | anyRun
  | anyComponents
  | oneOf (ranges : List CharRange)
  | noneOf (ranges : List CharRange)
deriving DecidableEq, Repr

abbrev Pattern := List Piece

inductive Mistake where
  | tooManyStars
  | starsNotAlone
  | invalidRange
deriving DecidableEq, Repr

def Mistake.message : Mistake → String
  | tooManyStars => "wildcards are either regular `*` or recursive `**`"
  | starsNotAlone => "recursive wildcards must form a single path component"
  | invalidRange => "invalid range pattern"

structure PatternError where
  position : Nat
  mistake : Mistake
deriving DecidableEq, Repr

def PatternError.message (error : PatternError) : String :=
  s!"Pattern syntax error near position {error.position}: {error.mistake.message}"

/-! ### Reading patterns -/

/-- The characters between brackets. A dash between two characters makes a range. -/
def rangesOf : List Char → List CharRange
  | first :: '-' :: last :: rest => .range first last :: rangesOf rest
  | c :: rest => .single c :: rangesOf rest
  | [] => []

/-- The characters up to a closing bracket, which is not taken for one in the first place, and
those behind it. -/
def bracketed? : List Char → Option (List Char × List Char)
  | [] => none
  | first :: rest =>
      match rest.dropWhile (· != ']') with
      | [] => none
      | _ :: after => some (first :: rest.takeWhile (· != ']'), after)

/-- A bracket behind the opening one: what it stands for, and what follows. -/
def bracket? : List Char → Option (Piece × List Char)
  | '!' :: rest => (bracketed? rest).map fun (listed, after) => (.noneOf (rangesOf listed), after)
  | rest => (bracketed? rest).map fun (listed, after) => (.oneOf (rangesOf listed), after)

/-- What precedes the rest of a pattern: its last character, the pieces read, last one first, and
the number of characters. -/
structure Reading where
  last : Option Char
  pieces : List Piece
  position : Nat

def Reading.add (reading : Reading) (piece : Piece) (last : Char) (count : Nat) : Reading :=
  ⟨some last, piece :: reading.pieces, reading.position + count⟩

/-- Add two stars. Right behind two others they add nothing, unless those open the pattern. -/
def Reading.addStars (reading : Reading) (last : Char) (count : Nat) : Reading :=
  match reading.pieces with
  | .anyComponents :: _ :: _ => ⟨some last, reading.pieces, reading.position + count⟩
  | _ => reading.add .anyComponents last count

def readPieces : (bound : Nat) → Reading → List Char → Except PatternError Pattern
  | 0, reading, _ => .ok reading.pieces.reverse
  | _, reading, [] => .ok reading.pieces.reverse
  | bound + 1, reading, '?' :: rest => readPieces bound (reading.add .anyChar '?' 1) rest
  | bound + 1, reading, '*' :: rest =>
      let more := (rest.takeWhile (· == '*')).length
      match more with
      | 0 => readPieces bound (reading.add .anyRun '*' 1) rest
      | 1 =>
          if reading.position ≠ 0 ∧ reading.last ≠ some '/' then
            .error ⟨reading.position - 1, .starsNotAlone⟩
          else
            match rest.drop 1 with
            | [] => .ok (reading.addStars '*' 2).pieces.reverse
            | '/' :: after => readPieces bound (reading.addStars '/' 3) after
            | _ => .error ⟨reading.position + 2, .starsNotAlone⟩
      | _ => .error ⟨reading.position + 2, .tooManyStars⟩
  | bound + 1, reading, '[' :: rest =>
      match bracket? rest with
      | some (piece, after) =>
          readPieces bound (reading.add piece ']' (1 + rest.length - after.length)) after
      | none => .error ⟨reading.position, .invalidRange⟩
  | bound + 1, reading, c :: rest => readPieces bound (reading.add (.literal c) c 1) rest

def Pattern.ofText (text : String) : Except PatternError Pattern :=
  readPieces text.length ⟨none, [], 0⟩ text.toList

/-! ### Matching -/

def behindSlashes : List Char → List (List Char)
  | [] => []
  | c :: rest => if c = '/' then rest :: behindSlashes rest else behindSlashes rest

/-- All ends of a text, the longest first. -/
def ends : List Char → List (List Char)
  | [] => [[]]
  | c :: rest => (c :: rest) :: ends rest

def Piece.admits : Piece → Char → Bool
  | literal expected, c => expected == c
  | anyChar, _ => true
  | oneOf ranges, c => ranges.any fun range => range.contains c
  | noneOf ranges, c => !ranges.any fun range => range.contains c
  | anyRun, _ => false
  | anyComponents, _ => false

def matchesChars : Pattern → List Char → Bool
  | [], text => text.isEmpty
  | .anyRun :: rest, text => (ends text).any fun left => matchesChars rest left
  | .anyComponents :: rest, text =>
      (text :: behindSlashes text ++ [[]]).any fun left => matchesChars rest left
  | _ :: _, [] => false
  | piece :: rest, c :: text => piece.admits c && matchesChars rest text

def Pattern.matches (pattern : Pattern) (text : String) : Bool :=
  matchesChars pattern text.toList

end Codemod.Glob
