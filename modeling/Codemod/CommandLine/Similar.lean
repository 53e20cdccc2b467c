import Codemod.CommandLine.Flag

/-!
Options that may have been meant.

Two words are compared by the letters they share: a letter of one is matched with the first equal
letter of the other that is not far off and not matched yet. Their likeness is the mean of three
shares: of matched letters in each word, and of matched letters that stand in the same order.
-/

set_option autoImplicit false

namespace Codemod.CommandLine

/-- Match one letter: take the first free equal letter at a position from `low` up to below
`high`. -/
def takeLetter (letter : Char) (low high : Nat) :
    (position : Nat) → List (Char × Bool) → Option (List (Char × Bool))
  | _, [] => none
  | position, (other, taken) :: rest =>
      if high ≤ position then none
      else if low ≤ position && other == letter && !taken then some ((other, true) :: rest)
      else (takeLetter letter low high (position + 1) rest).map ((other, taken) :: ·)

/-- Match all letters of a word from a position on. What is left are the matched letters of the
word, and the letters of the other one, each with whether it is matched. -/
def matchLetters (range : Nat) :
    (position : Nat) → List Char → List (Char × Bool) → List Char × List (Char × Bool)
  | _, [], others => ([], others)
  | position, letter :: rest, others =>
      match takeLetter letter (position - range) (position + range + 1) 0 others with
      | some others =>
          let (found, final) := matchLetters range (position + 1) rest others
          (letter :: found, final)
      | none => matchLetters range (position + 1) rest others

def likeness (left right : String) : Float :=
  let range := max left.length right.length / 2 - 1
  let (found, others) :=
    matchLetters range 0 left.toList (right.toList.map fun letter => (letter, false))
  let partners := (others.filter Prod.snd).map Prod.fst
  let count := found.length
  let crossed := (found.zip partners).countP (fun pair => pair.1 != pair.2) / 2
  let share (part whole : Nat) : Float := Float.ofNat part / Float.ofNat whole
  if count = 0 then 0.0
  else
    (share count left.length + share count right.length + share (count - crossed) count) / 3.0

def suggestionThreshold : Float := 0.7

/-- The option most like a word, the last one of several, if one is alike enough. -/
def similar? (word : String) : Option Flag :=
  let better (best : Option (Float × Flag)) (flag : Flag) : Option (Float × Flag) :=
    let score := likeness word flag.long
    if suggestionThreshold < score then
      match best with
      | some (top, other) => if score < top then some (top, other) else some (score, flag)
      | none => some (score, flag)
    else best
  (Flag.all.foldl better none).map Prod.snd

end Codemod.CommandLine
