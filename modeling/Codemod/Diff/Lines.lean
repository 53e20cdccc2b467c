/-!
The lines of a text, each with what ends it: a line feed, a carriage return, or a carriage return
with a line feed right behind it. The last line may have no end.
-/

set_option autoImplicit false

namespace Codemod.Diff

def splitLines : List Char → List (List Char)
  | [] => []
  | '\r' :: '\n' :: rest => ['\r', '\n'] :: splitLines rest
  | c :: rest =>
      if c = '\n' ∨ c = '\r' then [c] :: splitLines rest
      else
        match splitLines rest with
        | [] => [[c]]
        | line :: more => (c :: line) :: more

theorem flatten_splitLines (text : List Char) : (splitLines text).flatten = text := by
  fun_induction splitLines text <;> simp_all

def linesOf (text : String) : Array String :=
  ((splitLines text.toList).map String.ofList).toArray

def isEnded (line : String) : Bool :=
  line.toList.getLast?.any fun c => c == '\n' || c == '\r'

end Codemod.Diff
