/-!
Text for terminals. A style is switched on in front of a text and off behind it; where colours are
not wanted, the text stands alone.
-/

set_option autoImplicit false

namespace Codemod.Text

/-- A style: the numbers of the control sequences that switch it on. -/
structure Style where
  codes : List Nat
deriving DecidableEq, Repr

namespace Style

def plain : Style := ⟨[]⟩
def bold : Style := ⟨[1]⟩
def dimmed : Style := ⟨[2]⟩
def italic : Style := ⟨[3]⟩
def red : Style := ⟨[31]⟩
def green : Style := ⟨[32]⟩
def yellow : Style := ⟨[33]⟩
def blue : Style := ⟨[34]⟩
def purple : Style := ⟨[35]⟩
def boldRed : Style := ⟨[1, 31]⟩
def boldUnderlined : Style := ⟨[1, 4]⟩

def sequence (code : Nat) : String := s!"\x1b[{code}m"

def paint (style : Style) (colored : Bool) (text : String) : String :=
  if colored && !style.codes.isEmpty then
    String.join (style.codes.map sequence) ++ text ++ sequence 0
  else text

end Style

end Codemod.Text
