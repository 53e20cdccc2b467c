/-!
Cutting a text at a byte offset.

Offsets count the bytes of the UTF-8 form. A cut inside a character is made behind it, and a cut
beyond the end of the text is made at its end, so the two halves always make up the text.
-/

set_option autoImplicit false

namespace Codemod.Text

def byteCount : List Char → Nat
  | [] => 0
  | c :: rest => c.utf8Size + byteCount rest

def splitBytes : Nat → List Char → List Char × List Char
  | 0, text => ([], text)
  | _ + 1, [] => ([], [])
  | count + 1, c :: rest =>
      let (front, back) := splitBytes (count + 1 - c.utf8Size) rest
      (c :: front, back)

theorem splitBytes_append (count : Nat) (text : List Char) :
    (splitBytes count text).1 ++ (splitBytes count text).2 = text := by
  induction text generalizing count with
  | nil => cases count <;> rfl
  | cons c rest ih =>
      cases count with
      | zero => rfl
      | succ count => simp [splitBytes, ih]

end Codemod.Text
