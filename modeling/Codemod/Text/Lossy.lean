/-!
Bytes that are meant to be text. Where they are not, each longest start of a character that
cannot be completed, or else a single byte, is shown as one replacement character.
-/

set_option autoImplicit false

namespace Codemod.Text

def bytesOf (text : String) : List UInt8 := text.toUTF8.data.toList

def textOf? (bytes : List UInt8) : Option String := String.fromUTF8? ⟨bytes.toArray⟩

def replacement : Char := '\ufffd'

/-- What the first byte of a character asks for: the bits it holds, the least and the greatest
second byte, and the number of bytes that follow. -/
structure Lead where
  bits : Nat
  least : Nat
  greatest : Nat
  following : Nat

/-- The reading of a first byte. Overlong forms, surrogates and numbers beyond the last character
are shut out by the range of the second byte. -/
def lead? (byte : Nat) : Option Lead :=
  if 0xc2 ≤ byte ∧ byte ≤ 0xdf then some ⟨byte - 0xc0, 0x80, 0xbf, 1⟩
  else if byte = 0xe0 then some ⟨0, 0xa0, 0xbf, 2⟩
  else if byte = 0xed then some ⟨0xd, 0x80, 0x9f, 2⟩
  else if 0xe1 ≤ byte ∧ byte ≤ 0xef then some ⟨byte - 0xe0, 0x80, 0xbf, 2⟩
  else if byte = 0xf0 then some ⟨0, 0x90, 0xbf, 3⟩
  else if 0xf1 ≤ byte ∧ byte ≤ 0xf3 then some ⟨byte - 0xf0, 0x80, 0xbf, 3⟩
  else if byte = 0xf4 then some ⟨4, 0x80, 0x8f, 3⟩
  else none

/-- Read bytes one by one. While a character is open, `pending` holds what it still needs. -/
def decodeBytes : (pending : Option Lead) → List UInt8 → List Char
  | none, [] => []
  | some _, [] => [replacement]
  | none, byte :: rest =>
      if byte.toNat < 0x80 then Char.ofNat byte.toNat :: decodeBytes none rest
      else
        match lead? byte.toNat with
        | some lead => decodeBytes (some lead) rest
        | none => replacement :: decodeBytes none rest
  | some lead, byte :: rest =>
      if lead.least ≤ byte.toNat ∧ byte.toNat ≤ lead.greatest then
        let bits := 64 * lead.bits + (byte.toNat - 0x80)
        if lead.following ≤ 1 then Char.ofNat bits :: decodeBytes none rest
        else decodeBytes (some ⟨bits, 0x80, 0xbf, lead.following - 1⟩) rest
      else if byte.toNat < 0x80 then
        replacement :: Char.ofNat byte.toNat :: decodeBytes none rest
      else
        match lead? byte.toNat with
        | some next => replacement :: decodeBytes (some next) rest
        | none => replacement :: replacement :: decodeBytes none rest

/-- The text of bytes, with replacements where they encode none. -/
def lossy (bytes : List UInt8) : String :=
  (textOf? bytes).getD (String.ofList (decodeBytes none bytes))

end Codemod.Text
