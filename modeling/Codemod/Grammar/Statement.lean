import Codemod.Grammar.Item

/-!
Statements and blocks.

A statement that starts with something that ends with a block is complete behind it, unless an
operator follows that could not start the next statement. A macro call is a statement by itself
unless an operator or a semicolon follows. The last expression of a block needs no semicolon.
-/

set_option autoImplicit false

namespace Codemod.Grammar

open Reader

/-- A statement; `closes` holds for an expression without semicolon, which only a closing brace
may follow. -/
structure Statement where
  forest : Forest
  closes : Bool

def endStatement (value : Forest) : Reader Statement := do
  let next ← look
  if next.startsWith ";" then
    let closing ← mark ";"
    return ⟨Forest.wrap "expression_statement" (value ++ closing), false⟩
  else return ⟨value, value.kind != "macro_invocation"⟩

def statement (sub : Readers) : Reader Statement := do
  let start ← look
  if opensDeclaration start then
    let forest ← declaration sub
    return ⟨forest, false⟩
  else if opensBlock .plain start then
    let block ← sub .blockLike
    let next ← look
    if continuesStatement next then
      let value ← operatorTail sub .plain .free 0 (next.left + 1) block
      endStatement value
    else return ⟨Forest.wrap "expression_statement" block, false⟩
  else
    let value ← sub (.expression .plain 0)
    endStatement value

def statements (sub : Readers) : Nat → Reader Forest
  | 0 => Reader.refuse
  | bound + 1 => do
      let input ← look
      if input.startsWith "\x7d" then return []
      else
        let first ← statement sub
        if first.closes then return first.forest
        else
          let rest ← statements sub bound
          return first.forest ++ rest

def block (sub : Readers) : Reader Forest :=
  node "block" (inOrder [
    onlyIf atQuote labelColon,
    mark "\x7b",
    fun input => statements sub (input.left + 1) input,
    mark "\x7d"])

end Codemod.Grammar
