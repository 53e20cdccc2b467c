import Codemod.Tree.Parse

/-!
Printing a tree, with checks: every identifier has a text, and the printed text is a source file
again.

One walk writes the leaves and notes the first identifier without a text on the way.
-/

set_option autoImplicit false

namespace Codemod.Tree

inductive PrintError where
  /-- An identifier has lost its text. -/
  | emptyIdentifier (kind : String) (line column : Nat)
  /-- The text of the tree is no source file. -/
  | invalidOutput (cause : ParseError)
deriving DecidableEq

def PrintError.message : PrintError → String
  | emptyIdentifier kind line column => s!"empty {kind} at line {line}, column {column}"
  | invalidOutput cause => s!"printed source no longer parses: {cause.message}"

/-- What a walk has written so far, and the first identifier without a text that it met. -/
structure Draft where
  text : String
  empty? : Option Token

namespace Draft

def blank : Draft := ⟨"", none⟩

def write (draft : Draft) (leaf : Token) : Draft :=
  { draft with text := draft.text ++ leaf.leading ++ leaf.text }

def note (draft : Draft) (leaf : Token) : Draft :=
  if leaf.text.isEmpty && draft.empty?.isNone then { draft with empty? := some leaf } else draft

end Draft

namespace Node

mutual

def draft : Node → Draft → Draft
  | .ident leaf, written => (written.note leaf).write leaf
  | .token leaf, written => written.write leaf
  | .branch _ _ children, written => draftAll children written

def draftAll : List Node → Draft → Draft
  | [], written => written
  | node :: rest, written => draftAll rest (draft node written)

end

end Node

def print (tree : SyntaxTree) : Except PrintError String :=
  let written := tree.root.draft .blank
  match written.empty? with
  | some leaf => .error (.emptyIdentifier leaf.kind leaf.span.line leaf.span.column)
  | none =>
      let text := written.text ++ tree.trailing
      match validate text with
      | .ok () => .ok text
      | .error cause => .error (.invalidOutput cause)

end Codemod.Tree
