import Codemod.Grammar.Damage
import Codemod.Text.ByteSplit
import Codemod.Text.LineIndex
import Codemod.Tree.Basic

/-!
From source text to syntax trees.

Text that no leaf of the concrete tree covers goes in front of the next leaf, and leaves that overlap
are cut where the one before ended. Where a leaf starts or ends inside a character, or beyond the
end of the text, there is nothing to cut, and the text on both sides of the place is left out.
-/

set_option autoImplicit false

namespace Codemod.Tree

open Codemod.Grammar (Cst Damage)
open Codemod.Text (LineIndex byteCount splitBytes)

/-- The first damaged node of a tree, and how many there are. -/
structure Fault where
  start : Nat
  stop : Nat
  count : Nat
deriving DecidableEq

/-- Why a text is no source file. -/
inductive ParseError where
  /-- The text does not follow the grammar. -/
  | syntaxFault (line column : Nat) (fault : Fault)
deriving DecidableEq

def ParseError.message : ParseError → String
  | syntaxFault line column fault =>
      s!"syntax error at line {line}, column {column} ({fault.count} error node(s))"

/-- An offset in a text, and the text behind it, whole characters only. -/
structure Cursor where
  offset : Nat
  /-- Where the text behind the offset starts. -/
  place : Nat
  rest : List Char

namespace Cursor

def isAligned (cursor : Cursor) : Bool := cursor.place == cursor.offset

/-- The text from the cursor up to an offset, and the cursor there. There is no text unless both
are aligned. -/
def cut (cursor : Cursor) (stop : Nat) : String × Cursor :=
  let (front, back) := splitBytes (stop - cursor.place) cursor.rest
  let after : Cursor := ⟨stop, cursor.place + byteCount front, back⟩
  (if cursor.isAligned && after.isAligned then String.ofList front else "", after)

def cutRest (cursor : Cursor) : String :=
  if cursor.isAligned then String.ofList cursor.rest else ""

end Cursor

def identifierKinds : List String :=
  ["identifier", "type_identifier", "field_identifier", "shorthand_field_identifier"]

/-- The kinds of nodes that hold a quote and a word that is no name. -/
def quotedKinds : List String :=
  ["lifetime", "label", "loop_label"]

def spanOf (index : LineIndex) (tree : Cst) : Span :=
  let place := index.locate tree.start
  ⟨tree.start, tree.stop, place.line, place.column⟩

def cutLeaf (index : LineIndex) (tree : Cst) (cursor : Cursor) : Token × Cursor :=
  let start := max tree.start cursor.offset
  let stop := max tree.stop start
  let (leading, atStart) := cursor.cut start
  let (text, atStop) := atStart.cut stop
  (⟨tree.kind, tree.field, spanOf index tree, leading, text⟩, atStop)

def nodeOfToken (leaf : Token) : Node :=
  if identifierKinds.contains leaf.kind then .ident leaf else .token leaf

mutual

/-- The syntax tree of a concrete tree, and the cursor behind its last leaf. -/
def ofCst (index : LineIndex) : Cst → Cursor → Node × Cursor
  | .node kind field start stop [], cursor =>
      let (leaf, after) := cutLeaf index (.node kind field start stop []) cursor
      (nodeOfToken leaf, after)
  | .node kind field start stop (child :: rest), cursor =>
      let (children, after) :=
        ofForest index (quotedKinds.contains kind) (child :: rest) cursor
      (.branch (Construct.ofGrammarKind kind)
        ⟨kind, field, spanOf index (.node kind field start stop [])⟩ children, after)

/-- The nodes of a run of concrete trees. Under a quote, identifiers are plain tokens. -/
def ofForest (index : LineIndex) (quoted : Bool) : List Cst → Cursor → List Node × Cursor
  | [], cursor => ([], cursor)
  | tree :: rest, cursor =>
      let (node, after) := ofCst index tree cursor
      let (nodes, final) := ofForest index quoted rest after
      ((if quoted then node.asPlain else node) :: nodes, final)

end

/-- The syntax tree of a file whose concrete tree is given. The root is an inner node even if it
has no children. -/
def convert (source : String) (tree : Cst) : SyntaxTree :=
  let text := source.toList
  let index := LineIndex.ofText text
  let (children, final) :=
    ofForest index (quotedKinds.contains tree.kind) tree.children ⟨0, 0, text⟩
  ⟨.branch (Construct.ofGrammarKind tree.kind) ⟨tree.kind, tree.field, spanOf index tree⟩ children,
    final.cutRest⟩

/-- The error of a text whose tree has damaged nodes. It is about the first of them, and about the whole
text if there are none to tell. -/
def damageError (source : String) (damaged : List Damage) : ParseError :=
  let first := damaged.head?.getD ⟨0, source.utf8ByteSize⟩
  let place := (LineIndex.ofText source.toList).locate first.start
  .syntaxFault place.line place.column ⟨first.start, first.stop, max 1 damaged.length⟩

def validate (source : String) : Except ParseError Unit :=
  match Grammar.readFile source with
  | .done _ _ _ => .ok ()
  | .stuck _ => .error (damageError source (Grammar.damageOf source))

def parse (source : String) : Except ParseError SyntaxTree :=
  match Grammar.readFile source with
  | .done forest _ _ => .ok (convert source (Grammar.fileTree source forest))
  | .stuck _ => .error (damageError source (Grammar.damageOf source))

end Codemod.Tree
