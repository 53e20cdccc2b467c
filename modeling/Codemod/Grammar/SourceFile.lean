import Codemod.Grammar.Statement

/-!
Whole files.

Here the readers of all categories are tied together. Every reader that calls another through
the categories has read a token or moved to a smaller category, so the depth of the calls is
bounded by the length of the file; `readers` takes that bound as its first argument.

A file may open with a byte order mark and with a line that names its interpreter.
-/

set_option autoImplicit false

namespace Codemod.Grammar

open Reader

def readCategory (sub : Readers) : Category → Reader Forest
  | .type sums isParameter => typeReader sub sums isParameter
  | .pattern choices place => patternReader sub choices place
  | .expression place floor => expressionReader sub place .free floor
  | .conjunct place => expressionReader sub place .operand 0
  | .condition place => condition sub (expressionReader sub place .leading 0) place
  | .typeArguments => typeArguments sub
  | .traitBounds => traitBounds sub
  | .block => block sub
  | .blockLike => blockLike sub
  | .declarations => declarations sub
  | .tokenTree sort => tokenTree sub sort
  | .tokens sort => treeTokens sub sort
  | .useClause => useClause sub

/-- The readers of all categories, nested at most as deep as the first argument says. -/
def readers : Nat → Readers
  | 0, _ => Reader.refuse
  | depth + 1, category => readCategory (readers depth) category

/-- The characters of the line that names an interpreter, its end included, if the text starts
with one. -/
def interpreterLine? : List Char → Option Nat
  | '#' :: '!' :: rest =>
      let line := rest.takeWhile (· != '\n')
      if line.length < rest.length && line.head? != some '[' && !line.any isNul then
        some (line.length + 3)
      else none
  | _ => none

def interpreterLine : Reader Forest :=
  fun input =>
    match interpreterLine? input.rest with
    | some length => take "shebang" length input
    | none => Reader.pure [] input

def fileStatements (sub : Readers) : Nat → Reader Forest
  | 0 => Reader.refuse
  | bound + 1 => do
      let input ← look
      if input.isEnd then return input.comments
      else
        let first ← statement sub
        if first.closes then Reader.refuse
        else
          let rest ← fileStatements sub bound
          return first.forest ++ rest

def Input.ofSource (source : String) : Input :=
  let text := source.toList
  match text with
  | '\uFEFF' :: rest => ⟨rest, rest.length, 3, 3, []⟩
  | _ => ⟨text, text.length, 0, 0, []⟩

def readFile (source : String) : Reading Forest :=
  let input := Input.ofSource source
  let sub := readers (4 * input.left + 8)
  (do
    settled
    let line ← interpreterLine
    let rest ← fileStatements sub (input.left + 1)
    return line ++ rest : Reader Forest) input

/-- The tree of a file that has been read: it reaches from its first child to the end of the
text. -/
def fileTree (source : String) (forest : Forest) : Cst :=
  let stop := source.utf8ByteSize
  .node "source_file" none (forest.head?.elim stop Cst.start) stop forest

end Codemod.Grammar
