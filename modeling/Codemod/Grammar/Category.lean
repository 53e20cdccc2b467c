import Codemod.Grammar.Literal

/-!
The syntactic categories that contain one another.

Each module of the grammar reads some categories and takes the reader of all of them as a
parameter, so that no module depends on a later one; the knot is tied once, where a whole file
is read.
-/

set_option autoImplicit false

namespace Codemod.Grammar

/-- What may follow an expression where it stands. -/
structure Place where
  /-- An opening brace may follow, so a brace ends the expression. -/
  braceFollows : Bool
  /-- The brace may have a label. -/
  labelFollows : Bool
  /-- The expression is the end of something that may be called. -/
  callFollows : Bool
  /-- The word `else` may follow, as it does behind the value of a declaration. -/
  elseFollows : Bool

namespace Place

def plain : Place := ⟨false, false, false, true⟩

def beforeBlock : Place := ⟨true, true, false, false⟩

def beforeArms : Place := ⟨true, false, false, false⟩

def guard : Place := ⟨false, false, false, false⟩

def last (place : Place) : Place := { place with callFollows := true }

end Place

/-- What else may stand where a pattern stands, or behind it. -/
inductive PatternPlace where
  /-- Nothing that would matter. -/
  | plain
  /-- A guard may follow: the pattern is that of a match arm. -/
  | arm
  /-- A type may stand here instead. -/
  | parameter
deriving DecidableEq

namespace PatternPlace

/-- The place behind something that only a pattern starts with. -/
def behind : PatternPlace → PatternPlace
  | parameter => plain
  | place => place

def inside : PatternPlace → PatternPlace
  | arm => plain
  | place => place

end PatternPlace

/-- The kinds of token trees: arguments of a macro call, and the two sides of a macro rule. -/
inductive TokenTreeSort where
  | arguments
  | ruleBody
  | rulePattern
deriving DecidableEq

inductive Category where
  /-- A type; with `sums`, joined by plus signs. `parameter` holds where a pattern might stand
  instead. -/
  | type (sums parameter : Bool)
  /-- A pattern; with `choices`, joined by bars. -/
  | pattern (choices : Bool) (place : PatternPlace)
  /-- An expression of operators that bind tighter than `floor`. -/
  | expression (place : Place) (floor : Nat)
  /-- An operand of a chain of conditions: an expression without a conjunction at its top. -/
  | conjunct (place : Place)
  /-- The condition of a branch, loop or match arm. -/
  | condition (place : Place)
  /-- The arguments of a generic type or function, in angle brackets. -/
  | typeArguments
  /-- A colon and the bounds behind it. -/
  | traitBounds
  /-- A block, with or without label. -/
  | block
  /-- An expression that ends with a block. -/
  | blockLike
  /-- The braces of a module, trait or implementation. -/
  | declarations
  /-- A token tree. -/
  | tokenTree (sort : TokenTreeSort)
  /-- What stands between the delimiters of a token tree. -/
  | tokens (sort : TokenTreeSort)
  /-- What an import names. -/
  | useClause

abbrev Readers := Category → Reader Forest

end Codemod.Grammar
