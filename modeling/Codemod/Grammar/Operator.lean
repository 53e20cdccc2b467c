import Codemod.Grammar.Pattern

/-!
Operators between and behind operands.

Operators are read by precedence: `.expression place floor` reads an operand and every operator
behind it that binds tighter than `floor`. All binary operators associate to the left,
assignment among them. A prefix form reads its operand at its own level, whatever surrounds it,
so a closure or a `return` takes everything that follows.

The operand of `return` and `yield` is there whenever something that can start an expression
follows; that of `break` and of an open range only if what follows could not as well continue
the expression.
-/

set_option autoImplicit false

namespace Codemod.Grammar

open Reader

/-! ### Precedence -/

namespace Level

def assignment : Nat := 1
def range : Nat := 2
def disjunction : Nat := 3
def conjunction : Nat := 4
def comparison : Nat := 5
def bitOr : Nat := 6
def bitXor : Nat := 7
def bitAnd : Nat := 8
def shift : Nat := 9
def sum : Nat := 10
def product : Nat := 11
def cast : Nat := 12
def unary : Nat := 13

end Level

inductive Operator where
  | binary (level : Nat)
  | assign
  | compound
  | range
  | field
  | question
  | call
  | index
deriving DecidableEq

/-- The operators, longer marks first. An arrow is no operator, and listed so that it is not
mistaken for an assignment. -/
def operators : List (String × Option Operator) := [
  ("<<=", some .compound), (">>=", some .compound), ("...", some .range), ("..=", some .range),
  ("=>", none),
  ("&&", some (.binary Level.conjunction)), ("||", some (.binary Level.disjunction)),
  ("==", some (.binary Level.comparison)), ("!=", some (.binary Level.comparison)),
  ("<=", some (.binary Level.comparison)), (">=", some (.binary Level.comparison)),
  ("<<", some (.binary Level.shift)), (">>", some (.binary Level.shift)),
  ("+=", some .compound), ("-=", some .compound), ("*=", some .compound), ("/=", some .compound),
  ("%=", some .compound), ("&=", some .compound), ("|=", some .compound), ("^=", some .compound),
  ("..", some .range),
  ("+", some (.binary Level.sum)), ("-", some (.binary Level.sum)),
  ("*", some (.binary Level.product)), ("/", some (.binary Level.product)),
  ("%", some (.binary Level.product)),
  ("^", some (.binary Level.bitXor)), ("&", some (.binary Level.bitAnd)),
  ("|", some (.binary Level.bitOr)),
  ("<", some (.binary Level.comparison)), (">", some (.binary Level.comparison)),
  ("=", some .assign), (".", some .field), ("?", some .question), ("(", some .call),
  ("[", some .index)]

def operatorAt (input : Input) : Option (String × Operator) :=
  match operators.find? fun entry => input.startsWith entry.1 with
  | some (text, some operator) => some (text, operator)
  | _ => none

/-- How tight an operator binds. Those behind their operand bind tighter than any other. -/
def Operator.level : Operator → Nat
  | .binary level => level
  | .assign => Level.assignment
  | .compound => Level.assignment
  | .range => Level.range
  | _ => Level.unary + 1

/-- Which conjunctions an expression leaves to the chain of conditions it is part of. -/
inductive Chain where
  /-- None: all operators belong to the expression. -/
  | free
  /-- Every one. -/
  | operand
  /-- One in front of a further binding condition. -/
  | leading
deriving DecidableEq

def Chain.claims (chain : Chain) (input : Input) : Bool :=
  match chain with
  | .free => false
  | .operand => input.startsWith "&&"
  | .leading => input.startsWith "&&" && (input.behind 2).word == "let"

inductive OperandOf where
  | exit
  | loopExit
  | range
deriving DecidableEq

def atBlock (input : Input) : Bool :=
  input.startsWith "\x7b" || (input.startsWith "'" && !startsLiteral input.rest)

/-- Whether the block at the input belongs to what surrounds the expression. -/
def ownsBlock (place : Place) (input : Input) : Bool :=
  if input.startsWith "\x7b" then place.braceFollows else place.labelFollows

def operandFollows (place : Place) (of : OperandOf) (input : Input) : Bool :=
  let eager := of == .exit
  match input.word with
  | "" =>
      match operators.find? fun entry => input.startsWith entry.1 with
      | some (text, _) =>
          if text == "(" then eager || (of == .range && !place.callFollows)
          else eager && ["-", "*", "&", "<", "|", "[", ".."].contains text
      | none =>
          if atBlock input then eager || !ownsBlock place input
          else input.startsWith "!" || input.startsWith "::" ||
            startsLiteral input.rest || metavariableLength input.rest != 0
  | "as" => false
  | "else" => !place.elseFollows
  | _ => true

def operand? (sub : Readers) (place : Place) (of : OperandOf) (floor : Nat) : Reader Forest :=
  onlyIf (operandFollows place of) (sub (.expression place floor))

/-! ### Operators -/

def arguments (sub : Readers) : Reader Forest :=
  node "arguments" (inOrder [
    mark "(",
    commaList (followedBy (attributeItems sub) (sub (.expression .plain 0))),
    mark ")"])

def member (sub : Readers) (value : Forest) : Reader Forest := do
  let dot ← mark "."
  let input ← look
  if input.word == "await" then
    let word ← keyword "await"
    return Forest.wrap "await_expression" (value ++ dot ++ word)
  else
    let name ← fills "field" fun next =>
      if wordLength next.rest == 0 then integer next else nameAs "field_identifier" [] next
    let whole := Forest.wrap "field_expression" (value.fill "value" ++ dot ++ name)
    let next ← look
    if next.startsWith "::" && (next.behind 2).startsWith "<" then
      let generic ← turbofish sub
      return Forest.wrap "generic_function" (whole.fill "function" ++ generic)
    else return whole

def applyOperator (sub : Readers) (place : Place) (value : Forest) (text : String) :
    Operator → Reader Forest
  | .binary level => do
      let operator ← fills "operator" (mark text)
      let right ← fills "right" (sub (.expression place.last level))
      return Forest.wrap "binary_expression" (value.fill "left" ++ operator ++ right)
  | .assign => do
      let operator ← mark text
      let right ← fills "right" (sub (.expression place.last Level.assignment))
      return Forest.wrap "assignment_expression" (value.fill "left" ++ operator ++ right)
  | .compound => do
      let operator ← fills "operator" (mark text)
      let right ← fills "right" (sub (.expression place.last Level.assignment))
      return Forest.wrap "compound_assignment_expr" (value.fill "left" ++ operator ++ right)
  | .range => do
      let operator ← mark text
      let right ←
        if text == ".." then operand? sub place .range Level.range
        else sub (.expression place Level.range)
      return Forest.wrap "range_expression" (value ++ operator ++ right)
  | .field => member sub value
  | .question => do
      let operator ← mark text
      return Forest.wrap "try_expression" (value ++ operator)
  | .call => do
      let list ← fills "arguments" (arguments sub)
      return Forest.wrap "call_expression" (value.fill "function" ++ list)
  | .index => do
      let rest ← inOrder [mark "[", sub (.expression .plain 0), mark "]"]
      return Forest.wrap "index_expression" (value ++ rest)

def operatorTail (sub : Readers) (place : Place) (chain : Chain) (floor : Nat) :
    Nat → Forest → Reader Forest
  | 0, value => Reader.pure value
  | bound + 1, value => do
      let input ← look
      if chain.claims input then return value
      else if input.word == "as" then
        if floor < Level.cast then
          let rest ← followedBy (keyword "as") (fills "type" (sub (.type false false)))
          operatorTail sub place chain floor bound
            (Forest.wrap "type_cast_expression" (value.fill "value" ++ rest))
        else return value
      else
        match operatorAt input with
        | none => return value
        | some (text, operator) =>
            if floor < operator.level && !(operator == .call && value.kind == "range_expression")
            then
              let longer ← applyOperator sub place value text operator
              operatorTail sub place chain floor bound longer
            else return value

def continuesWithout (texts : List String) (input : Input) : Bool :=
  input.word == "as" ||
    match operatorAt input with
    | some (text, _) => !texts.contains text
    | none => false

/-- Whether a match arm that ends with a block goes on: the operator cannot start a pattern. -/
def continuesArm : Input → Bool :=
  continuesWithout ["-", "&", "|", "<", "(", "[", "..", "..="]

/-- Whether a statement that ends with a block goes on: the operator cannot start a
statement. -/
def continuesStatement : Input → Bool :=
  continuesWithout ["-", "*", "&", "|", "<", "(", "[", ".."]

end Codemod.Grammar
