import Codemod.Grammar.Closure

/-!
Expressions.

A brace behind a path opens a structure literal, except where the brace of a body may follow.
-/

set_option autoImplicit false

namespace Codemod.Grammar

open Reader

/-! ### Delimited expressions -/

def tupleMembers (sub : Readers) : Nat → Reader Forest
  | 0 => Reader.refuse
  | bound + 1 => fun input =>
      if input.startsWith ")" then Reader.pure [] input
      else
        (do
          let value ← sub (.expression .plain 0)
          let next ← look
          if next.startsWith "," then
            let comma ← mark ","
            let rest ← tupleMembers sub bound
            return value ++ comma ++ rest
          else return value : Reader Forest) input

def parenthesized (sub : Readers) : Reader Forest := do
  let opening ← mark "("
  let attributes ← attributeItems sub
  let input ← look
  if attributes.isEmpty && input.startsWith ")" then
    let closing ← mark ")"
    return Forest.wrap "unit_expression" (opening ++ closing)
  else
    let first ← sub (.expression .plain 0)
    let next ← look
    if attributes.isEmpty && next.startsWith ")" then
      let closing ← mark ")"
      return Forest.wrap "parenthesized_expression" (opening ++ first ++ closing)
    else
      let rest ← inOrder [mark ",", tupleMembers sub (next.left + 1), mark ")"]
      return Forest.wrap "tuple_expression" (opening ++ attributes ++ first ++ rest)

def array (sub : Readers) : Reader Forest :=
  node "array_expression" (inOrder [
    mark "[",
    attributeItems sub,
    fun input =>
      if input.startsWith "]" then Reader.pure [] input
      else if input.startsWith "," then mark "," input
      else
        followedBy (sub (.expression .plain 0)) (fun next =>
          if next.startsWith ";" then
            followedBy (mark ";") (fills "length" (sub (.expression .plain 0))) next
          else
            followedBy
              (many (inOrder [mark ",", attributeItems sub, sub (.expression .plain 0)]))
              (optional (mark ",")) next) input,
    mark "]"])

def fieldInitializer (sub : Readers) : Reader Forest :=
  fun input =>
    if input.startsWith ".." then
      node "base_field_initializer" (followedBy (mark "..") (sub (.expression .plain 0))) input
    else
      (do
        let attributes ← attributeItems sub
        let start ← look
        let next := start.behind (wordLength start.rest)
        if wordLength start.rest != 0 && !next.startsWith ":" then
          let name ← nameAs "identifier" []
          return Forest.wrap "shorthand_field_initializer" (attributes ++ name)
        else
          let rest ← inOrder [
            fills "field" fun next =>
              if wordLength next.rest == 0 then integer next
              else nameAs "field_identifier" [] next,
            mark ":",
            fills "value" (sub (.expression .plain 0))]
          return Forest.wrap "field_initializer" (attributes ++ rest) : Reader Forest) input

def structLiteral (sub : Readers) (name : Forest) : Reader Forest :=
  node "struct_expression" (do
    let body ← fills "body" (node "field_initializer_list" (inOrder [
      mark "\x7b", commaList (fieldInitializer sub), mark "\x7d"]))
    return name.fill "name" ++ body)

def pathExpression (sub : Readers) (place : Place) : Reader Forest := do
  let reading ← path sub expressionWords
  let next ← look
  let bodied := next.startsWith "\x7b" && !place.braceFollows
  match reading.arguments with
  | some generic =>
      if bodied then
        structLiteral sub
          (genericPath "generic_type_with_turbofish" reading.form reading.forest generic)
      else return Forest.wrap "generic_function" (reading.forest.fill "function" ++ generic)
  | none =>
      if bodied && reading.canNameStructure then
        match completeType (.plain reading.form) reading.forest with
        | some name => structLiteral sub name
        | none => Reader.refuse
      else if next.startsWith "!" && !next.startsWith "!=" && reading.canNameMacro then
        macroCall sub reading.forest
      else if reading.form == .ancestor then Reader.refuse
      else return reading.forest

/-! ### Operands -/

/-- A reference. The word `raw` asks for a pointer if a word of mutability follows. -/
def reference (sub : Readers) (place : Place) : Reader Forest :=
  node "reference_expression" (inOrder [
    mark "&",
    fun input =>
      if input.word == "raw" then
        match (input.behind 3).word with
        | "const" => followedBy (keyword "raw") (keyword "const") input
        | "mut" => followedBy (keyword "raw") mutableSpecifier input
        | _ => Reader.pure [] input
      else mutableSpecifier? input,
    fills "value" (sub (.expression place.last Level.unary))])

/-- The label a jump goes to. A label with a colon belongs to an operand instead, two colons open
one behind the label, and in front of a body every label belongs to the body. -/
def target? (place : Place) : Reader Forest :=
  fun input =>
    if atBlock input && input.startsWith "'" && !place.labelFollows then
      match label input with
      | .done name next stop =>
          if next.startsWith ":" && !next.startsWith "::" then Reader.pure [] input
          else .done name next stop
      | .stuck stop => .stuck stop
    else Reader.pure [] input

/-- An operand: what operators and delimiters join. -/
def operand (sub : Readers) (place : Place) : Reader Forest :=
  fun input =>
    if startsLiteral input.rest then literal input
    else if opensBlock place input then sub .blockLike input
    else match input.rest with
      | '-' :: _ =>
          node "unary_expression"
            (followedBy (mark "-") (sub (.expression place.last Level.unary))) input
      | '*' :: _ =>
          node "unary_expression"
            (followedBy (mark "*") (sub (.expression place.last Level.unary))) input
      | '!' :: _ =>
          node "unary_expression"
            (followedBy (mark "!") (sub (.expression place.last Level.unary))) input
      | '&' :: _ => reference sub place input
      | '|' :: _ => closure sub place input
      | '(' :: _ => parenthesized sub input
      | '[' :: _ => array sub input
      | '.' :: '.' :: _ =>
          node "range_expression"
            (followedBy (mark "..") (operand? sub place .range Level.range)) input
      | _ =>
          match input.word with
          | "true" => literal input
          | "false" => literal input
          | "static" => closure sub place input
          | "async" => closure sub place input
          | "move" => closure sub place input
          | "return" =>
              node "return_expression" (followedBy (keyword "return")
                (operand? sub place.last .exit Level.assignment)) input
          | "yield" =>
              node "yield_expression" (followedBy (keyword "yield")
                (operand? sub place.last .exit Level.assignment)) input
          | "break" =>
              node "break_expression" (inOrder [
                keyword "break", target? place,
                operand? sub place.last .loopExit Level.assignment]) input
          | "continue" =>
              node "continue_expression" (followedBy (keyword "continue") (target? place)) input
          | _ => pathExpression sub place input

def expressionReader (sub : Readers) (place : Place) (chain : Chain) (floor : Nat) :
    Reader Forest := do
  let input ← look
  let first ← operand sub place
  operatorTail sub place chain floor (input.left + 1) first

end Codemod.Grammar
