import Codemod.Grammar.Generic

/-!
Types.

A path in a type is read from left to right: as long as more segments follow, a prefix of it
names a module or type that is looked into, and only the last segment is known to name a type.
Type arguments without a separator end such a prefix, so at most one plain segment may follow
them.
-/

set_option autoImplicit false

namespace Codemod.Grammar

open Reader

/-! ### Function parameters -/

def mutableSpecifier : Reader Forest := keywordAs "mutable_specifier" "mut"

def mutableSpecifier? : Reader Forest := onlyIf (·.word == "mut") mutableSpecifier

/-- Whether a path may go on behind what has been read. -/
def Forest.endsLikePath (forest : Forest) : Bool :=
  match forest.lastToken? with
  | some token =>
      ["identifier", "type_identifier", "self", "super", "crate", "metavariable", "..", ">"].contains
        token.kind
  | none => false

/-- A colon behind a pattern. Where the pattern could go on as a path, two colons are not taken
apart. -/
def colonBehind (pattern : Forest) : Reader Forest :=
  fun input =>
    if input.startsWith "::" && pattern.endsLikePath then .stuck (.ofInput input)
    else mark ":" input

/-- Whether the word `self` stands here by itself: no path and no range goes on behind it. -/
def atReceiver (input : Input) : Bool :=
  input.word == "self" &&
    !((input.behind 4).startsWith "::" || (input.behind 4).startsWith "..")

def typedPattern (sub : Readers) (specifier patternReader : Reader Forest) : Reader Forest := do
  let mutability ← specifier
  let pattern ← fills "pattern" patternReader
  let separator ← colonBehind pattern
  let next ← look
  if next.startsWith "..." then
    let dots ← mark "..."
    return Forest.wrap "variadic_parameter" (mutability ++ pattern ++ separator ++ dots)
  else
    let type ← fills "type" (sub (.type true false))
    return Forest.wrap "parameter" (mutability ++ pattern ++ separator ++ type)

/-- A named parameter. The word `mut` in front belongs to the parameter, except in front of a
choice of patterns. -/
def namedParameter (sub : Readers) : Reader Forest :=
  let selfOr (otherwise : Reader Forest) : Reader Forest := fun input =>
    if atReceiver input then keyword "self" input else otherwise input
  let choices := typedPattern sub (Reader.pure []) (selfOr (sub (.pattern true .parameter)))
  fun input =>
    if input.word == "mut" then
      orElse (typedPattern sub mutableSpecifier (selfOr (sub (.pattern false .plain))))
        (fun _ => choices) input
    else choices input

def selfParameter : Reader Forest :=
  node "self_parameter" (do
    let reference ← onlyIf (·.startsWith "&") (mark "&")
    let region ← onlyIf atQuote lifetime
    let mutability ← mutableSpecifier?
    let receiver ← keyword "self"
    require fun next => !next.startsWith ":"
    return reference ++ region ++ mutability ++ receiver)

def variadicParameter : Reader Forest :=
  node "variadic_parameter" (followedBy mutableSpecifier? (mark "..."))

def parameter (sub : Readers) : Reader Forest :=
  followedBy (onlyIf (·.startsWith "#") (attributeItem sub)) (firstOf [
    namedParameter sub, selfParameter, variadicParameter, keyword "_", sub (.type true true)])

def parameters (sub : Readers) : Reader Forest :=
  node "parameters" (inOrder [mark "(", commaList (parameter sub), mark ")"])

/-! ### Function types -/

def externModifier : Reader Forest :=
  node "extern_modifier" (followedBy (keyword "extern")
    (onlyIf (fun input => quoteLength input.rest != 0) string))

def functionModifier : Reader Forest :=
  fun input =>
    match input.word with
    | "extern" => externModifier input
    | "async" => keyword "async" input
    | "default" => keyword "default" input
    | "const" => keyword "const" input
    | "unsafe" => keyword "unsafe" input
    | _ => .stuck (.ofInput input)

def functionModifiers : Reader Forest :=
  node "function_modifiers" (manyOne functionModifier)

def returnType? (sub : Readers) (sums : Bool) : Reader Forest :=
  onlyIf (·.startsWith "->") (followedBy (mark "->")
    (fills "return_type" (sub (.type sums false))))

def functionTypeTail (sub : Readers) (head : Forest) : Reader Forest :=
  node "function_type" (do
    let list ← fills "parameters" (parameters sub)
    let result ← returnType? sub false
    return head ++ list ++ result)

def functionPointer (sub : Readers) : Reader Forest := do
  let head ← followedBy (optional functionModifiers) (keyword "fn")
  functionTypeTail sub head

/-! ### Paths that name types -/

inductive TypePathForm where
  /-- A path that is not yet known to end in a type. -/
  | plain (form : PathForm)
  /-- A generic type. -/
  | generic
  /-- A type inside a generic type. -/
  | member
deriving DecidableEq

def completeType (form : TypePathForm) (forest : Forest) : Option Forest :=
  match form with
  | .plain .name => some (forest.relabel "type_identifier")
  | .plain .primitive => some (forest.relabel "primitive_type")
  | .plain .metavariable => some forest
  | .plain .scoped =>
      match forest.getLast? with
      | some tree =>
          match tree.children.getLast? with
          | some last => if last.kind == "identifier" then some (scopedTypeOfPath forest) else none
          | none => none
      | none => none
  | .plain _ => none
  | .generic => some forest
  | .member => some forest

def genericHead (form : TypePathForm) (forest : Forest) : Option Forest :=
  match form with
  | .plain .softWord => some forest
  | .plain .name => completeType form forest
  | .plain .scoped => completeType form forest
  | .member => some forest
  | _ => none

def functionTrait (form : TypePathForm) (forest : Forest) : Option Forest :=
  match form with
  | .plain .softWord => none
  | _ => genericHead form forest

def typePathTail (sub : Readers) : Nat → TypePathForm → Forest → Reader Forest
  | 0, _, _ => Reader.refuse
  | bound + 1, form, forest => do
      let input ← look
      let finish : Reader Forest := match completeType form forest with
        | some type => Reader.pure type
        | none => Reader.refuse
      if input.startsWith "<" then
        match genericHead form forest with
        | none => finish
        | some head =>
            let arguments ← fills "type_arguments" (sub .typeArguments)
            typePathTail sub bound .generic
              (Forest.wrap "generic_type" (head.fill "type" ++ arguments))
      else if input.startsWith "::" then
        match form with
        | .member => finish
        | .generic =>
            let longer ← node "scoped_type_identifier" (do
              let separator ← mark "::"
              let name ← fills "name" (nameAs "type_identifier" [])
              return forest.fill "path" ++ separator ++ name)
            typePathTail sub bound .member longer
        | .plain pathForm =>
            if (input.behind 2).startsWith "<" then
              if pathForm == .name || pathForm == .scoped then
                let arguments ← turbofish sub
                let longer ← scopedName (genericPath "generic_type" pathForm forest arguments)
                typePathTail sub bound (.plain .scoped) longer
              else Reader.refuse
            else
              let longer ← scopedName forest
              typePathTail sub bound (.plain .scoped) longer
      else if input.startsWith "(" then
        match functionTrait form forest with
        | none => finish
        | some head => functionTypeTail sub (head.fill "trait")
      else if input.startsWith "!" && !input.startsWith "!=" then
        match form with
        | .plain .name => macroCall sub forest
        | .plain .softWord => macroCall sub forest
        | .plain .scoped => macroCall sub forest
        | _ => finish
      else finish

def typePath (sub : Readers) (reserved : List String) : Reader Forest := do
  let input ← look
  if input.startsWith "::" then
    let start ← scopedName []
    typePathTail sub (input.left + 1) (.plain .scoped) start
  else if input.startsWith "<" then
    let bracketed ← bracketedType sub
    let start ← scopedName bracketed
    typePathTail sub (input.left + 1) (.plain .scoped) start
  else
    let head ← pathHead reserved
    typePathTail sub (input.left + 1) (.plain head.form) head.forest

/-! ### Types -/

def traitKinds : List String :=
  ["type_identifier", "scoped_type_identifier", "generic_type", "function_type", "tuple_type"]

def abstractType (sub : Readers) : Reader Forest :=
  node "abstract_type" (inOrder [
    keyword "impl",
    onlyIf (·.word == "for") (followedBy (keyword "for") (typeParameters sub)),
    fills "trait" (do
      let first ← sumOperand sub
      if traitKinds.contains first.kind || first.kind == "removed_trait_bound" then return first
      else
        let rest ← followedBy (mark "+") (sumOperand sub)
        return Forest.wrap "bounded_type" (first ++ rest))])

def typeOfKind (reader : Reader Forest) (kinds : List String) : Reader Forest := do
  let type ← reader
  if kinds.contains type.kind then return type else Reader.refuse

/-- A function pointer type, or a type that starts with a path. Words on the list are not its
first name. -/
def pointerOrPath (sub : Readers) (reserved : List String) : Reader Forest :=
  fun input =>
    if input.word == "default" then
      orElse (functionPointer sub) (fun _ => typePath sub reserved) input
    else if functionWords.contains input.word then functionPointer sub input
    else typePath sub reserved input

def functionTypeForLifetimes (sub : Readers) : Reader Forest := do
  let quantifier ← node "for_lifetimes" (inOrder [
    keyword "for", mark "<", commaListOne lifetime, mark ">"])
  let body ← typeOfKind (pointerOrPath sub (pathWords ++ functionWords)) ["function_type"]
  let comments := body.takeWhile Cst.isComment
  match body.dropWhile Cst.isComment with
  | [type] => return Forest.wrap "function_type" (quantifier ++ comments ++ type.children)
  | _ => Reader.refuse

/-- A type in parentheses, a tuple of types or the empty tuple. Behind the first type no pattern
may stand instead. -/
def tupleType (sub : Readers) (isParameter : Bool) : Reader Forest :=
  fun input =>
    if (input.behind 1).startsWith ")" then
      node "unit_type" (followedBy (mark "(") (mark ")")) input
    else
      node "tuple_type" (inOrder [
        mark "(",
        commaSeparated (sub (.type true isParameter)) (sub (.type true false)),
        optional (mark ","),
        mark ")"]) input

def dynamicType (sub : Readers) : Reader Forest :=
  node "dynamic_type" (followedBy (keyword "dyn") (fills "trait" fun input =>
    if input.word == "for" then higherRanked sub false input
    else if input.startsWith "(" then typeOfKind (tupleType sub false) traitKinds input
    else typeOfKind (pointerOrPath sub traitWords) traitKinds input))

/-- A sum that starts with a lifetime or a capture list, which are no types by themselves. -/
def regionSum (sub : Readers) : Reader Forest :=
  node "bounded_type" (inOrder [sumOperand sub, mark "+", sumOperand sub])

/-- The lifetime of a reference if it has one. A lifetime that starts a sum belongs to it. -/
def region? : Reader Forest :=
  fun input =>
    match lifetime input with
    | .done forest next stop =>
        if next.startsWith "+" then .done [] input ⟨0, 0⟩ else .done forest next stop
    | .stuck _ => .done [] input ⟨0, 0⟩

/-- A reference; with `sums`, to a sum of types. Behind a bare reference mark a pattern may stand
wherever one may stand in front of it. -/
def referenceType (sub : Readers) (sums isParameter : Bool) : Reader Forest :=
  node "reference_type" (do
    let opening ← mark "&"
    let region ← region?
    let mutability ← mutableSpecifier?
    let type ← fills "type" (sub (.type sums (isParameter && region.isEmpty)))
    return opening ++ region ++ mutability ++ type)

def pointerType (sub : Readers) (sums : Bool) : Reader Forest :=
  node "pointer_type" (inOrder [
    mark "*",
    fun input => if input.word == "const" then keyword "const" input else mutableSpecifier input,
    fills "type" (sub (.type sums false))])

def arrayType (sub : Readers) (isParameter : Bool) : Reader Forest :=
  node "array_type" (inOrder [
    mark "[",
    fills "element" (sub (.type true isParameter)),
    onlyIf (·.startsWith ";") (followedBy (mark ";")
      (fills "length" (sub (.expression .plain 0)))),
    mark "]"])

def simpleType (sub : Readers) (isParameter : Bool) : Reader Forest :=
  fun input =>
    let reserved := if isParameter then parameterWords else typeWords
    match input.rest with
    | [] => .stuck (.ofInput input)
    | '&' :: _ => referenceType sub false isParameter input
    | '*' :: _ => pointerType sub false input
    | '(' :: _ => tupleType sub isParameter input
    | '\'' :: _ => regionSum sub input
    | '[' :: _ => arrayType sub isParameter input
    | '!' :: _ => node "never_type" (mark "!") input
    | '?' :: _ =>
        node "removed_trait_bound" (followedBy (mark "?") (sub (.type false false))) input
    | _ =>
        match input.word with
        | "use" => regionSum sub input
        | "impl" => abstractType sub input
        | "dyn" => dynamicType sub input
        | "for" => functionTypeForLifetimes sub input
        | _ => pointerOrPath sub reserved input

def sumTail (sub : Readers) : Nat → Forest → Reader Forest
  | 0, sum => Reader.pure sum
  | bound + 1, sum => do
      let input ← look
      if input.startsWith "+" then
        let rest ← followedBy (mark "+") (sumOperand sub)
        sumTail sub bound (Forest.wrap "bounded_type" (sum ++ rest))
      else return sum

def typeReader (sub : Readers) (sums isParameter : Bool) : Reader Forest :=
  if sums then do
    let input ← look
    let first ← sub (.type false isParameter)
    sumTail sub input.left first
  else simpleType sub isParameter

end Codemod.Grammar
