import Codemod.Grammar.Path

/-!
Generics: bounds, parameters and arguments.

A plus sign in a list of bounds separates bounds, while elsewhere it makes a sum of types. A
capture list is no bound by itself: behind the first bound it makes a sum with it, and further on
it needs an operand of its own.
-/

set_option autoImplicit false

namespace Codemod.Grammar

open Reader

/-- Whether a quote stands here; where types are read it can only open a lifetime. -/
def atQuote (input : Input) : Bool := input.startsWith "'"

/-! ### Bounds -/

def useBounds : Reader Forest :=
  node "use_bounds" (inOrder [
    keyword "use",
    mark "<",
    commaList fun input =>
      if atQuote input then lifetime input else nameAs "type_identifier" [] input,
    mark ">"])

def sumOperand (sub : Readers) : Reader Forest :=
  fun input =>
    if atQuote input then lifetime input
    else if input.word == "use" then useBounds input
    else sub (.type false false) input

def constDefault (sub : Readers) : Reader Forest :=
  fun input =>
    if input.startsWith "-" then negativeLiteral input
    else if startsLiteral input.rest || input.word == "true" || input.word == "false" then
      literal input
    else if input.startsWith "\x7b" || atQuote input then sub .block input
    else nameAs "identifier" [] input

/-- One parameter of a generic item, behind its attributes. Words on the list are no names of
constants. -/
def typeParameter (sub : Readers) (reserved : List String) : Reader Forest :=
  fun input =>
    if metavariableLength input.rest != 0 then metavariable input
    else if atQuote input then
      node "lifetime_parameter" (followedBy (fills "name" lifetime)
        (onlyIf (·.startsWith ":") (fills "bounds" (sub .traitBounds)))) input
    else if input.word == "const" then
      node "const_parameter" (inOrder [
        keyword "const",
        fills "name" (nameAs "identifier" reserved),
        mark ":",
        fills "type" (sub (.type true false)),
        onlyIf (·.startsWith "=") (followedBy (mark "=") (fills "value" (constDefault sub)))])
        input
    else
      node "type_parameter" (inOrder [
        fills "name" (nameAs "type_identifier" []),
        onlyIf (·.startsWith ":") (fills "bounds" (sub .traitBounds)),
        onlyIf (·.startsWith "=")
          (followedBy (mark "=") (fills "default_type" (sub (.type true false))))]) input

/-- The parameters of a generic item, the first of which no constant with a name on the list. -/
def typeParametersExcept (sub : Readers) (reserved : List String) : Reader Forest :=
  let parameter (reserved : List String) : Reader Forest := do
    let attributes ← attributeItems sub
    let rest ← typeParameter sub (if attributes.isEmpty then reserved else [])
    return attributes ++ rest
  node "type_parameters" (inOrder [
    mark "<",
    parameter reserved,
    many (followedBy (mark ",") (parameter [])),
    optional (mark ","),
    mark ">"])

def typeParameters (sub : Readers) : Reader Forest := typeParametersExcept sub []

/-- A type that is generic in lifetimes; with `sums`, the type may be a sum. -/
def higherRanked (sub : Readers) (sums : Bool) : Reader Forest :=
  node "higher_ranked_trait_bound" (inOrder [
    keyword "for",
    fills "type_parameters" (typeParameters sub),
    fills "type" (sub (.type sums false))])

def captureTail : Nat → Forest → Reader Forest
  | 0, bound => Reader.pure bound
  | count + 1, bound => do
      let input ← look
      if input.startsWith "+" && (input.behind 1).word == "use" then
        let rest ← followedBy (mark "+") useBounds
        captureTail count (Forest.wrap "bounded_type" (bound ++ rest))
      else return bound

def traitBound (sub : Readers) : Reader Forest :=
  fun input =>
    if input.word == "for" then higherRanked sub false input
    else if atQuote input then lifetime input
    else sub (.type false false) input

def firstBound (sub : Readers) : Reader Forest := do
  let input ← look
  let bound ← traitBound sub
  if input.word == "for" then return bound else captureTail input.left bound

def traitBounds (sub : Readers) : Reader Forest :=
  node "trait_bounds" (inOrder [
    mark ":", firstBound sub, many (followedBy (mark "+") (traitBound sub))])

/-! ### Arguments -/

/-- A type read where a name would be bound, turned into the name and its arguments. -/
def bindingHead : Forest → Option Forest
  | [] => none
  | [.node "type_identifier" _ start stop children] =>
      some [.node "type_identifier" (some "name") start stop children]
  | [.node "generic_type" _ _ _ (.node "type_identifier" _ start stop children :: rest)] =>
      some (.node "type_identifier" (some "name") start stop children :: rest)
  | tree :: rest => if tree.isComment then (bindingHead rest).map (tree :: ·) else none

def typeArgument (sub : Readers) : Reader Forest :=
  fun input =>
    if startsLiteral input.rest || input.word == "true" || input.word == "false" then
      literal input
    else if input.startsWith "\x7b" then sub .block input
    else if atQuote input then
      orElse (sub (.type true false)) (fun _ => lifetime) input
    else
      (do
        let type ← sub (.type true false)
        let next ← look
        if next.startsWith "=" then
          match bindingHead type with
          | none => Reader.refuse
          | some head =>
              let rest ← followedBy (mark "=") (fills "type" (sub (.type true false)))
              return Forest.wrap "type_binding" (head ++ rest)
        else return type : Reader Forest) input

def typeArguments (sub : Readers) : Reader Forest :=
  node "type_arguments" (inOrder [
    mark "<",
    commaListOne (followedBy (typeArgument sub) (onlyIf (·.startsWith ":") (traitBounds sub))),
    mark ">"])

def typeParameters? (sub : Readers) : Reader Forest :=
  onlyIf (·.startsWith "<") (fills "type_parameters" (typeParameters sub))

end Codemod.Grammar
