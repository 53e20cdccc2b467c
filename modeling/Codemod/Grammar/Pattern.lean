import Codemod.Grammar.Type

/-!
Patterns.

A name may turn out to be a binding, the path of a structure or the end of a range; as with
types, what follows the path decides.
-/

set_option autoImplicit false

namespace Codemod.Grammar

open Reader

def rangeMark? (input : Input) : Option String :=
  ["...", "..=", ".."].find? fun text => input.startsWith text

def rangeEnd (sub : Readers) : Reader Forest :=
  fun input =>
    if input.startsWith "-" then negativeLiteral input
    else if startsLiteral input.rest || input.word == "true" || input.word == "false" then
      literal input
    else plainPath sub input

/-- Whether an end of a range stands here. In front of a guard the word that opens it is none, and
elsewhere the words that may follow a pattern are none. -/
def atRangeEnd (place : PatternPlace) (input : Input) : Bool :=
  match input.word with
  | "if" => place != .arm
  | "in" => place == .arm
  | "else" => place == .arm
  | "" =>
      input.startsWith "-" || startsLiteral input.rest || input.startsWith "::" ||
        input.startsWith "<" || metavariableLength input.rest != 0
  | _ => true

def rangeTail (sub : Readers) (place : PatternPlace) (lower : Forest) : Reader Forest :=
  fun input =>
    match rangeMark? input with
    | none => .stuck (.ofInput input)
    | some text =>
        node "range_pattern" (do
          let operator ← mark text
          let next ← look
          let upper ← if text == ".." && !atRangeEnd place next then Reader.pure []
            else fills "right" (rangeEnd sub)
          return lower.fill "left" ++ operator ++ upper) input

def orRange (sub : Readers) (place : PatternPlace) (lower : Reader Forest) : Reader Forest := do
  let forest ← lower
  let next ← look
  if (rangeMark? next).isSome then rangeTail sub place forest else return forest

def openRange (sub : Readers) (place : PatternPlace) : Reader Forest :=
  fun input =>
    if input.startsWith "..=" then
      node "range_pattern" (followedBy (mark "..=") (fills "right" (rangeEnd sub))) input
    else if atRangeEnd place (input.behind 2) then
      node "range_pattern" (followedBy (mark "..") (fills "right" (rangeEnd sub))) input
    else node "remaining_field_pattern" (mark "..") input

def fieldPattern (sub : Readers) : Reader Forest :=
  node "field_pattern" (inOrder [
    onlyIf (·.word == "ref") (keyword "ref"),
    mutableSpecifier?,
    fun input =>
      if (input.behind (wordLength input.rest)).startsWith ":" then
        inOrder [
          fills "name" (nameAs "field_identifier" []),
          mark ":",
          fills "pattern" (sub (.pattern true .plain))] input
      else fills "name" (nameAs "shorthand_field_identifier" []) input])

def structPattern (sub : Readers) (type : Forest) : Reader Forest :=
  node "struct_pattern" (do
    let fields ← inOrder [
      mark "\x7b",
      commaList fun input =>
        if input.startsWith ".." then node "remaining_field_pattern" (mark "..") input
        else fieldPattern sub input,
      mark "\x7d"]
    return type.fill "type" ++ fields)

/-- Patterns separated by commas. Behind the first one no type may stand instead. -/
def patternList (sub : Readers) (place : PatternPlace) : Reader Forest :=
  commaListFrom (sub (.pattern true place.inside)) (sub (.pattern true .plain))

def tupleStructPattern (sub : Readers) (place : PatternPlace) (type : Forest) : Reader Forest :=
  node "tuple_struct_pattern" (do
    let fields ← inOrder [mark "(", patternList sub place, mark ")"]
    return type.fill "type" ++ fields)

def pathPattern (sub : Readers) (place : PatternPlace) : Reader Forest := do
  let reading ← path sub (if place == .parameter then parameterWords else patternWords)
  let next ← look
  let isName := reading.form == .name || reading.form == .scoped
  match reading.arguments with
  | some arguments =>
      if next.startsWith "(" then
        tupleStructPattern sub .plain
          (genericPath "generic_type" reading.form reading.forest arguments)
      else return Forest.wrap "generic_pattern" (reading.forest ++ arguments)
  | none =>
      if (rangeMark? next).isSome then rangeTail sub place reading.forest
      else if next.startsWith "@" && reading.form == .name then
        let rest ← followedBy (mark "@") (sub (.pattern false place.behind))
        return Forest.wrap "captured_pattern" (reading.forest ++ rest)
      else if next.startsWith "(" && isName then
        tupleStructPattern sub (if reading.form == .name then place else .plain) reading.forest
      else if next.startsWith "\x7b" && isName then
        match completeType (.plain reading.form) reading.forest with
        | some type => structPattern sub type
        | none => Reader.refuse
      else if next.startsWith "!" && reading.canNameMacro then macroCall sub reading.forest
      else if next.startsWith "<" && (isName || reading.form == .softWord) then
        let type ← typePathTail sub (next.left + 1) (.plain reading.form) reading.forest
        if type.kind == "scoped_type_identifier" then structPattern sub type else Reader.refuse
      else match reading.form with
        | .selfWord => Reader.refuse
        | .ancestor => Reader.refuse
        | .metavariable => Reader.refuse
        | _ => return reading.forest

/-- Whether the bar at the input ends the parameters of a closure: it does unless what follows
can only be a pattern. -/
def endsParameters (input : Input) : Bool :=
  let next := input.behind 1
  input.startsWith "|" && next.word != "ref" && next.word != "mut" && !next.startsWith "..="

def closureChoiceTail (sub : Readers) : Nat → Forest → Reader Forest
  | 0, choice => Reader.pure choice
  | bound + 1, choice => do
      let input ← look
      if input.startsWith "|" && !endsParameters input then
        let rest ← followedBy (mark "|") (sub (.pattern false .plain))
        closureChoiceTail sub bound (Forest.wrap "or_pattern" (choice ++ rest))
      else return choice

def closurePattern (sub : Readers) : Reader Forest := do
  let input ← look
  let first ← sub (.pattern false .plain)
  closureChoiceTail sub input.left first

/-- A member of a tuple pattern, where a closure may stand too. A bar opens a closure unless a
pattern and the end of the tuple follow. -/
def tuplePatternMember (sub : Readers) (place : PatternPlace) : Reader Forest :=
  let closure : Reader Forest := do
    let value ← sub (.expression .plain 0)
    if value.kind == "closure_expression" then return value else Reader.refuse
  let single : Reader Forest := node "or_pattern" (do
    let bar ← mark "|"
    require fun next => !endsParameters next
    let pattern ← closurePattern sub
    require fun next => next.startsWith ")"
    return bar ++ pattern)
  fun input =>
    match input.word with
    | "static" => closure input
    | "async" => closure input
    | "move" => closure input
    | _ =>
        if input.startsWith "|" then orElse single (fun _ => closure) input
        else sub (.pattern true place.inside) input

/-- A pattern without a choice at its top. A bar in front makes a choice of one. -/
def simplePattern (sub : Readers) (place : PatternPlace) : Reader Forest :=
  fun input =>
    if startsLiteral input.rest then orRange sub place literal input
    else match input.rest with
      | '-' :: _ => orRange sub place negativeLiteral input
      | '&' :: _ =>
          node "reference_pattern" (inOrder [
            mark "&", mutableSpecifier?, sub (.pattern false place)]) input
      | '(' :: _ =>
          node "tuple_pattern" (inOrder [
            mark "(",
            commaListFrom (tuplePatternMember sub place) (tuplePatternMember sub .plain),
            mark ")"]) input
      | '[' :: _ =>
          node "slice_pattern" (inOrder [
            mark "[", patternList sub place, mark "]"]) input
      | '.' :: '.' :: _ => openRange sub place input
      | '|' :: _ =>
          node "or_pattern" (followedBy (mark "|") (sub (.pattern false place.behind))) input
      | _ =>
          match input.word with
          | "_" => keyword "_" input
          | "true" => orRange sub place literal input
          | "false" => orRange sub place literal input
          | "ref" =>
              node "ref_pattern"
                (followedBy (keyword "ref") (sub (.pattern false place.behind))) input
          | "mut" =>
              node "mut_pattern"
                (followedBy mutableSpecifier (sub (.pattern false place.behind))) input
          | "const" =>
              node "const_block" (followedBy (keyword "const") (fills "body" (sub .block))) input
          | _ => pathPattern sub place input

def choiceTail (sub : Readers) (place : PatternPlace) : Nat → Forest → Reader Forest
  | 0, choice => Reader.pure choice
  | bound + 1, choice => do
      let input ← look
      if input.startsWith "|" then
        let rest ← followedBy (mark "|") (sub (.pattern false place.behind))
        choiceTail sub place bound (Forest.wrap "or_pattern" (choice ++ rest))
      else return choice

def patternReader (sub : Readers) (choices : Bool) (place : PatternPlace) : Reader Forest :=
  if choices then do
    let input ← look
    let first ← sub (.pattern false place)
    choiceTail sub place input.left first
  else simplePattern sub place

end Codemod.Grammar
