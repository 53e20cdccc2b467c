import Codemod.Grammar.Expression
import Codemod.Grammar.WhereClause

/-!
Items: what a file, module, trait, implementation or block declares.

An item may open with a visibility, and a function with any number of modifiers in any order.
Words such as `unsafe` and `const` open several kinds of items and expressions alike; the word
behind them decides.
-/

set_option autoImplicit false

namespace Codemod.Grammar

open Reader

/-! ### Visibility -/

def visibilityScope (sub : Readers) : Reader Forest :=
  inOrder [
    mark "(",
    fun input =>
      match input.word with
      | "self" => keyword "self" input
      | "super" => keyword "super" input
      | "crate" => keyword "crate" input
      | _ => followedBy (keyword "in") (plainPath sub) input,
    mark ")"]

def atVisibility (input : Input) : Bool :=
  input.word == "pub" || (input.word == "crate" && !(input.behind 5).startsWith "::")

/-- A visibility if there is one. A parenthesis that names no scope belongs to what follows. -/
def visibility? (sub : Readers) : Reader Forest :=
  onlyIf atVisibility (node "visibility_modifier" fun input =>
    if input.word == "pub" then
      followedBy (keyword "pub") (onlyIf (·.startsWith "(") (optional (visibilityScope sub))) input
    else keyword "crate" input)

/-! ### Names -/

def declaredName : Reader Forest := fills "name" (nameAs "identifier" [])

def declaredType : Reader Forest := fills "name" (nameAs "type_identifier" [])

def ascription (sub : Readers) : Reader Forest :=
  followedBy (mark ":") (fills "type" (sub (.type true false)))

def value? (sub : Readers) : Reader Forest :=
  onlyIf (·.startsWith "=") (followedBy (mark "=") (fills "value" (sub (.expression .plain 0))))

def bounds? (sub : Readers) : Reader Forest :=
  onlyIf (·.startsWith ":") (fills "bounds" (traitBounds sub))

/-! ### Fields and variants -/

def attributed (sub : Readers) (opening : String) (reader : Reader Forest) (closing : String) :
    Reader Forest :=
  inOrder [mark opening, commaList (followedBy (attributeItems sub) reader), mark closing]

def namedFields (sub : Readers) : Reader Forest :=
  fills "body" (node "field_declaration_list" (attributed sub "\x7b"
    (node "field_declaration" (inOrder [
      visibility? sub, fills "name" (nameAs "field_identifier" []), ascription sub])) "\x7d"))

def positionalFields (sub : Readers) : Reader Forest :=
  let field : Reader Forest := fills "type" (sub (.type true false))
  fills "body" (node "ordered_field_declaration_list" (attributed sub "("
    (orElse (followedBy (visibility? sub) field) fun _ input =>
      if input.word == "pub" then
        followedBy (node "visibility_modifier" (keyword "pub")) field input
      else .stuck (.ofInput input)) ")"))

def fields? (sub : Readers) : Reader Forest :=
  fun input =>
    if input.startsWith "\x7b" then namedFields sub input
    else if input.startsWith "(" then positionalFields sub input
    else Reader.pure [] input

def enumVariants (sub : Readers) : Reader Forest :=
  fills "body" (node "enum_variant_list" (attributed sub "\x7b"
    (node "enum_variant" (inOrder [visibility? sub, declaredName, fields? sub, value? sub]))
    "\x7d"))

/-! ### Items, behind their visibility -/

def structItem (sub : Readers) : Reader Forest :=
  inOrder [
    keyword "struct",
    declaredType,
    typeParameters? sub,
    fun input =>
      if input.startsWith ";" then mark ";" input
      else if input.startsWith "(" then
        inOrder [positionalFields sub, whereClause? sub, mark ";"] input
      else followedBy (whereClause? sub) (namedFields sub) input]

def unionItem (sub : Readers) : Reader Forest :=
  inOrder [
    keyword "union", declaredType, typeParameters? sub, whereClause? sub, namedFields sub]

def enumItem (sub : Readers) : Reader Forest :=
  inOrder [
    keyword "enum", declaredType, typeParameters? sub, whereClause? sub, enumVariants sub]

def traitItem (sub : Readers) : Reader Forest :=
  inOrder [
    onlyIf (·.word == "unsafe") (keyword "unsafe"),
    keyword "trait",
    declaredType,
    typeParameters? sub,
    bounds? sub,
    whereClause? sub,
    fills "body" (sub .declarations)]

def declarationsOrNone (sub : Readers) : Reader Forest :=
  fun input =>
    if input.startsWith ";" then mark ";" input
    else fills "body" (sub .declarations) input

def modItem (sub : Readers) : Reader Forest :=
  inOrder [keyword "mod", declaredName, declarationsOrNone sub]

def foreignItem (sub : Readers) : Reader Forest :=
  inOrder [
    onlyIf (·.word == "unsafe") (keyword "unsafe"), externModifier, declarationsOrNone sub]

def externCrate : Reader Forest :=
  inOrder [
    keyword "extern",
    keyword "crate",
    declaredName,
    onlyIf (·.word == "as")
      (followedBy (keyword "as") (fills "alias" (nameAs "identifier" []))),
    mark ";"]

def constItem (sub : Readers) : Reader Forest :=
  inOrder [keyword "const", declaredName, ascription sub, value? sub, mark ";"]

def staticItem (sub : Readers) : Reader Forest :=
  inOrder [
    keyword "static",
    onlyIf (·.word == "ref") (keyword "ref"),
    mutableSpecifier?,
    declaredName,
    ascription sub,
    value? sub,
    mark ";"]

def useItem (sub : Readers) : Reader Forest :=
  inOrder [keyword "use", fills "argument" (sub .useClause), mark ";"]

def functionItem (sub : Readers) (start : Forest) : Reader Forest := do
  let modifiers ← onlyIf (·.word != "fn") functionModifiers
  let head ← inOrder [
    keyword "fn",
    fills "name" (fun input =>
      if metavariableLength input.rest != 0 then metavariable input
      else nameAs "identifier" [] input),
    typeParameters? sub,
    fills "parameters" (parameters sub),
    returnType? sub true,
    whereClause? sub]
  let next ← look
  if next.startsWith ";" then
    let closing ← mark ";"
    return Forest.wrap "function_signature_item" (start ++ modifiers ++ head ++ closing)
  else
    let body ← fills "body" (sub .block)
    return Forest.wrap "function_item" (start ++ modifiers ++ head ++ body)

/-- A type alias or an associated type. Only the latter has bounds, only the former a
visibility. -/
def typeItem (sub : Readers) (start : Forest) : Reader Forest := do
  let head ← inOrder [keyword "type", declaredType, typeParameters? sub]
  let bounds ← bounds? sub
  let condition ← whereClause? sub
  let next ← look
  if next.startsWith "=" && bounds.isEmpty then
    let rest ← inOrder [
      mark "=", fills "type" (sub (.type true false)), whereClause? sub, mark ";"]
    return Forest.wrap "type_item" (start ++ head ++ condition ++ rest)
  else if start.isEmpty then
    let closing ← mark ";"
    return Forest.wrap "associated_type" (head ++ bounds ++ condition ++ closing)
  else Reader.refuse

def implementedKinds : List String :=
  ["type_identifier", "scoped_type_identifier", "generic_type"]

def implementedType (sub : Readers) : Reader Forest :=
  let typed : Reader Forest := fills "type" (sub (.type true false))
  let negated : Reader Forest := do
    let type ← typePath sub ("where" :: pathWords)
    if implementedKinds.contains type.kind then return type else Reader.refuse
  let negative : Reader Forest := inOrder [
    mark "!", fills "trait" negated, keyword "for", typed]
  fun input =>
    if input.startsWith "!" then orElse negative (fun _ => typed) input
    else
      (do
        let first ← sub (.type true false)
        let next ← look
        if next.word == "for" && implementedKinds.contains first.kind then
          let rest ← followedBy (keyword "for") typed
          return first.fill "trait" ++ rest
        else return first.fill "type" : Reader Forest) input

/-- Whether the angle bracket at the input opens parameters: where a type in brackets might stand
instead, words of types are no names of parameters, and two colons go on with a path. -/
def opensParameters (input : Input) : Bool :=
  let first := input.behind 1
  input.startsWith "<" &&
    !(typeWords.filter (· != "const")).contains first.word &&
    !(first.behind (wordLength first.rest)).startsWith "::"

def implItem (sub : Readers) : Reader Forest :=
  let rest : Reader Forest :=
    inOrder [implementedType sub, whereClause? sub, declarationsOrNone sub]
  node "impl_item" (inOrder [
    onlyIf (·.word == "unsafe") (keyword "unsafe"),
    keyword "impl",
    fun input =>
      if opensParameters input then
        orElse (followedBy (fills "type_parameters" (typeParametersExcept sub functionWords)) rest)
          (fun _ => rest) input
      else rest input])

def wordAfter (input : Input) : String :=
  (input.behind (wordLength input.rest)).word

/-- Whether the word at the input opens an item in front of which a visibility may stand. Where
expressions may stand too, words of both need a second word. -/
def opensItem (input : Input) : Bool :=
  match input.word with
  | "mod" => true
  | "struct" => true
  | "enum" => true
  | "trait" => true
  | "use" => true
  | "type" => true
  | "fn" => true
  | "extern" => true
  | "union" => wordAfter input != "" && wordAfter input != "as"
  | "const" => wordAfter input != ""
  | "static" => wordAfter input != "" && wordAfter input != "async" && wordAfter input != "move"
  | "unsafe" => (functionWords ++ ["impl", "trait"]).contains (wordAfter input)
  | "async" => functionWords.contains (wordAfter input)
  | "default" => functionWords.contains (wordAfter input)
  | _ => false

def item (sub : Readers) (start : Forest) : Reader Forest :=
  fun input =>
    let as (kind : String) (reader : Reader Forest) : Reading Forest :=
      node kind (do return start ++ (← reader)) input
    let foreignOr (start : Forest) (otherwise : Reader Forest) : Reading Forest :=
      if start.isEmpty then
        orElse (node "foreign_mod_item" (foreignItem sub)) (fun _ => otherwise) input
      else otherwise input
    match input.word with
    | "mod" => as "mod_item" (modItem sub)
    | "struct" => as "struct_item" (structItem sub)
    | "enum" => as "enum_item" (enumItem sub)
    | "union" => as "union_item" (unionItem sub)
    | "trait" => as "trait_item" (traitItem sub)
    | "use" => as "use_declaration" (useItem sub)
    | "static" => as "static_item" (staticItem sub)
    | "type" => typeItem sub start input
    | "const" =>
        if functionWords.contains (wordAfter input) then functionItem sub start input
        else as "const_item" (constItem sub)
    | "extern" =>
        if wordAfter input == "crate" then as "extern_crate_declaration" externCrate
        else foreignOr start (functionItem sub start)
    | "unsafe" =>
        match wordAfter input with
        | "trait" => as "trait_item" (traitItem sub)
        | "extern" => foreignOr start (functionItem sub start)
        | "impl" => if start.isEmpty then implItem sub input else .stuck (.ofInput input)
        | _ => functionItem sub start input
    | _ => functionItem sub start input

/-! ### Declarations -/

/-- What a declaration binds: the word `mut` belongs to the declaration, except in front of a
choice of patterns. -/
def declaredPattern (sub : Readers) : Reader Forest :=
  let single : Reader Forest := do
    let mutability ← mutableSpecifier
    let pattern ← fills "pattern" (sub (.pattern false .plain))
    require fun next => !next.startsWith "|"
    return mutability ++ pattern
  let choices : Reader Forest := fills "pattern" (sub (.pattern true .plain))
  fun input => if input.word == "mut" then orElse single (fun _ => choices) input
    else choices input

def letDeclaration (sub : Readers) : Reader Forest :=
  node "let_declaration" (do
    let head ← followedBy (keyword "let") (declaredPattern sub)
    let rest ← inOrder [
      onlyIf (·.startsWith ":") (followedBy (colonBehind head)
        (fills "type" (sub (.type true false)))),
      value? sub,
      onlyIf (·.word == "else")
        (followedBy (keyword "else") (fills "alternative" (sub .block))),
      mark ";"]
    return head ++ rest)

/-- Whether the input starts a declaration that cannot be the start of an expression. -/
def opensDeclaration (input : Input) : Bool :=
  input.startsWith ";" || input.startsWith "#" || input.startsWith "macro_rules!" ||
    input.word == "let" || input.word == "impl" || atVisibility input || opensItem input

def declaration (sub : Readers) : Reader Forest :=
  fun input =>
    if input.startsWith ";" then node "empty_statement" (mark ";") input
    else if input.startsWith "#" then
      if (input.behind 1).startsWith "!" then innerAttributeItem sub input
      else attributeItem sub input
    else if input.startsWith "macro_rules!" then macroDefinition sub input
    else match input.word with
      | "let" => letDeclaration sub input
      | "impl" => implItem sub input
      | _ =>
          (do
            let start ← visibility? sub
            item sub start : Reader Forest) input

def calledMacro (sub : Readers) : Reader Forest := do
  let reading ← path sub declarationWords
  if reading.canNameMacro then macroCall sub reading.forest else Reader.refuse

def declarations (sub : Readers) : Reader Forest :=
  node "declaration_list" (inOrder [
    mark "\x7b",
    many fun input =>
      if opensDeclaration input || input.word == "static" ||
          (input.word == "union" && wordAfter input != "") then declaration sub input
      else calledMacro sub input,
    mark "\x7d"])

/-! ### Imports -/

def useList (sub : Readers) : Reader Forest :=
  node "use_list" (inOrder [mark "\x7b", commaList (sub .useClause), mark "\x7d"])

def useTail (sub : Readers) (start : Forest) : Reader Forest :=
  fun input =>
    if input.startsWith "::" then
      if (input.behind 2).startsWith "*" then
        node "use_wildcard" (do return start ++ (← followedBy (mark "::") (mark "*"))) input
      else
        node "scoped_use_list" (do
          let rest ← followedBy (mark "::") (fills "list" (useList sub))
          return start.fill "path" ++ rest) input
    else if input.word == "as" then
      node "use_as_clause" (do
        let rest ← followedBy (keyword "as") (fills "alias" (nameAs "identifier" []))
        return start.fill "path" ++ rest) input
    else Reader.pure start input

def useClause (sub : Readers) : Reader Forest :=
  fun input =>
    if input.startsWith "\x7b" then useList sub input
    else if input.startsWith "*" then node "use_wildcard" (mark "*") input
    else if input.startsWith "::" && wordLength (input.behind 2).rest == 0 then
      useTail sub [] input
    else
      (do
        let name ← plainPath sub
        useTail sub name : Reader Forest) input

end Codemod.Grammar
