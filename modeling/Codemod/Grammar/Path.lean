import Codemod.Grammar.TokenTree

/-!
Paths: names joined by `::`.

A path is read without knowing what it will name. `PathForm` records what it may become: an
ordinary name may still open a structure literal, a macro call or a pattern, a primitive type
only a longer path. Type arguments at the end of a path are kept apart, because whether they
belong to a function, a structure or a pattern shows behind them.
-/

set_option autoImplicit false

namespace Codemod.Grammar

open Reader

inductive PathForm where
  /-- One ordinary identifier. -/
  | name
  /-- One word that is a name outside a few constructs. -/
  | softWord
  /-- The name of a primitive type. -/
  | primitive
  /-- The word `self`. -/
  | selfWord
  /-- The word `super` or `crate`. -/
  | ancestor
  /-- A macro variable. -/
  | metavariable
  /-- Several segments. -/
  | scoped
deriving DecidableEq

structure Path where
  form : PathForm
  forest : Forest
  arguments : Option Forest

/-- The first segment of a path. Words on the list are no names here. -/
def pathHead (reserved : List String) : Reader Path :=
  fun input =>
    let single (form : PathForm) (reader : Reader Forest) : Reading Path :=
      (do return ⟨form, ← reader, none⟩ : Reader Path) input
    if metavariableLength input.rest != 0 then single .metavariable Reader.metavariable
    else
      let word := input.word
      let asName := nameAs "identifier" []
      if word == "self" then single .selfWord (keyword "self")
      else if word == "super" || word == "crate" then single .ancestor (keyword word)
      else if softWords.contains word then single .softWord asName
      else if primitiveTypes.contains word then single .primitive asName
      else single .name (nameAs "identifier" reserved)

def pathSegment : Reader Forest :=
  fun input =>
    if input.word == "super" then keyword "super" input else nameAs "identifier" [] input

def scopedName (start : Forest) : Reader Forest :=
  node "scoped_identifier" (do
    let separator ← mark "::"
    let name ← fills "name" pathSegment
    return start.fill "path" ++ separator ++ name)

def genericPath (kind : String) (form : PathForm) (start arguments : Forest) : Forest :=
  let named := if form == .name then start.relabel "type_identifier" else start
  Forest.wrap kind (named.fill "type" ++ arguments)

def turbofish (sub : Readers) : Reader Forest :=
  followedBy (mark "::") (fills "type_arguments" (sub .typeArguments))

def pathTail (sub : Readers) : Nat → Path → Reader Path
  | 0, path => pure path
  | bound + 1, path => do
      let input ← look
      if !input.startsWith "::" then return path
      else
        let next := input.behind 2
        if next.startsWith "<" && path.arguments.isNone then
          if path.form != .name && path.form != .scoped then Reader.refuse
          else
            let arguments ← turbofish sub
            pathTail sub bound { path with arguments := some arguments }
        else if wordLength next.rest == 0 then return path
        else
          let start := match path.arguments with
            | none => path.forest
            | some arguments => genericPath "generic_type" path.form path.forest arguments
          let longer ← scopedName start
          pathTail sub bound ⟨.scoped, longer, none⟩

def bracketedType (sub : Readers) : Reader Forest :=
  node "bracketed_type" (inOrder [
    mark "<",
    fun input =>
      (do
        let type ← sub (.type true false)
        let next ← look
        if next.word == "as" then
          let rest ← followedBy (keyword "as") (fills "alias" (sub (.type true false)))
          return Forest.wrap "qualified_type" (type.fill "type" ++ rest)
        else return type : Reader Forest) input,
    mark ">"])

def pathStart (sub : Readers) (reserved : List String) : Reader Path :=
  fun input =>
    if input.startsWith "::" then
      (do return ⟨.scoped, ← scopedName [], none⟩ : Reader Path) input
    else if input.startsWith "<" then
      (do
        let bracketed ← bracketedType sub
        return ⟨.scoped, ← scopedName bracketed, none⟩ : Reader Path) input
    else pathHead reserved input

def path (sub : Readers) (reserved : List String) : Reader Path := do
  let input ← look
  let start ← pathStart sub reserved
  pathTail sub input.left start

def plainPath (sub : Readers) : Reader Forest := do
  let reading ← path sub []
  match reading.arguments with
  | none => return reading.forest
  | some _ => Reader.refuse

/-- The path to a structure: the last name of a scoped path names a type. -/
def scopedTypeOfPath : Forest → Forest
  | [] => []
  | [.node "scoped_identifier" field start stop children] =>
      [.node "scoped_type_identifier" field start stop (Forest.relabel "type_identifier" children)]
  | tree :: rest => tree :: scopedTypeOfPath rest

/-- Whether the last segment of a path is a name, and its start is no bracketed type. -/
def Path.canNameStructure (reading : Path) : Bool :=
  match reading.form with
  | .name => true
  | .scoped =>
      match reading.forest.getLast? with
      | some tree =>
          (match tree.children.getLast? with
            | some last => last.kind == "identifier"
            | none => false) &&
          (match tree.children.head? with
            | some first => first.kind != "bracketed_type"
            | none => false)
      | none => false
  | _ => false

def macroCall (sub : Readers) (name : Forest) : Reader Forest :=
  node "macro_invocation" (do
    let bang ← mark "!"
    let tree ← sub (.tokenTree .arguments)
    return name.fill "macro" ++ bang ++ tree)

def Path.canNameMacro (reading : Path) : Bool :=
  reading.arguments.isNone &&
    (reading.form == .name || reading.form == .softWord || reading.form == .scoped)

/-! ### Attributes -/

def attributeBody (sub : Readers) : Reader Forest :=
  node "attribute" (followedBy (plainPath sub) (fun input =>
    if input.startsWith "=" then
      followedBy (mark "=") (fills "value" (sub (.expression .plain 0))) input
    else if input.startsWith "(" || input.startsWith "[" || input.startsWith "\x7b" then
      fills "arguments" (sub (.tokenTree .arguments)) input
    else .done [] input ⟨0, 0⟩))

def attributeItem (sub : Readers) : Reader Forest :=
  node "attribute_item" (inOrder [mark "#", mark "[", attributeBody sub, mark "]"])

def innerAttributeItem (sub : Readers) : Reader Forest :=
  node "inner_attribute_item" (inOrder [mark "#", mark "!", mark "[", attributeBody sub, mark "]"])

def attributeItems (sub : Readers) : Reader Forest :=
  many (attributeItem sub)

end Codemod.Grammar
