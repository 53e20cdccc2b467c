import Codemod.Grammar.Category

/-!
Token trees: the arguments of macro calls and the rules of macro definitions.

Between balanced delimiters any sequence of tokens is a tree. In the rules of a definition a
dollar sign opens a variable or a repetition; among the arguments of a call it is a token like
any other, and so is the quote of what elsewhere would be a lifetime.
-/

set_option autoImplicit false

namespace Codemod.Grammar

def tokenMarks : List String :=
  ["<<=", ">>=", "...", "..=",
    "&&", "||", "<<", ">>", "+=", "-=", "*=", "/=", "%=", "^=", "&=", "|=", "==", "!=", ">=",
    "<=", "..", "::", "->", "=>",
    "+", "-", "*", "/", "%", "^", "!", "&", "|", "=", ">", "<", "@", ".", ",", ";", ":", "#",
    "?", "'"]

def metavariableLength (text : List Char) : Nat :=
  match text with
  | '$' :: c :: rest =>
      if c.isAlpha || c == '_' then
        2 + (rest.takeWhile fun c => c.isAlphanum || c == '_').length
      else 0
  | _ => 0

/-- What a macro variable may stand for. -/
def fragmentKinds : List String :=
  ["block", "expr", "expr_2021", "ident", "item", "lifetime", "literal", "meta", "pat",
    "pat_param", "path", "stmt", "tt", "ty", "vis"]

namespace Reader

def metavariable : Reader Forest :=
  fun input =>
    match metavariableLength input.rest with
    | 0 => .stuck (.ofInput input)
    | length => take "metavariable" length input

def tokenMark : Reader Forest :=
  fun input =>
    match tokenMarks.find? fun text => input.startsWith text with
    | some text => take text text.length input
    | none => .stuck (.ofInput input)

def plainToken : Reader Forest :=
  fun input =>
    if startsLiteral input.rest then literal input
    else
      match input.word with
      | "" => tokenMark input
      | "true" => literal input
      | "false" => literal input
      | "mut" => take "mutable_specifier" 3 input
      | word =>
          if primitiveTypes.contains word then take "primitive_type" word.length input
          else if tokenWords.contains word then take word word.length input
          else take "identifier" (wordLength input.rest) input

def passBlockComments : Nat → Input → Option Input
  | 0, input => some input
  | bound + 1, input =>
      let opening := input.advanceWhile isBlank
      if opening.startsWith "/*" then
        match blockComment opening (opening.advance 2) with
        | none => none
        | some (tree, rest) =>
            passBlockComments bound { rest with comments := input.comments ++ [tree] }
      else some input

/-- The close of a repetition, an optional separator, and how often to repeat. Everything
between the last comment and the operator separates, blanks included. -/
def repetitionEnd : Reader Forest :=
  fun input =>
    match input.rest with
    | ')' :: _ =>
        let closed := input.advance 1
        match passBlockComments closed.left { closed with comments := [] } with
        | none => .stuck ⟨closed.offset, closed.offset⟩
        | some passed =>
            let operator := passed.advanceWhile fun c =>
              c != '+' && c != '*' && c != '?' && !isNul c
            match operator.rest with
            | c :: _ =>
                if isNul c then .stuck ⟨operator.offset, closed.offset⟩
                else match take (String.singleton c) 1
                    { operator with lastStop := operator.offset } with
                | .stuck stop => .stuck stop
                | .done forest rest stop =>
                    .done (input.comments ++ tokenNode ")" input closed :: forest) rest stop
            | [] => .stuck ⟨operator.offset, closed.offset⟩
    | _ => .stuck (.ofInput input)

end Reader

open Reader

def TokenTreeSort.kind : TokenTreeSort → String
  | .arguments => "token_tree"
  | .ruleBody => "token_tree"
  | .rulePattern => "token_tree_pattern"

/-- A macro variable in the pattern of a rule. In front of a colon it is bound to a kind of
fragment. -/
def boundVariable : Reader Forest :=
  fun input =>
    let next := input.behind (metavariableLength input.rest)
    if next.startsWith ":" && !next.startsWith "::" then
      node "token_binding_pattern" (inOrder [
        fills "name" metavariable,
        mark ":",
        fills "type" (node "fragment_specifier" (firstOf (fragmentKinds.map keyword)))]) input
    else metavariable input

def repetition (sub : Readers) (kind : String) (sort : TokenTreeSort) : Reader Forest :=
  node kind (inOrder [mark "$", mark "(", sub (.tokens sort), repetitionEnd])

def dollarToken (sub : Readers) (sort : TokenTreeSort) : Reader Forest :=
  fun input =>
    let isVariable := metavariableLength input.rest != 0
    match sort with
    | .arguments => mark "$" input
    | .ruleBody =>
        if isVariable then metavariable input
        else repetition sub "token_repetition" sort input
    | .rulePattern =>
        if isVariable then boundVariable input
        else repetition sub "token_repetition_pattern" sort input

def treeToken (sub : Readers) (sort : TokenTreeSort) : Reader Forest :=
  fun input =>
    match input.rest with
    | [] => .stuck (.ofInput input)
    | c :: _ =>
        if c == '(' || c == '[' || c == '\x7b' then sub (.tokenTree sort) input
        else if c == '$' then dollarToken sub sort input
        else plainToken input

def treeTokens (sub : Readers) (sort : TokenTreeSort) : Reader Forest :=
  many (treeToken sub sort)

def tokenTree (sub : Readers) (sort : TokenTreeSort) : Reader Forest :=
  node sort.kind (firstOf [
    inOrder [mark "(", sub (.tokens sort), mark ")"],
    inOrder [mark "[", sub (.tokens sort), mark "]"],
    inOrder [mark "\x7b", sub (.tokens sort), mark "\x7d"]])

def macroRule (sub : Readers) : Reader Forest :=
  node "macro_rule" (inOrder [
    fills "left" (sub (.tokenTree .rulePattern)),
    mark "=>",
    fills "right" (sub (.tokenTree .ruleBody))])

def macroRules (sub : Readers) : Reader Forest :=
  followedBy (many (followedBy (macroRule sub) (mark ";"))) (optional (macroRule sub))

/-- A macro definition. Only braces close it without a semicolon. -/
def macroDefinition (sub : Readers) : Reader Forest :=
  node "macro_definition" (inOrder [
    mark "macro_rules!",
    fills "name" (nameAs "identifier" []),
    firstOf [
      inOrder [mark "(", macroRules sub, mark ")", mark ";"],
      inOrder [mark "[", macroRules sub, mark "]", mark ";"],
      inOrder [mark "\x7b", macroRules sub, mark "\x7d"]]])

end Codemod.Grammar
