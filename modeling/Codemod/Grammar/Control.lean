import Codemod.Grammar.Operator

/-!
Conditions, branches, loops, matches and the other expressions that end with a block.
-/

set_option autoImplicit false

namespace Codemod.Grammar

open Reader

/-! ### Conditions -/

def letCondition (sub : Readers) (place : Place) : Reader Forest :=
  node "let_condition" (inOrder [
    keyword "let",
    fills "pattern" (sub (.pattern true .plain)),
    mark "=",
    fills "value" (sub (.conjunct place))])

def conditionTail (sub : Readers) (place : Place) : Reader Forest :=
  many (followedBy (mark "&&") fun input =>
    if input.word == "let" then letCondition sub place input
    else sub (.conjunct place) input)

/-- A condition. `leading` reads an expression that leaves the conjunction in front of a
binding condition alone. -/
def condition (sub : Readers) (leading : Reader Forest) (place : Place) : Reader Forest := do
  let input ← look
  let first ← if input.word == "let" then letCondition sub place else leading
  let next ← look
  if next.startsWith "&&" then
    let rest ← conditionTail sub place
    return Forest.wrap "let_chain" (first ++ rest)
  else return first

def bodyCondition (sub : Readers) : Reader Forest :=
  fills "condition" (sub (.condition .beforeBlock))

/-! ### Blocks, branches and loops -/

def ifExpression (sub : Readers) : Reader Forest :=
  node "if_expression" (inOrder [
    keyword "if",
    bodyCondition sub,
    fills "consequence" (sub .block),
    onlyIf (·.word == "else") (fills "alternative" (node "else_clause" (followedBy
      (keyword "else") fun input =>
        sub (if input.word == "if" then .blockLike else .block) input)))])

def wordBlock (sub : Readers) (kind word : String) : Reader Forest :=
  node kind (followedBy (keyword word) (sub .block))

def movingBlock (sub : Readers) (kind word : String) : Reader Forest :=
  node kind (inOrder [
    keyword word, onlyIf (·.word == "move") (keyword "move"), sub .block])

def constBlock (sub : Readers) : Reader Forest :=
  node "const_block" (followedBy (keyword "const") (fills "body" (sub .block)))

def loopTail (sub : Readers) (label : Forest) : Reader Forest :=
  fun input =>
    let labelled (kind : String) (body : Reader Forest) : Reading Forest :=
      node kind (do return label ++ (← body)) input
    match input.word with
    | "while" =>
        labelled "while_expression" (inOrder [
          keyword "while", bodyCondition sub, fills "body" (sub .block)])
    | "loop" =>
        labelled "loop_expression" (followedBy (keyword "loop") (fills "body" (sub .block)))
    | "for" =>
        labelled "for_expression" (inOrder [
          keyword "for",
          fills "pattern" (sub (.pattern true .plain)),
          keyword "in",
          fills "value" (sub (.expression .beforeBlock 0)),
          fills "body" (sub .block)])
    | _ => .stuck (.ofInput input)

def labelColon : Reader Forest := followedBy label (mark ":")

def namesLoop (input : Input) : Bool :=
  match labelColon input with
  | .done _ next _ => next.word == "while" || next.word == "loop" || next.word == "for"
  | .stuck _ => false

def labelled (sub : Readers) : Reader Forest :=
  fun input =>
    if namesLoop input then
      (do
        let name ← labelColon
        loopTail sub name : Reader Forest) input
    else sub .block input

/-! ### Matches -/

def matchPattern (sub : Readers) : Reader Forest :=
  node "match_pattern" (followedBy (sub (.pattern true .arm))
    (onlyIf (·.word == "if") (followedBy (keyword "if")
      (fills "condition" (sub (.condition .guard))))))

def opensBlock (place : Place) (input : Input) : Bool :=
  match input.word with
  | "" => atBlock input
  | "if" => true
  | "match" => true
  | "while" => true
  | "loop" => true
  | "for" => true
  | "unsafe" => true
  | "try" => true
  | "const" => true
  | "async" =>
      let next := input.behind 5
      atBlock next || (next.word == "move" && atBlock (next.behind 4))
  | "gen" =>
      let next := input.behind 3
      next.word == "move" || (atBlock next && !ownsBlock place next)
  | _ => false

/-- The value of a match arm. Its comma may be missing before the closing brace and behind a
block. -/
def armValue (sub : Readers) : Reader Forest := do
  let start ← look
  let ended (value : Forest) : Reader Forest := do
    let next ← look
    let comma ← if next.startsWith "\x7d" then Reader.pure [] else mark ","
    return value.fill "value" ++ comma
  if opensBlock .plain start then
    let block ← sub .blockLike
    let next ← look
    if continuesArm next then
      let value ← operatorTail sub .plain .free 0 next.left block
      ended value
    else
      let comma ← onlyIf (·.startsWith ",") (mark ",")
      return block.fill "value" ++ comma
  else
    let value ← sub (.expression .plain 0)
    ended value

def matchArm (sub : Readers) : Reader Forest :=
  node "match_arm" (inOrder [
    many (orElse (attributeItem sub) fun _ => innerAttributeItem sub),
    fills "pattern" (matchPattern sub),
    mark "=>",
    armValue sub])

def matchExpression (sub : Readers) : Reader Forest :=
  node "match_expression" (inOrder [
    keyword "match",
    fills "value" (sub (.expression .beforeArms 0)),
    fills "body" (node "match_block" (inOrder [
      mark "\x7b", many (matchArm sub), mark "\x7d"]))])

/-! ### What ends with a block -/

def blockLike (sub : Readers) : Reader Forest :=
  fun input =>
    match input.word with
    | "" => if input.startsWith "'" then labelled sub input else sub .block input
    | "if" => ifExpression sub input
    | "match" => matchExpression sub input
    | "unsafe" => wordBlock sub "unsafe_block" "unsafe" input
    | "try" => wordBlock sub "try_block" "try" input
    | "const" => constBlock sub input
    | "async" => movingBlock sub "async_block" "async" input
    | "gen" => movingBlock sub "gen_block" "gen" input
    | _ => loopTail sub [] input

end Codemod.Grammar
