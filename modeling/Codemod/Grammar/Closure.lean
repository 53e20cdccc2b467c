import Codemod.Grammar.Control

/-!
Closures. A bar both separates alternatives of a pattern and ends the parameters. Behind the first
parameter it ends them wherever the body of the closure could start, and behind a later one always.
-/

set_option autoImplicit false

namespace Codemod.Grammar

open Reader

def closureParameterType (sub : Readers) (pattern : Forest) : Reader Forest := do
  let rest ← followedBy (colonBehind pattern) (fills "type" (sub (.type true false)))
  return Forest.wrap "parameter" (pattern ++ rest)

/-- One parameter of a closure, with the given reader of its pattern. The word `mut` in front of a
typed one belongs to the parameter, otherwise to the pattern. -/
def closureParameter (sub : Readers) (patternReader : Reader Forest) : Reader Forest :=
  let typed (specifier : Reader Forest) : Reader Forest := do
    let mutability ← specifier
    let pattern ← fills "pattern" fun input =>
      if atReceiver input then keyword "self" input else patternReader input
    closureParameterType sub (mutability ++ pattern)
  fun input =>
    if input.word == "mut" then
      orElse (typed mutableSpecifier) (fun _ => patternReader) input
    else if atReceiver input then typed (Reader.pure []) input
    else
      (do
        let pattern ← patternReader
        let next ← look
        if next.startsWith ":" then closureParameterType sub (pattern.fill "pattern")
        else return pattern : Reader Forest) input

def closureParameters (sub : Readers) : Reader Forest :=
  node "closure_parameters" (inOrder [
    mark "|",
    onlyIf (fun input => !endsParameters input) (followedBy
      (closureParameter sub (closurePattern sub))
      (many (followedBy (mark ",") (closureParameter sub (sub (.pattern false .plain)))))),
    mark "|"])

/-- A closure. A declared result admits only a block as body. -/
def closure (sub : Readers) (place : Place) : Reader Forest :=
  node "closure_expression" (inOrder [
    onlyIf (·.word == "static") (keyword "static"),
    onlyIf (·.word == "async") (keyword "async"),
    onlyIf (·.word == "move") (keyword "move"),
    fills "parameters" (closureParameters sub),
    fun input =>
      if input.startsWith "->" then
        inOrder [
          mark "->", fills "return_type" (sub (.type true false)),
          fills "body" (sub .block)] input
      else if input.word == "_" then fills "body" (keyword "_") input
      else fills "body" (sub (.expression place.last 0)) input])

end Codemod.Grammar
