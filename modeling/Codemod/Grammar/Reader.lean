import Codemod.Grammar.Cst

/-!
Readers: functions from what is left of a source file to a forest and the rest.

The input always stands at the start of a token. The blanks and comments in front of it have
been passed, and the comments wait in `comments` until the token is taken. A reader either
succeeds or is stuck; in both cases it reports the furthest token that something else was
expected at, which is where a file that cannot be read is said to be wrong.
-/

set_option autoImplicit false

namespace Codemod.Grammar

structure Input where
  /-- Characters from the next token on. -/
  rest : List Char
  /-- How many they are. -/
  left : Nat
  /-- Byte offset of the next token. -/
  offset : Nat
  /-- End of the token read last. -/
  lastStop : Nat
  /-- Comments between that token and the next. -/
  comments : Forest

/-- A token that did not fit, and the end of the token before it. -/
structure Stop where
  offset : Nat
  lastStop : Nat
deriving Inhabited

namespace Stop

def ofInput (input : Input) : Stop := ⟨input.offset, input.lastStop⟩

/-- The stop further into the file; the earlier report wins a tie. -/
def furthest (first second : Stop) : Stop :=
  if first.offset < second.offset then second else first

end Stop

inductive Reading (α : Type) where
  | done (value : α) (input : Input) (stop : Stop)
  | stuck (stop : Stop)

def Reader (α : Type) := Input → Reading α

namespace Reader

variable {α β : Type}

@[inline] protected def pure (value : α) : Reader α :=
  fun input => .done value input ⟨0, 0⟩

@[inline] def refuse : Reader α :=
  fun input => .stuck (.ofInput input)

@[inline] protected def bind (first : Reader α) (next : α → Reader β) : Reader β :=
  fun input =>
    match first input with
    | .stuck stop => .stuck stop
    | .done value rest stop =>
        match next value rest with
        | .stuck later => .stuck (stop.furthest later)
        | .done result final later => .done result final (stop.furthest later)

@[inline] def orElse (first : Reader α) (second : Unit → Reader α) : Reader α :=
  fun input =>
    match first input with
    | .done value rest stop => .done value rest stop
    | .stuck stop =>
        match second () input with
        | .stuck later => .stuck (stop.furthest later)
        | .done result final later => .done result final (stop.furthest later)

instance : Monad Reader where
  pure := Reader.pure
  bind := Reader.bind

instance : OrElse (Reader α) := ⟨orElse⟩

@[inline] def look : Reader Input :=
  fun input => .done input input ⟨0, 0⟩

/-- Go on only if the input satisfies the test. -/
@[inline] def require (test : Input → Bool) : Reader Unit :=
  fun input => if test input then .done () input ⟨0, 0⟩ else .stuck (.ofInput input)

@[inline] def followedBy (first second : Reader Forest) : Reader Forest := do
  let left ← first
  let right ← second
  return left ++ right

def inOrder : List (Reader Forest) → Reader Forest
  | [] => Reader.pure []
  | reader :: rest => followedBy reader (inOrder rest)

def firstOf : List (Reader Forest) → Reader Forest
  | [] => refuse
  | [reader] => reader
  | reader :: rest => orElse reader fun _ => firstOf rest

@[inline] def optional (reader : Reader Forest) : Reader Forest :=
  orElse reader fun _ => Reader.pure []

/-- Read `reader` only in front of what the test admits, and nothing elsewhere. -/
@[inline] def onlyIf (test : Input → Bool) (reader : Reader Forest) : Reader Forest :=
  fun input => if test input then reader input else .done [] input ⟨0, 0⟩

def rounds (reader : Reader Forest) : Nat → Reader Forest
  | 0 => Reader.pure []
  | bound + 1 => orElse (followedBy reader (rounds reader bound)) fun _ => Reader.pure []

/-- Read as often as possible; each round reads at least one character. -/
def many (reader : Reader Forest) : Reader Forest :=
  fun input => rounds reader input.left input

def manyOne (reader : Reader Forest) : Reader Forest :=
  followedBy reader (many reader)

@[inline] def node (kind : String) (reader : Reader Forest) : Reader Forest :=
  fun input =>
    match reader input with
    | .stuck stop => .stuck stop
    | .done forest rest stop => .done (forest.wrap kind) rest stop

@[inline] def fills (name : String) (reader : Reader Forest) : Reader Forest :=
  fun input =>
    match reader input with
    | .stuck stop => .stuck stop
    | .done forest rest stop => .done (forest.fill name) rest stop

end Reader

end Codemod.Grammar
