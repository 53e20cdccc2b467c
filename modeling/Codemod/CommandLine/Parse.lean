import Codemod.CommandLine.Similar
import Codemod.CommandLine.Usage
import Codemod.Text.Blank

/-!
Reading the arguments.

An option with a value waits for it; the value is looked at when the next option comes, or at the
end. Of the renamings, those of declarations and those of all identifiers are collected apart,
each in the order in which they are given.
-/

set_option autoImplicit false

namespace Codemod.CommandLine

structure Settings where
  root : String := defaultRoot
  pattern : String := defaultPattern
  output : String := defaultOutput
  rules : Option String := none
  renameDecl : List (String × String) := []
  rename : List (String × String) := []
  keepGoing : Bool := false
  verbose : Bool := false
deriving DecidableEq, Repr

/-- The text in front of the first equals sign, and the text behind it. -/
def splitPair (text : String) : Option (String × String) :=
  let letters := text.toList
  match letters.dropWhile (· != '=') with
  | [] => none
  | _ :: behind => some (String.ofList (letters.takeWhile (· != '=')), String.ofList behind)

/-- A pair of names with an equals sign between them. White space around them is dropped. -/
def parseRename (text : String) : Except String (String × String) :=
  match splitPair text with
  | none => .error (renameExpectation text)
  | some (old, new) =>
      if (Text.trim old).isEmpty || (Text.trim new).isEmpty then .error (renameExpectation text)
      else .ok (Text.trim old, Text.trim new)

/-! ### Options -/

structure Reading where
  settings : Settings := {}
  /-- The options that are settled, in the order in which they came. -/
  given : List Flag := []
  /-- The option that waits for its value, or to be settled with it. -/
  pending : Option (Flag × Option String) := none
  /-- Whether no more options may come. -/
  closed : Bool := false

/-- What has been read, and what was wrong with the last step. -/
structure Settled where
  reading : Reading
  error : Option UsageError

namespace Reading

def note (reading : Reading) (flag : Flag) : Reading :=
  if reading.given.contains flag then reading
  else { reading with given := reading.given ++ [flag] }

def set (reading : Reading) (change : Settings → Settings) : Settled :=
  ⟨{ reading with settings := change reading.settings }, none⟩

def setPath (reading : Reading) (flag : Flag) (value : String) (change : Settings → Settings) :
    Settled :=
  if value.isEmpty then ⟨reading, some (.missingValue flag)⟩ else reading.set change

def takeValue (reading : Reading) (flag : Flag) (value : String) : Settled :=
  match flag with
  | .root => reading.setPath flag value fun settings => { settings with root := value }
  | .output => reading.setPath flag value fun settings => { settings with output := value }
  | .rules => reading.setPath flag value fun settings => { settings with rules := some value }
  | .pattern => reading.set fun settings => { settings with pattern := value }
  | .renameDecl =>
      match parseRename value with
      | .ok pair => reading.set fun settings =>
          { settings with renameDecl := settings.renameDecl ++ [pair] }
      | .error _ => ⟨reading, some (.invalidRename value flag)⟩
  | .rename =>
      match parseRename value with
      | .ok pair => reading.set fun settings =>
          { settings with rename := settings.rename ++ [pair] }
      | .error _ => ⟨reading, some (.invalidRename value flag)⟩
  | _ => ⟨reading, none⟩

/-- Refuse an option that was already given, unless it may be repeated. The earlier one is
forgotten. -/
def refuseRepeated (reading : Reading) (flag : Flag) (next : Reading → Settled) : Settled :=
  if reading.given.contains flag && !flag.isRepeatable then
    ⟨{ reading with given := reading.given.filter (· != flag) }, some (.repeated flag)⟩
  else next (reading.note flag)

def settleValue (reading : Reading) (flag : Flag) (value : String) : Settled :=
  reading.refuseRepeated flag fun reading => reading.takeValue flag value

def settle (reading : Reading) : Settled :=
  let rest := { reading with pending := none }
  match reading.pending with
  | none => ⟨rest, none⟩
  | some (flag, none) => ⟨rest, some (.missingValue flag)⟩
  | some (flag, some value) => rest.settleValue flag value

end Reading

def Settled.check (settled : Settled) : Except Stop Reading :=
  match settled.error with
  | none => .ok settled.reading
  | some error => .error (.mistake error)

namespace Reading

def switch (reading : Reading) (flag : Flag) : Except Stop Reading := do
  let reading ← reading.settle.check
  match flag with
  | .help => .error .help
  | .version => .error .version
  | .keepGoing =>
      (reading.refuseRepeated flag fun reading =>
        reading.set fun settings => { settings with keepGoing := true }).check
  | .verbose =>
      (reading.refuseRepeated flag fun reading =>
        reading.set fun settings => { settings with verbose := true }).check
  | _ => .ok reading

/-- Take up an option with the value attached to it, or one that waits for its value. -/
def takeUp (reading : Reading) (flag : Flag) (attached : Option String) :
    Except Stop Reading := do
  let reading ← reading.settle.check
  match attached with
  | some value => (reading.settleValue flag value).check
  | none => .ok { reading with pending := some (flag, none) }

/-- Refuse an argument nobody knows. An option that waits is settled first, whatever comes of
it. -/
def refuse (reading : Reading) (argument : String) (similar : Option Flag) (list : Bool) :
    Except Stop Reading :=
  let given := if list then reading.settle.reading.given else []
  .error (.mistake (.unknownArgument argument similar given))

def readLong (reading : Reading) (body : String) : Except Stop Reading :=
  let name := String.ofList (body.toList.takeWhile (· != '='))
  let attached := (splitPair body).map Prod.snd
  match Flag.ofLong? name with
  | none => reading.refuse s!"--{name}" (similar? name) true
  | some flag =>
      if flag.takesValue then reading.takeUp flag attached
      else
        match attached with
        | some value => .error (.mistake (.unexpectedValue value flag reading.given))
        | none => reading.switch flag

/-- Read options by their letters. What follows the letter of an option with a value is its
value. -/
def readShort (reading : Reading) : List Char → Except Stop Reading
  | [] => .ok reading
  | letter :: rest =>
      match Flag.ofShort? letter with
      | none => reading.refuse (String.ofList ['-', letter]) none false
      | some flag =>
          if flag.takesValue then
            match rest with
            | [] => reading.takeUp flag none
            | '=' :: value => reading.takeUp flag (some (String.ofList value))
            | value => reading.takeUp flag (some (String.ofList value))
          else
            match reading.switch flag with
            | .ok reading => readShort reading rest
            | .error stop => .error stop

def readArgument (reading : Reading) (argument : String) : Except Stop Reading :=
  match reading.closed, argument.toList with
  | false, ['-', '-'] => .ok { reading with closed := true }
  | false, '-' :: '-' :: body => reading.readLong (String.ofList body)
  | false, '-' :: letter :: letters => reading.readShort (letter :: letters)
  | false, _ =>
      match reading.pending with
      | some (flag, none) => .ok { reading with pending := some (flag, some argument) }
      | _ => reading.refuse argument none false
  | true, _ => reading.refuse argument none false

end Reading

def parse (arguments : List String) : Except Stop Settings := do
  let reading ← arguments.foldlM Reading.readArgument {}
  let final ← reading.settle.check
  return final.settings

end Codemod.CommandLine
