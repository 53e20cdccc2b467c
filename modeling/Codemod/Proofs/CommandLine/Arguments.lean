import Codemod.Proofs.CommandLine.Options

/-!
Which arguments are read as which options.

An argument spells options: one by its name, with the value behind an equals sign or in the argument
that follows, or several by their letters, the last of which may have a value.

Main statement: arguments can be read if and only if they spell options that are accepted, and the
settings are what these options make of the default ones.
-/

set_option autoImplicit false

namespace Codemod.CommandLine

/-! ### How options are spelled -/

/-- What follows the letter of an option is its value, unless that is still to come. -/
inductive SpellsValue (flag : Flag) : List Char → List Given → Option Flag → Prop where
  | attached (value : List Char) (nonempty : value ≠ []) (plain : value.head? ≠ some '=') :
      SpellsValue flag value [⟨flag, some (String.ofList value)⟩] none
  | equals (value : List Char) :
      SpellsValue flag ('=' :: value) [⟨flag, some (String.ofList value)⟩] none
  | apart : SpellsValue flag [] [] (some flag)

/-- Letters that follow one dash spell options, the last of which may have a value. -/
inductive SpellsLetters : List Char → List Given → Option Flag → Prop where
  | nothing : SpellsLetters [] [] none
  | bare {flag : Flag} {letter : Char} {rest : List Char} {given : List Given}
      {waiting : Option Flag} (isLetter : flag.short = some letter)
      (takesNone : flag.takesValue = false) (others : SpellsLetters rest given waiting) :
      SpellsLetters (letter :: rest) (⟨flag, none⟩ :: given) waiting
  | valued {flag : Flag} {letter : Char} {rest : List Char} {given : List Given}
      {waiting : Option Flag} (isLetter : flag.short = some letter) (takes : flag.takesValue = true)
      (spelled : SpellsValue flag rest given waiting) : SpellsLetters (letter :: rest) given waiting

/-- What follows two dashes spells an option, which takes its value from behind an equals sign or
waits for it. -/
inductive SpellsName : String → List Given → Option Flag → Prop where
  | bare {flag : Flag} (takesNone : flag.takesValue = false) :
      SpellsName flag.long [⟨flag, none⟩] none
  | equals {flag : Flag} (value : String) (takes : flag.takesValue = true) :
      SpellsName (flag.long ++ "=" ++ value) [⟨flag, some value⟩] none
  | apart {flag : Flag} (takes : flag.takesValue = true) : SpellsName flag.long [] (some flag)

/-- An argument spells options, and one more if its value is still to come. -/
inductive SpellsWord : String → List Given → Option Flag → Prop where
  | name {body : String} {given : List Given} {waiting : Option Flag}
      (spelled : SpellsName body given waiting) : SpellsWord ("--" ++ body) given waiting
  | letters {letters : List Char} {given : List Given} {waiting : Option Flag}
      (nonempty : letters ≠ []) (noDash : letters.head? ≠ some '-')
      (spelled : SpellsLetters letters given waiting) :
      SpellsWord ("-" ++ String.ofList letters) given waiting

/-- Whether an argument is not taken for options: it does not start with a dash, or there is nothing
behind the dash. -/
def isPlain (argument : String) : Bool :=
  match argument.toList with
  | '-' :: _ :: _ => false
  | _ => true

/-- Arguments spell options. Two dashes by themselves may end them. -/
inductive Spells : List String → List Given → Prop where
  | nothing : Spells [] []
  | closing : Spells ["--"] []
  | word {argument : String} {arguments : List String} {given more : List Given}
      (first : SpellsWord argument given none) (behind : Spells arguments more) :
      Spells (argument :: arguments) (given ++ more)
  | apart {argument value : String} {flag : Flag} {arguments : List String}
      {given more : List Given} (first : SpellsWord argument given (some flag))
      (plain : isPlain value = true) (behind : Spells arguments more) :
      Spells (argument :: value :: arguments) (given ++ ⟨flag, some value⟩ :: more)

/-! ### Letters and names -/

open Reading

section

variable {reading next final : Reading} {flag : Flag} {value : String} {given : Given}
  {more front back : List Given}

theorem ofShort?_eq_some_iff {letter : Char} :
    Flag.ofShort? letter = some flag ↔ flag.short = some letter := by
  constructor
  · intro found
    unfold Flag.ofShort? at found
    have isFound := List.find?_some found
    exact beq_iff_eq.mp isFound
  · intro isLetter
    cases flag <;> first
      | (obtain rfl := Option.some.inj isLetter; rfl)
      | exact nomatch isLetter

theorem ofLong?_eq_some_iff {name : String} : Flag.ofLong? name = some flag ↔ flag.long = name := by
  constructor
  · intro found
    unfold Flag.ofLong? at found
    have isFound := List.find?_some found
    exact beq_iff_eq.mp isFound
  · rintro rfl
    cases flag <;> decide

theorem no_equals_in_long : '=' ∉ flag.long.toList := by
  cases flag <;> decide

theorem eq_of_short {other : Flag} {letter : Char} (isLetter : flag.short = some letter)
    (isLetterToo : other.short = some letter) : other = flag :=
  Option.some.inj
    ((ofShort?_eq_some_iff.mpr isLetterToo).symm.trans (ofShort?_eq_some_iff.mpr isLetter))

theorem value_eq_ok_iff {rest : List Char} (takes : flag.takesValue = true) :
    (match rest with
      | [] => reading.takeUp flag none
      | '=' :: value => reading.takeUp flag (some (String.ofList value))
      | value => reading.takeUp flag (some (String.ofList value))) = .ok next ↔
      ∃ given waiting, SpellsValue flag rest given waiting ∧
        reading.Follows given waiting next := by
  split
  · rw [takeUp_none_eq_ok_iff]
    constructor
    · intro followed
      exact ⟨[], some flag, .apart, followed⟩
    · rintro ⟨_, _, spelled, followed⟩
      cases spelled with
      | attached _ nonempty _ => exact absurd rfl nonempty
      | apart => exact followed
  · rename_i value
    rw [takeUp_value_eq_ok_iff takes]
    constructor
    · intro followed
      exact ⟨_, none, .equals value, followed⟩
    · rintro ⟨_, _, spelled, followed⟩
      cases spelled with
      | attached _ _ plain => exact absurd rfl plain
      | equals => exact followed
  · rename_i isNonempty noEquals
    rw [takeUp_value_eq_ok_iff takes]
    constructor
    · intro followed
      refine ⟨_, none, .attached rest isNonempty ?_, followed⟩
      intro isFirst
      obtain ⟨value, rfl⟩ := List.head?_eq_some_iff.mp isFirst
      exact noEquals value rfl
    · rintro ⟨_, _, spelled, followed⟩
      cases spelled with
      | attached => exact followed
      | equals value => exact absurd rfl (noEquals value)
      | apart => exact absurd rfl isNonempty

theorem spellsLetters_valued {letter : Char} {rest : List Char} {waiting : Option Flag}
    {given : List Given} (isLetter : flag.short = some letter) (takes : flag.takesValue = true) :
    SpellsLetters (letter :: rest) given waiting ↔ SpellsValue flag rest given waiting := by
  refine ⟨fun spelled => ?_, .valued isLetter takes⟩
  cases spelled with
  | bare isLetterToo takesNone _ =>
      rw [eq_of_short isLetter isLetterToo, takes] at takesNone
      cases takesNone
  | valued isLetterToo _ spelled => exact eq_of_short isLetter isLetterToo ▸ spelled

theorem spellsLetters_bare {letter : Char} {rest : List Char} {waiting : Option Flag}
    {given : List Given} (isLetter : flag.short = some letter)
    (takesNone : flag.takesValue = false) :
    SpellsLetters (letter :: rest) given waiting ↔
      ∃ others, given = ⟨flag, none⟩ :: others ∧ SpellsLetters rest others waiting := by
  constructor
  · intro spelled
    cases spelled with
    | bare isLetterToo _ others =>
        obtain rfl := eq_of_short isLetter isLetterToo
        exact ⟨_, rfl, others⟩
    | valued isLetterToo takes _ =>
        rw [eq_of_short isLetter isLetterToo, takesNone] at takes
        cases takes
  · rintro ⟨others, rfl, spelled⟩
    exact .bare isLetter takesNone spelled

theorem not_spellsLetters {letter : Char} {rest : List Char} {waiting : Option Flag}
    {given : List Given} (unknown : Flag.ofShort? letter = none) :
    ¬SpellsLetters (letter :: rest) given waiting := by
  intro spelled
  cases spelled with
  | bare isLetter _ _ =>
      rw [ofShort?_eq_some_iff.mpr isLetter] at unknown
      cases unknown
  | valued isLetter _ _ =>
      rw [ofShort?_eq_some_iff.mpr isLetter] at unknown
      cases unknown

/-- Letters are read as the options they spell. Where there are none, nothing may wait, since
nothing settles it. -/
theorem readShort_eq_ok_iff {letters : List Char}
    (settles : letters = [] → reading.pending = none) :
    reading.readShort letters = .ok next ↔
      ∃ given waiting, SpellsLetters letters given waiting ∧
        reading.Follows given waiting next := by
  induction letters generalizing reading with
  | nil =>
      have idle := settles rfl
      constructor
      · intro isNext
        obtain rfl := Except.ok.inj isNext
        exact ⟨[], none, .nothing, follows_nil.mpr ((settled_eq_of_idle idle).mpr rfl)⟩
      · rintro ⟨_, _, ⟨⟩, followed⟩
        rw [(settled_eq_of_idle idle).mp (follows_nil.mp followed)]
        rfl
  | cons letter rest ih =>
      unfold readShort
      cases isFound : Flag.ofShort? letter with
      | none =>
          refine iff_of_false (by rintro ⟨⟩) ?_
          rintro ⟨_, _, spelled, _⟩
          exact not_spellsLetters isFound spelled
      | some flag =>
          have isLetter := ofShort?_eq_some_iff.mp isFound
          dsimp only
          split
          · rename_i takes
            simp only [spellsLetters_valued isLetter takes]
            exact value_eq_ok_iff takes
          · rename_i takesNone
            have takesNone := Bool.eq_false_iff.mpr takesNone
            simp only [spellsLetters_bare isLetter takesNone]
            -- The option is taken, then the other letters follow with nothing waiting.
            have others {middle : Reading} (followed : reading.Follows [⟨flag, none⟩] none middle) :
                middle.readShort rest = .ok next ↔ ∃ given waiting,
                  SpellsLetters rest given waiting ∧ middle.Follows given waiting next :=
              ih fun _ => (rest_of_follows followed).1
            constructor
            · intro isNext
              split at isNext
              · rename_i middle switched
                have followed := (switch_eq_ok_iff takesNone).mp switched
                obtain ⟨given, waiting, spelled, behind⟩ := (others followed).mp isNext
                exact ⟨⟨flag, none⟩ :: given, waiting, ⟨given, rfl, spelled⟩,
                  follows_cons.mpr ⟨middle, followed, behind⟩⟩
              · cases isNext
            · rintro ⟨_, waiting, ⟨given, rfl, spelled⟩, followed⟩
              obtain ⟨middle, first, behind⟩ := follows_cons.mp followed
              rw [(switch_eq_ok_iff takesNone).mpr first]
              exact (others first).mpr ⟨given, waiting, spelled, behind⟩

theorem splitPair_long : splitPair flag.long = none := splitPair_eq_none no_equals_in_long

/-- A name is that of one option at most. -/
theorem exists_long_iff {name : String} {holds : Flag → Prop}
    (isFound : Flag.ofLong? name = some flag) :
    (∃ other, other.long = name ∧ holds other) ↔ holds flag := by
  constructor
  · rintro ⟨other, isLong, isHeld⟩
    obtain rfl := Option.some.inj ((ofLong?_eq_some_iff.mpr isLong).symm.trans isFound)
    exact isHeld
  · intro isHeld
    exact ⟨flag, ofLong?_eq_some_iff.mp isFound, isHeld⟩

theorem not_exists_long {name : String} {holds : Flag → Prop}
    (unknown : Flag.ofLong? name = none) : ¬∃ flag, Flag.long flag = name ∧ holds flag := by
  rintro ⟨flag, isLong, _⟩
  rw [ofLong?_eq_some_iff.mpr isLong] at unknown
  cases unknown

theorem spellsName_unsplit {body : String} {given : List Given} {waiting : Option Flag}
    (unsplit : splitPair body = none) :
    SpellsName body given waiting ↔
      ∃ flag, flag.long = body ∧
        (flag.takesValue = false ∧ given = [⟨flag, none⟩] ∧ waiting = none ∨
          flag.takesValue = true ∧ given = [] ∧ waiting = some flag) := by
  constructor
  · intro spelled
    cases spelled with
    | bare takesNone => exact ⟨_, rfl, .inl ⟨takesNone, rfl, rfl⟩⟩
    | equals value _ =>
        rw [splitPair_joined no_equals_in_long] at unsplit
        exact nomatch unsplit
    | apart takes => exact ⟨_, rfl, .inr ⟨takes, rfl, rfl⟩⟩
  · rintro ⟨flag, rfl, ⟨takesNone, rfl, rfl⟩ | ⟨takes, rfl, rfl⟩⟩
    · exact .bare takesNone
    · exact .apart takes

theorem spellsName_split {body name value : String} {given : List Given} {waiting : Option Flag}
    (split : splitPair body = some (name, value)) :
    SpellsName body given waiting ↔
      ∃ flag, flag.long = name ∧
        flag.takesValue = true ∧ given = [⟨flag, some value⟩] ∧ waiting = none := by
  constructor
  · intro spelled
    cases spelled with
    | bare _ => exact nomatch splitPair_long.symm.trans split
    | apart _ => exact nomatch splitPair_long.symm.trans split
    | equals value takes =>
        rw [splitPair_joined no_equals_in_long] at split
        obtain ⟨rfl, rfl⟩ := Prod.mk.inj (Option.some.inj split)
        exact ⟨_, rfl, takes, rfl, rfl⟩
  · rintro ⟨flag, rfl, takes, rfl, rfl⟩
    rw [eq_of_splitPair split]
    exact .equals value takes

theorem readLong_eq_ok_iff {body : String} :
    reading.readLong body = .ok next ↔
      ∃ given waiting, SpellsName body given waiting ∧ reading.Follows given waiting next := by
  unfold readLong
  rw [front_of_splitPair]
  cases split : splitPair body with
  | none =>
      simp only [spellsName_unsplit split]
      cases isFound : Flag.ofLong? body with
      | none =>
          refine iff_of_false (by rintro ⟨⟩) ?_
          rintro ⟨_, _, isLong, _⟩
          exact not_exists_long isFound isLong
      | some flag =>
          simp only [exists_long_iff isFound]
          cases takes : flag.takesValue with
          | true =>
              simp only [Bool.true_eq_false, false_and, false_or, true_and, and_assoc,
                exists_and_left, exists_eq_left]
              exact takeUp_none_eq_ok_iff
          | false =>
              simp only [Bool.false_eq_true, false_and, or_false, true_and, and_assoc,
                exists_and_left, exists_eq_left]
              exact switch_eq_ok_iff takes
  | some both =>
      obtain ⟨name, value⟩ := both
      simp only [spellsName_split split]
      cases isFound : Flag.ofLong? name with
      | none =>
          refine iff_of_false (by rintro ⟨⟩) ?_
          rintro ⟨_, _, isLong, _⟩
          exact not_exists_long isFound isLong
      | some flag =>
          simp only [exists_long_iff isFound]
          cases takes : flag.takesValue with
          | true =>
              simp only [true_and, and_assoc, exists_and_left, exists_eq_left]
              exact takeUp_value_eq_ok_iff takes
          | false =>
              refine iff_of_false (by rintro ⟨⟩) ?_
              rintro ⟨_, _, ⟨takesToo, _⟩, _⟩
              cases takesToo

/-! ### Arguments -/

theorem toList_name {body : String} : ("--" ++ body).toList = '-' :: '-' :: body.toList := by
  rw [String.toList_append]
  rfl

theorem toList_letters {letters : List Char} :
    ("-" ++ String.ofList letters).toList = '-' :: letters := by
  rw [String.toList_append]
  exact congrArg ('-' :: ·) String.toList_ofList

theorem spellsWord_name {body : String} {given : List Given} {waiting : Option Flag} :
    SpellsWord ("--" ++ body) given waiting ↔ SpellsName body given waiting := by
  refine ⟨fun spelled => ?_, .name⟩
  generalize isWord : "--" ++ body = word at spelled
  have isList := congrArg String.toList isWord
  rw [toList_name] at isList
  cases spelled with
  | name spelled =>
      rw [toList_name] at isList
      obtain ⟨-, -, isBody⟩ : '-' = '-' ∧ '-' = '-' ∧ body.toList = _ := by simpa using isList
      exact String.toList_inj.mp isBody ▸ spelled
  | letters _ noDash _ =>
      rw [toList_letters] at isList
      obtain rfl := (List.cons.inj isList).2
      exact absurd rfl noDash

theorem spellsWord_letters {letters : List Char} {given : List Given} {waiting : Option Flag}
    (nonempty : letters ≠ []) (noDash : letters.head? ≠ some '-') :
    SpellsWord ("-" ++ String.ofList letters) given waiting ↔
      SpellsLetters letters given waiting := by
  refine ⟨fun spelled => ?_, .letters nonempty noDash⟩
  generalize isWord : "-" ++ String.ofList letters = word at spelled
  have isList := congrArg String.toList isWord
  rw [toList_letters] at isList
  cases spelled with
  | name _ =>
      rw [toList_name] at isList
      obtain rfl := (List.cons.inj isList).2
      exact absurd rfl noDash
  | letters _ _ spelled =>
      rw [toList_letters] at isList
      exact (List.cons.inj isList).2 ▸ spelled

theorem isPlain_eq_false_iff {argument : String} :
    isPlain argument = false ↔ ∃ letter letters, argument.toList = '-' :: letter :: letters := by
  unfold isPlain
  split
  · rename_i letter letters isList
    exact iff_of_true rfl ⟨letter, letters, isList⟩
  · rename_i notOption
    refine iff_of_false nofun ?_
    rintro ⟨letter, letters, isList⟩
    exact notOption letter letters isList

theorem readArgument_eq_ok_iff {argument : String} (opened : reading.closed = false)
    (isOption : isPlain argument = false) (notClosing : argument ≠ "--") :
    reading.readArgument argument = .ok next ↔
      ∃ given waiting, SpellsWord argument given waiting ∧ reading.Follows given waiting next := by
  obtain ⟨first, others, isList⟩ := isPlain_eq_false_iff.mp isOption
  unfold readArgument
  rw [opened]
  split
  · rename_i isClosing
    exact absurd (String.toList_inj.mp isClosing) notClosing
  · rename_i body _ _ isList
    have isWord : argument = "--" ++ String.ofList body := by
      refine String.toList_inj.mp ?_
      rw [isList, toList_name, String.toList_ofList]
    simp only [isWord, spellsWord_name]
    exact readLong_eq_ok_iff
  · rename_i letter letters _ noDash _ isList
    have isWord : argument = "-" ++ String.ofList (letter :: letters) := by
      refine String.toList_inj.mp ?_
      rw [isList, toList_letters]
    have startsElse : (letter :: letters).head? ≠ some '-' := fun isDash =>
      noDash (Option.some.inj isDash)
    simp only [isWord, spellsWord_letters (List.cons_ne_nil letter letters) startsElse]
    exact readShort_eq_ok_iff nofun
  · rename_i notOption
    exact absurd isList (notOption first others)
  · rename_i isClosed
    cases isClosed

theorem readArgument_plain {argument : String} (plain : isPlain argument = true) :
    reading.readArgument argument = .ok next ↔
      ∃ flag, reading.closed = false ∧ reading.pending = some (flag, none) ∧
        next = reading.hold flag argument := by
  have notOption : ¬∃ letter letters, argument.toList = '-' :: letter :: letters := fun isOption =>
    Bool.false_ne_true ((isPlain_eq_false_iff.mpr isOption).symm.trans plain)
  unfold readArgument
  split
  · rename_i isList
    exact absurd ⟨_, _, isList⟩ notOption
  · rename_i isList
    exact absurd ⟨_, _, isList⟩ notOption
  · rename_i isList
    exact absurd ⟨_, _, isList⟩ notOption
  · rename_i opened _ _ _
    split
    · rename_i flag waits
      rw [Except.ok.injEq, eq_comm, waits]
      constructor
      · rintro rfl
        exact ⟨flag, opened, rfl, rfl⟩
      · rintro ⟨_, _, ⟨rfl⟩, rfl⟩
        rfl
    · rename_i noneWaits
      refine iff_of_false (by rintro ⟨⟩) ?_
      rintro ⟨flag, _, waits, _⟩
      exact noneWaits flag waits
  · rename_i closed
    refine iff_of_false (by rintro ⟨⟩) ?_
    rintro ⟨_, opened, _⟩
    rw [opened] at closed
    cases closed

theorem readArgument_closed {argument : String} (closed : reading.closed = true) :
    reading.readArgument argument ≠ .ok next := by
  unfold readArgument
  rw [closed]
  exact nofun

theorem settle_of_waiting (waits : reading.pending = some (flag, none)) :
    reading.settle.check ≠ .ok next := by
  unfold settle
  rw [waits]
  exact nofun

theorem settle_close :
    settle { reading with closed := true } =
      ⟨{ reading.settle.reading with closed := true }, reading.settle.error⟩ := by
  obtain ⟨settings, given, pending, closed⟩ := reading
  match pending with
  | none => rfl
  | some (flag, none) => rfl
  | some (flag, some value) =>
      unfold settle settleValue refuseRepeated note
      dsimp only
      split
      · rfl
      · cases flag <;> (unfold takeValue setPath Reading.set; dsimp only; repeat' split) <;> rfl

/-- Read the arguments and settle what waits. -/
def finish (reading : Reading) (arguments : List String) : Except Stop Settings := do
  let reading ← arguments.foldlM readArgument reading
  let final ← reading.settle.check
  return final.settings

variable {settings : Settings} {argument : String} {arguments : List String}

theorem finish_nil :
    finish reading [] = .ok settings ↔
      ∃ final, reading.settle.check = .ok final ∧ final.settings = settings := by
  unfold finish
  rw [List.foldlM_nil, pure_bind, bind_eq_ok_iff]
  exact exists_congr fun final => and_congr_right fun _ => ⟨Except.ok.inj, congrArg Except.ok⟩

theorem finish_cons :
    finish reading (argument :: arguments) = .ok settings ↔
      ∃ next, reading.readArgument argument = .ok next ∧
        finish next arguments = .ok settings := by
  unfold finish
  rw [List.foldlM_cons, bind_assoc]
  exact bind_eq_ok_iff

theorem finish_closing (opened : reading.closed = false) :
    finish reading ("--" :: arguments) = .ok settings ↔
      arguments = [] ∧ finish reading [] = .ok settings := by
  have isRead : reading.readArgument "--" = .ok { reading with closed := true } := by
    unfold readArgument
    rw [opened]
    rfl
  have settlesAlike : finish { reading with closed := true } [] = finish reading [] := by
    unfold finish
    rw [List.foldlM_nil, List.foldlM_nil, pure_bind, pure_bind, settle_close]
    unfold Settled.check
    cases reading.settle.error <;> rfl
  simp only [finish_cons, isRead]
  constructor
  · rintro ⟨_, ⟨rfl⟩, finishes⟩
    cases arguments with
    | nil => exact ⟨rfl, settlesAlike ▸ finishes⟩
    | cons argument arguments =>
        obtain ⟨_, isNext, _⟩ := finish_cons.mp finishes
        exact absurd isNext (readArgument_closed rfl)
  · rintro ⟨rfl, finishes⟩
    exact ⟨_, rfl, settlesAlike.trans finishes⟩

/-- An option that waits for its value is given the next argument, which may not look like an
option. -/
theorem finish_waiting (opened : reading.closed = false)
    (waits : reading.pending = some (flag, none)) :
    finish reading arguments = .ok settings ↔
      ∃ value rest, arguments = value :: rest ∧ isPlain value = true ∧
        finish (reading.hold flag value) rest = .ok settings := by
  cases arguments with
  | nil =>
      refine iff_of_false ?_ ?_
      · intro finishes
        obtain ⟨_, settles, _⟩ := finish_nil.mp finishes
        exact settle_of_waiting waits settles
      · rintro ⟨_, _, isList, _⟩
        cases isList
  | cons argument arguments =>
      cases plain : isPlain argument with
      | true =>
          simp only [finish_cons, readArgument_plain plain]
          constructor
          · rintro ⟨_, ⟨other, _, waitsToo, rfl⟩, finishes⟩
            rw [waits] at waitsToo
            obtain ⟨rfl⟩ := waitsToo
            exact ⟨argument, arguments, rfl, plain, finishes⟩
          · rintro ⟨_, _, ⟨rfl⟩, _, finishes⟩
            exact ⟨_, ⟨flag, opened, waits, rfl⟩, finishes⟩
      | false =>
          refine iff_of_false ?_ ?_
          · intro finishes
            by_cases closing : argument = "--"
            · subst closing
              obtain ⟨_, _, settles, _⟩ :=
                ((finish_closing opened).mp finishes).imp_right finish_nil.mp
              exact settle_of_waiting waits settles
            · obtain ⟨next, isNext, _⟩ := finish_cons.mp finishes
              obtain ⟨_, _, _, _, _, settles, _⟩ :=
                (readArgument_eq_ok_iff opened plain closing).mp isNext
              exact settle_of_waiting waits settles
          · rintro ⟨_, _, ⟨rfl⟩, isPlain, _⟩
            exact Bool.false_ne_true (plain.symm.trans isPlain)

theorem takes_of_apart {given : List Given} (spelled : SpellsWord argument given (some flag)) :
    flag.takesValue = true := by
  have ofLetters {letters : List Char} {given : List Given} {waiting : Option Flag}
      (spelled : SpellsLetters letters given waiting) :
      ∀ flag, waiting = some flag → flag.takesValue = true := by
    induction spelled with
    | nothing => exact nofun
    | bare _ _ _ ih => exact ih
    | valued _ takes spelled =>
        rintro _ rfl
        cases spelled with
        | apart => exact takes
  cases spelled with
  | name spelled =>
      cases spelled with
      | apart takes => exact takes
  | letters _ _ spelled => exact ofLetters spelled flag rfl

theorem follows_hold (idle : reading.pending = none) (takes : flag.takesValue = true) :
    ((reading.waitFor (some flag)).hold flag value).Follows more none final ↔
      reading.Follows (⟨flag, some value⟩ :: more) none final := by
  rw [← List.nil_append more, follows_append, follows_cons]
  refine exists_congr fun next => and_congr_left fun _ => ?_
  have asIfGiven : ((reading.waitFor (some flag)).hold flag value).settle =
      reading.settleValue flag value := by
    obtain ⟨settings, given, pending, closed⟩ := reading
    obtain rfl : pending = none := idle
    rfl
  rw [follows_nil, follows_single, asIfGiven, settleValue_eq_ok_iff takes]
  simp only [settled_eq_of_idle idle, exists_eq_left]

theorem follows_value (takes : flag.takesValue = true) :
    reading.Follows (front ++ ⟨flag, some value⟩ :: back) none final ↔
      ∃ next, reading.Follows front (some flag) next ∧
        (next.hold flag value).Follows back none final := by
  rw [follows_append]
  constructor
  · rintro ⟨middle, first, behind⟩
    obtain ⟨settled, _, settles, taken, rfl⟩ := id first
    exact ⟨middle.waitFor (some flag), ⟨settled, middle, settles, taken, rfl⟩,
      (follows_hold (rest_of_follows first).1 takes).mpr behind⟩
  · rintro ⟨_, ⟨settled, middle, settles, taken, rfl⟩, behind⟩
    have first : reading.Follows front none middle := ⟨settled, middle, settles, taken, rfl⟩
    exact ⟨middle, first, (follows_hold (rest_of_follows first).1 takes).mp behind⟩

theorem not_spells_empty {given : List Given} {waiting : Option Flag} :
    ¬SpellsName "" given waiting := by
  have longNonempty (flag : Flag) : flag.long ≠ "" := by cases flag <;> decide
  rw [spellsName_unsplit rfl]
  rintro ⟨flag, isLong, _⟩
  exact longNonempty flag isLong

theorem not_plain_of_spells {given : List Given} {waiting : Option Flag}
    (spelled : SpellsWord argument given waiting) : isPlain argument = false ∧ argument ≠ "--" := by
  rw [isPlain_eq_false_iff]
  cases spelled with
  | name spelled =>
      refine ⟨⟨_, _, toList_name⟩, fun isClosing => ?_⟩
      have isList := congrArg String.toList isClosing
      rw [toList_name] at isList
      obtain rfl := String.toList_eq_nil_iff.mp (List.cons.inj (List.cons.inj isList).2).2
      exact not_spells_empty spelled
  | letters nonempty noDash _ =>
      obtain ⟨letter, others, rfl⟩ := List.exists_cons_of_ne_nil nonempty
      refine ⟨⟨_, _, toList_letters⟩, fun isClosing => ?_⟩
      have isList := congrArg String.toList isClosing
      rw [toList_letters] at isList
      obtain rfl := (List.cons.inj (List.cons.inj isList).2).1
      exact noDash rfl

theorem spells_closing {given : List Given} :
    Spells ("--" :: arguments) given ↔ arguments = [] ∧ given = [] := by
  constructor
  · intro spelled
    cases spelled with
    | closing => exact ⟨rfl, rfl⟩
    | word first _ => exact absurd rfl (not_plain_of_spells first).2
    | apart first _ _ => exact absurd rfl (not_plain_of_spells first).2
  · rintro ⟨rfl, rfl⟩
    exact .closing

theorem not_spells_of_plain {given : List Given} (plain : isPlain argument = true) :
    ¬Spells (argument :: arguments) given := by
  intro spelled
  cases spelled with
  | closing => cases plain
  | word first _ => exact Bool.false_ne_true ((not_plain_of_spells first).1.symm.trans plain)
  | apart first _ _ => exact Bool.false_ne_true ((not_plain_of_spells first).1.symm.trans plain)

/-- A run over the arguments takes the options they spell, one argument after the other, or two
where the second one is the value of an option in the first. -/
theorem finish_eq_ok_iff (reading : Reading) (arguments : List String)
    (opened : reading.closed = false) (ready : ∀ flag, reading.pending ≠ some (flag, none)) :
    finish reading arguments = .ok settings ↔
      ∃ given final, Spells arguments given ∧ reading.Follows given none final ∧
        final.settings = settings := by
  have atEnd : finish reading [] = .ok settings ↔
      ∃ final, reading.Follows [] none final ∧ final.settings = settings := by
    simp only [finish_nil, follows_nil]
  match arguments with
  | [] =>
      rw [atEnd]
      constructor
      · rintro ⟨final, followed, isFinal⟩
        exact ⟨[], final, .nothing, followed, isFinal⟩
      · rintro ⟨_, final, ⟨⟩, followed, isFinal⟩
        exact ⟨final, followed, isFinal⟩
  | argument :: rest =>
      by_cases closing : argument = "--"
      · subst closing
        simp only [finish_closing opened, atEnd, spells_closing, and_assoc, exists_and_left,
          exists_eq_left]
      cases plain : isPlain argument with
      | true =>
          refine iff_of_false ?_ ?_
          · intro finishes
            obtain ⟨_, isNext, _⟩ := finish_cons.mp finishes
            obtain ⟨flag, _, waits, _⟩ := (readArgument_plain plain).mp isNext
            exact ready flag waits
          · rintro ⟨_, _, spelled, _⟩
            exact not_spells_of_plain plain spelled
      | false =>
          simp only [finish_cons, readArgument_eq_ok_iff opened plain closing]
          constructor
          · rintro ⟨next, ⟨given, waiting, first, followed⟩, finishes⟩
            obtain ⟨pending, closed⟩ := rest_of_follows followed
            have nextOpened := closed.trans opened
            cases waiting with
            | none =>
                obtain ⟨more, final, behind, followedBehind, isFinal⟩ :=
                  (finish_eq_ok_iff next _ nextOpened (by rw [pending]; exact nofun)).mp finishes
                exact ⟨given ++ more, final, .word first behind,
                  follows_append.mpr ⟨next, followed, followedBehind⟩, isFinal⟩
            | some flag =>
                obtain ⟨value, behindValue, rfl, plainValue, finishes⟩ :=
                  (finish_waiting nextOpened pending).mp finishes
                obtain ⟨more, final, behind, followedBehind, isFinal⟩ :=
                  (finish_eq_ok_iff (next.hold flag value) _ nextOpened nofun).mp finishes
                exact ⟨given ++ ⟨flag, some value⟩ :: more, final, .apart first plainValue behind,
                  (follows_value (takes_of_apart first)).mpr ⟨next, followed, followedBehind⟩,
                  isFinal⟩
          · rintro ⟨_, final, spelled, followed, isFinal⟩
            cases spelled with
            | closing => exact absurd rfl closing
            | word first behind =>
                obtain ⟨next, followed, followedBehind⟩ := follows_append.mp followed
                obtain ⟨pending, closed⟩ := rest_of_follows followed
                exact ⟨next, ⟨_, none, first, followed⟩,
                  (finish_eq_ok_iff next _ (closed.trans opened) (by rw [pending]; exact nofun)).mpr
                    ⟨_, final, behind, followedBehind, isFinal⟩⟩
            | apart first plainValue behind =>
                rename_i value flag _ _ _
                obtain ⟨next, followed, followedBehind⟩ :=
                  (follows_value (takes_of_apart first)).mp followed
                obtain ⟨pending, closed⟩ := rest_of_follows followed
                have nextOpened := closed.trans opened
                exact ⟨next, ⟨_, some _, first, followed⟩,
                  (finish_waiting nextOpened pending).mpr ⟨_, _, rfl, plainValue,
                    (finish_eq_ok_iff (next.hold flag value) _ nextOpened nofun).mpr
                      ⟨_, final, behind, followedBehind, isFinal⟩⟩⟩
termination_by arguments.length

/-- Arguments can be read if and only if they spell options that are accepted. -/
theorem parse_eq_ok_iff :
    parse arguments = .ok settings ↔
      ∃ given, Spells arguments given ∧ Accepted given ∧ settings = settingsOf given := by
  refine (finish_eq_ok_iff {} arguments rfl nofun).trans (exists_congr fun given => ?_)
  rw [exists_and_left]
  refine and_congr_right fun _ => ?_
  constructor
  · rintro ⟨_, ⟨settled, final, settles, taken, rfl⟩, rfl⟩
    obtain rfl := (settled_eq_of_idle rfl).mp settles
    obtain ⟨⟨accepted, _⟩, rfl⟩ := takes_iff.mp taken
    exact ⟨accepted, settings_foldl_absorb⟩
  · rintro ⟨accepted, rfl⟩
    refine ⟨_, ⟨{}, _, (settled_eq_of_idle rfl).mpr rfl, takes_iff.mpr ⟨⟨accepted, nofun⟩, rfl⟩,
      rfl⟩, settings_foldl_absorb⟩

end

end Codemod.CommandLine
