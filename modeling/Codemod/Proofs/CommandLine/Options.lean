import Codemod.Proofs.CommandLine.Pair

/-!
What options ask for, and how they are taken.

Options are taken one after the other, each by itself but for those that may not be repeated. One
that waits for its value, or is yet to be settled with it, is settled before others are taken.

Main statement: options are taken if and only if they are accepted together, and the settings are
what they make of the earlier ones, in the order in which they are given.
-/

set_option autoImplicit false

namespace Codemod.CommandLine

/-- An option as it is given, with its value if it takes one. -/
structure Given where
  flag : Flag
  value : Option String
deriving DecidableEq, Repr

/-! ### What options ask for -/

namespace Given

/-- Paths are not empty, renamings have pairs of names, and nothing but a run is asked for. -/
def Fits (given : Given) : Prop :=
  match given.flag, given.value with
  | .root, some value => value ≠ ""
  | .output, some value => value ≠ ""
  | .rules, some value => value ≠ ""
  | .pattern, some _ => True
  | .renameDecl, some value => ∃ pair, IsPair value pair
  | .rename, some value => ∃ pair, IsPair value pair
  | .keepGoing, none => True
  | .verbose, none => True
  | _, _ => False

/-- The settings behind an option that fits. -/
def change (given : Given) (settings : Settings) : Settings :=
  match given.flag, given.value with
  | .root, some value => { settings with root := value }
  | .output, some value => { settings with output := value }
  | .rules, some value => { settings with rules := some value }
  | .pattern, some value => { settings with pattern := value }
  | .renameDecl, some value =>
      { settings with
        renameDecl := settings.renameDecl ++ (parseRename value).toOption.toList }
  | .rename, some value =>
      { settings with rename := settings.rename ++ (parseRename value).toOption.toList }
  | .keepGoing, none => { settings with keepGoing := true }
  | .verbose, none => { settings with verbose := true }
  | _, _ => settings

end Given

/-- Options that can be given together. -/
structure Accepted (given : List Given) : Prop where
  fit : ∀ option, option ∈ given → option.Fits
  once : given.Pairwise fun earlier later =>
    earlier.flag = later.flag → earlier.flag.isRepeatable = true

/-- What options make of the default settings. -/
def settingsOf (given : List Given) : Settings :=
  given.foldl (fun settings option => option.change settings) {}

/-! ### Taking options -/

namespace Reading

/-- The option fits and is not given a second time unless it may be. -/
def Admits (reading : Reading) (given : Given) : Prop :=
  given.Fits ∧ (given.flag ∈ reading.given → given.flag.isRepeatable = true)

def absorb (reading : Reading) (given : Given) : Reading :=
  { reading.note given.flag with settings := given.change reading.settings }

/-- Options are admitted and taken one by one. -/
inductive Takes : Reading → List Given → Reading → Prop where
  | nothing (reading : Reading) : Takes reading [] reading
  | next {reading final : Reading} {given : Given} {more : List Given}
      (admitted : reading.Admits given) (behind : Takes (reading.absorb given) more final) :
      Takes reading (given :: more) final

def waitFor (reading : Reading) : Option Flag → Reading
  | none => reading
  | some flag => { reading with pending := some (flag, none) }

/-- The value has come, and is not looked at yet. -/
def hold (reading : Reading) (flag : Flag) (value : String) : Reading :=
  { reading with pending := some (flag, some value) }

/-- What waits is settled, then options are taken, and another one may come to wait. -/
def Follows (reading : Reading) (given : List Given) (waiting : Option Flag) (next : Reading) :
    Prop :=
  ∃ settled final, reading.settle.check = .ok settled ∧ settled.Takes given final ∧
    next = final.waitFor waiting

end Reading

theorem bind_eq_ok_iff {α β ε : Type} {attempt : Except ε α} {next : α → Except ε β} {result : β} :
    (attempt >>= next) = .ok result ↔ ∃ value, attempt = .ok value ∧ next value = .ok result := by
  cases attempt with
  | error failure => exact iff_of_false nofun (by rintro ⟨_, isOk, _⟩; exact nomatch isOk)
  | ok value =>
      constructor
      · intro succeeds
        exact ⟨value, rfl, succeeds⟩
      · rintro ⟨_, ⟨rfl⟩, succeeds⟩
        exact succeeds

open Reading

section

variable {reading next final : Reading} {flag : Flag} {value : String} {given : Given}
  {more front back : List Given}

theorem takes_nil : reading.Takes [] final ↔ final = reading := by
  constructor
  · intro taken
    cases taken
    rfl
  · rintro rfl
    exact .nothing final

theorem takes_cons :
    reading.Takes (given :: more) final ↔
      reading.Admits given ∧ (reading.absorb given).Takes more final := by
  constructor
  · intro taken
    cases taken with
    | next admitted behind => exact ⟨admitted, behind⟩
  · rintro ⟨admitted, behind⟩
    exact .next admitted behind

theorem takes_append :
    reading.Takes (front ++ back) final ↔
      ∃ middle, reading.Takes front middle ∧ middle.Takes back final := by
  induction front generalizing reading with
  | nil =>
      simp only [List.nil_append, takes_nil]
      constructor
      · intro taken
        exact ⟨reading, rfl, taken⟩
      · rintro ⟨_, rfl, taken⟩
        exact taken
  | cons first front ih =>
      simp only [List.cons_append, takes_cons, ih, and_assoc, exists_and_left]

theorem note_settings : (reading.note flag).settings = reading.settings := by
  unfold note
  split <;> rfl

theorem note_pending : (reading.note flag).pending = reading.pending := by
  unfold note
  split <;> rfl

theorem note_closed : (reading.note flag).closed = reading.closed := by
  unfold note
  split <;> rfl

theorem mem_note_given {other : Flag} :
    other ∈ (reading.note flag).given ↔ other ∈ reading.given ∨ other = flag := by
  unfold note
  split
  · rename_i isIn
    constructor
    · exact Or.inl
    · rintro (isGiven | rfl)
      · exact isGiven
      · exact List.contains_iff_mem.mp isIn
  · rw [List.mem_append, List.mem_singleton]

/-- Taking options does not touch what waits and what is closed. -/
theorem rest_of_takes (taken : reading.Takes more final) :
    final.pending = reading.pending ∧ final.closed = reading.closed := by
  induction taken with
  | nothing reading => exact ⟨rfl, rfl⟩
  | next _ _ ih => exact ⟨ih.1.trans note_pending, ih.2.trans note_closed⟩

theorem takes_iff :
    reading.Takes more final ↔
      (Accepted more ∧
        ∀ option, option ∈ more → option.flag ∈ reading.given →
          option.flag.isRepeatable = true) ∧
        final = more.foldl absorb reading := by
  induction more generalizing reading with
  | nil =>
      rw [takes_nil, List.foldl_nil]
      exact (and_iff_right ⟨⟨nofun, List.Pairwise.nil⟩, nofun⟩).symm
  | cons first rest ih =>
      rw [takes_cons, ih, List.foldl_cons, ← and_assoc]
      refine and_congr_left fun _ => ?_
      have isGiven (other : Flag) : other ∈ (reading.absorb first).given ↔
          other ∈ reading.given ∨ other = first.flag := mem_note_given
      simp only [isGiven]
      constructor
      · rintro ⟨⟨firstFits, firstFree⟩, ⟨restFits, restOnce⟩, restFree⟩
        refine ⟨⟨List.forall_mem_cons.mpr ⟨firstFits, restFits⟩, ?_⟩,
          List.forall_mem_cons.mpr ⟨firstFree, ?_⟩⟩
        · refine List.pairwise_cons.mpr ⟨?_, restOnce⟩
          intro later isIn same
          exact same ▸ restFree later isIn (Or.inr same.symm)
        · intro option isIn isEarlier
          exact restFree option isIn (Or.inl isEarlier)
      · rintro ⟨⟨fit, once⟩, free⟩
        obtain ⟨firstFits, restFits⟩ := List.forall_mem_cons.mp fit
        obtain ⟨firstFree, restFree⟩ := List.forall_mem_cons.mp free
        obtain ⟨firstOnce, restOnce⟩ := List.pairwise_cons.mp once
        refine ⟨⟨firstFits, firstFree⟩, ⟨restFits, restOnce⟩, ?_⟩
        rintro option isIn (isEarlier | same)
        · exact restFree option isIn isEarlier
        · exact same ▸ firstOnce option isIn same.symm

theorem settings_foldl_absorb :
    (more.foldl absorb reading).settings =
      more.foldl (fun settings option => option.change settings) reading.settings := by
  induction more generalizing reading with
  | nil => rfl
  | cons first rest ih => exact ih

/-! ### Settling -/

theorem check_eq_ok_iff {settled : Settled} :
    settled.check = .ok next ↔ settled.error = none ∧ settled.reading = next := by
  unfold Settled.check
  cases settled.error with
  | none => exact ⟨fun isOk => ⟨rfl, Except.ok.inj isOk⟩, fun both => congrArg _ both.2⟩
  | some error => exact iff_of_false nofun nofun

theorem refuseRepeated_eq_ok_iff {act : Reading → Settled} :
    (reading.refuseRepeated flag act).check = .ok next ↔
      (flag ∈ reading.given → flag.isRepeatable = true) ∧
        (act (reading.note flag)).check = .ok next := by
  unfold refuseRepeated
  split
  · rename_i refused
    obtain ⟨isGiven, single⟩ := Bool.and_eq_true_iff.mp refused
    refine iff_of_false nofun fun both => ?_
    rw [both.1 (List.contains_iff_mem.mp isGiven)] at single
    exact nomatch single
  · rename_i allowed
    refine (and_iff_right fun isGiven => ?_).symm
    cases repeatable : flag.isRepeatable with
    | true => rfl
    | false =>
        rw [List.contains_iff_mem.mpr isGiven, repeatable] at allowed
        exact absurd rfl allowed

theorem set_eq_ok_iff {change : Settings → Settings} :
    (reading.set change).check = .ok next ↔
      next = { reading with settings := change reading.settings } :=
  check_eq_ok_iff.trans ((and_iff_right rfl).trans eq_comm)

theorem setPath_eq_ok_iff {change : Settings → Settings} :
    (reading.setPath flag value change).check = .ok next ↔
      value ≠ "" ∧ next = { reading with settings := change reading.settings } := by
  unfold setPath
  rw [Ne, ← String.isEmpty_iff]
  split
  · rename_i isEmpty
    exact iff_of_false nofun fun both => both.1 isEmpty
  · rename_i nonempty
    exact set_eq_ok_iff.trans (and_iff_right nonempty).symm

/-- A value that has to be a pair is refused unless it is one. -/
theorem setPair_eq_ok_iff (change : List (String × String) → Settings → Settings) :
    (match parseRename value with
      | .ok pair => reading.set (change [pair])
      | .error _ => (⟨reading, some (.invalidRename value flag)⟩ : Settled)).check = .ok next ↔
      (∃ pair, IsPair value pair) ∧ next = { reading with
        settings := change (parseRename value).toOption.toList reading.settings } := by
  simp only [← parseRename_eq_ok_iff]
  cases parseRename value with
  | error wording =>
      refine iff_of_false (by rintro ⟨⟩) ?_
      rintro ⟨⟨_, isOk⟩, _⟩
      cases isOk
  | ok pair => exact set_eq_ok_iff.trans (and_iff_right ⟨pair, rfl⟩).symm

theorem takeValue_eq_ok_iff (takes : flag.takesValue = true) :
    (reading.takeValue flag value).check = .ok next ↔
      Given.Fits ⟨flag, some value⟩ ∧
        next = { reading with settings := Given.change ⟨flag, some value⟩ reading.settings } := by
  cases flag with
  | root => exact setPath_eq_ok_iff
  | output => exact setPath_eq_ok_iff
  | rules => exact setPath_eq_ok_iff
  | pattern => exact set_eq_ok_iff.trans (and_iff_right trivial).symm
  | renameDecl =>
      exact setPair_eq_ok_iff fun pairs settings =>
        { settings with renameDecl := settings.renameDecl ++ pairs }
  | rename =>
      exact setPair_eq_ok_iff fun pairs settings =>
        { settings with rename := settings.rename ++ pairs }
  | keepGoing => cases takes
  | verbose => cases takes
  | help => cases takes
  | version => cases takes

theorem settleValue_eq_ok_iff (takes : flag.takesValue = true) :
    (reading.settleValue flag value).check = .ok next ↔
      reading.Admits ⟨flag, some value⟩ ∧ next = reading.absorb ⟨flag, some value⟩ := by
  unfold settleValue
  rw [refuseRepeated_eq_ok_iff, takeValue_eq_ok_iff takes, note_settings, ← and_assoc,
    and_comm (a := flag ∈ reading.given → _)]
  rfl

theorem settle_of_idle (idle : reading.pending = none) : reading.settle = ⟨reading, none⟩ := by
  cases reading with
  | mk settings given pending closed =>
      obtain rfl : pending = none := idle
      rfl

theorem settled_eq_of_idle (idle : reading.pending = none) :
    reading.settle.check = .ok next ↔ next = reading := by
  rw [settle_of_idle idle, check_eq_ok_iff, and_iff_right rfl, eq_comm]

theorem rest_of_takeValue :
    (reading.takeValue flag value).reading.pending = reading.pending ∧
      (reading.takeValue flag value).reading.closed = reading.closed := by
  unfold takeValue setPath Reading.set
  split <;> (try split) <;> exact ⟨rfl, rfl⟩

theorem rest_of_settle (settles : reading.settle.check = .ok next) :
    next.pending = none ∧ next.closed = reading.closed := by
  obtain ⟨_, rfl⟩ := check_eq_ok_iff.mp settles
  unfold settle settleValue refuseRepeated
  dsimp only
  split
  · exact ⟨rfl, rfl⟩
  · exact ⟨rfl, rfl⟩
  · split
    · exact ⟨rfl, rfl⟩
    · exact ⟨rest_of_takeValue.1.trans note_pending, rest_of_takeValue.2.trans note_closed⟩

/-! ### Single options -/

theorem follows_nil : reading.Follows [] none next ↔ reading.settle.check = .ok next := by
  unfold Follows
  simp only [takes_nil]
  constructor
  · rintro ⟨settled, _, settles, rfl, rfl⟩
    exact settles
  · intro settles
    exact ⟨next, next, settles, rfl, rfl⟩

theorem follows_single :
    reading.Follows [given] none next ↔
      ∃ settled, reading.settle.check = .ok settled ∧ settled.Admits given ∧
        next = settled.absorb given := by
  unfold Follows
  refine exists_congr fun settled => ?_
  simp only [takes_cons, takes_nil]
  constructor
  · rintro ⟨_, settles, ⟨admitted, rfl⟩, rfl⟩
    exact ⟨settles, admitted, rfl⟩
  · rintro ⟨settles, admitted, rfl⟩
    exact ⟨_, settles, ⟨admitted, rfl⟩, rfl⟩

theorem follows_append {waiting : Option Flag} :
    reading.Follows (front ++ back) waiting next ↔
      ∃ middle, reading.Follows front none middle ∧ middle.Follows back waiting next := by
  constructor
  · rintro ⟨settled, final, settles, taken, rfl⟩
    obtain ⟨middle, takenFront, takenBack⟩ := takes_append.mp taken
    have idle : middle.pending = none :=
      (rest_of_takes takenFront).1.trans (rest_of_settle settles).1
    exact ⟨middle, ⟨settled, middle, settles, takenFront, rfl⟩,
      ⟨middle, final, (settled_eq_of_idle idle).mpr rfl, takenBack, rfl⟩⟩
  · rintro ⟨middle, ⟨settled, _, settles, takenFront, rfl⟩, _, final, settlesAgain, takenBack, rfl⟩
    have idle : middle.pending = none :=
      (rest_of_takes takenFront).1.trans (rest_of_settle settles).1
    obtain rfl := (settled_eq_of_idle idle).mp settlesAgain
    exact ⟨settled, final, settles, takes_append.mpr ⟨_, takenFront, takenBack⟩, rfl⟩

theorem follows_cons {waiting : Option Flag} :
    reading.Follows (given :: more) waiting next ↔
      ∃ middle, reading.Follows [given] none middle ∧ middle.Follows more waiting next := by
  rw [← List.singleton_append]
  exact follows_append

theorem rest_of_follows {waiting : Option Flag} (followed : reading.Follows more waiting next) :
    next.pending = waiting.map (·, none) ∧ next.closed = reading.closed := by
  obtain ⟨settled, final, settles, taken, rfl⟩ := followed
  have idle := (rest_of_takes taken).1.trans (rest_of_settle settles).1
  have closed := (rest_of_takes taken).2.trans (rest_of_settle settles).2
  cases waiting with
  | none => exact ⟨idle, closed⟩
  | some flag => exact ⟨rfl, closed⟩

theorem switch_eq_ok_iff (takesNone : flag.takesValue = false) :
    reading.switch flag = .ok next ↔ reading.Follows [⟨flag, none⟩] none next := by
  have ofChange (settled : Reading) (change : Settings → Settings) :
      (settled.refuseRepeated flag fun reading => reading.set change).check = .ok next ↔
        (flag ∈ settled.given → flag.isRepeatable = true) ∧
          next = { settled.note flag with settings := change settled.settings } := by
    rw [refuseRepeated_eq_ok_iff, set_eq_ok_iff, note_settings]
  unfold switch
  rw [bind_eq_ok_iff, follows_single]
  refine exists_congr fun settled => and_congr_right fun _ => ?_
  cases flag with
  | keepGoing =>
      exact (ofChange settled _).trans (and_congr_left fun _ => (and_iff_right trivial).symm)
  | verbose =>
      exact (ofChange settled _).trans (and_congr_left fun _ => (and_iff_right trivial).symm)
  | help => exact iff_of_false nofun fun both => both.1.1
  | version => exact iff_of_false nofun fun both => both.1.1
  | root => exact nomatch takesNone
  | output => exact nomatch takesNone
  | rules => exact nomatch takesNone
  | pattern => exact nomatch takesNone
  | renameDecl => exact nomatch takesNone
  | rename => exact nomatch takesNone

theorem takeUp_value_eq_ok_iff (takes : flag.takesValue = true) :
    reading.takeUp flag (some value) = .ok next ↔
      reading.Follows [⟨flag, some value⟩] none next := by
  unfold takeUp
  rw [bind_eq_ok_iff, follows_single]
  exact exists_congr fun settled => and_congr_right fun _ => settleValue_eq_ok_iff takes

theorem takeUp_none_eq_ok_iff :
    reading.takeUp flag none = .ok next ↔ reading.Follows [] (some flag) next := by
  unfold takeUp Follows
  rw [bind_eq_ok_iff]
  refine exists_congr fun settled => ?_
  simp only [takes_nil]
  constructor
  · rintro ⟨settles, isNext⟩
    exact ⟨settled, settles, rfl, (Except.ok.inj isNext).symm⟩
  · rintro ⟨_, settles, rfl, rfl⟩
    exact ⟨settles, rfl⟩

end

end Codemod.CommandLine
