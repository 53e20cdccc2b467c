import Codemod.Proofs.Grammar.Quote

/-!
What readers give.

`Gives` says of a reader that whatever it reads has a property, provided that the comments it starts
behind are sound, and that the comments it leaves are sound again. The combinators pass it on, so that
the grammar is gone through once, reader by reader.
-/

set_option autoImplicit false

namespace Codemod.Grammar

open Forest (Each)

/-- The comments in front of the next token are sound. -/
def Input.Clean (input : Input) : Prop :=
  ∀ tree, tree ∈ input.comments → tree.isComment = true ∧ tree.Sound

theorem Input.Clean.each {input : Input} (clean : input.Clean) (grade : Grade) :
    Each grade input.comments :=
  fun tree isIn => grade.ofComment (clean tree isIn).1 (clean tree isIn).2

def Reading.Gives {α : Type} (reading : Reading α) (property : α → Prop) : Prop :=
  match reading with
  | .done value next _ => property value ∧ next.Clean
  | .stuck _ => True

namespace Reader

/-- Whatever the reader reads has the property. -/
def Gives {α : Type} (reader : Reader α) (property : α → Prop) : Prop :=
  ∀ input, input.Clean → (reader input).Gives property

/-- The trees that a reader reads are of the grade. -/
abbrev Yields (reader : Reader Forest) (grade : Grade) : Prop := reader.Gives (Each grade)

section

variable {α β : Type} {property : α → Prop} {result : β → Prop}

theorem Gives.done {reader : Reader α} (gives : reader.Gives property) {input next : Input}
    {value : α} {stop : Stop} (clean : input.Clean) (isRead : reader input = .done value next stop) :
    property value ∧ next.Clean := by
  have given := gives input clean
  rw [isRead] at given
  exact given

theorem Gives.mono {weaker : α → Prop} {reader : Reader α} (gives : reader.Gives property)
    (implies : ∀ value, property value → weaker value) : reader.Gives weaker := by
  intro input clean
  cases isRead : reader input with
  | stuck stop => trivial
  | done value next stop =>
      obtain ⟨holds, cleanNext⟩ := gives.done clean isRead
      exact ⟨implies value holds, cleanNext⟩

/-! ### Combinators -/

theorem gives_pure {value : α} (holds : property value) : (Reader.pure value).Gives property :=
  fun _ clean => ⟨holds, clean⟩

theorem gives_return {value : α} (holds : property value) :
    (pure value : Reader α).Gives property :=
  fun _ clean => ⟨holds, clean⟩

theorem gives_refuse : (Reader.refuse : Reader α).Gives property :=
  fun _ _ => trivial

theorem gives_bind {first : Reader α} {next : α → Reader β} (ofFirst : first.Gives property)
    (ofNext : ∀ value, property value → (next value).Gives result) :
    (first >>= next).Gives result := by
  intro input clean
  change (Reader.bind first next input).Gives result
  unfold Reader.bind
  cases isFirst : first input with
  | stuck stop => trivial
  | done value rest stop =>
      obtain ⟨holds, cleanRest⟩ := ofFirst.done clean isFirst
      dsimp only
      cases isNext : next value rest with
      | stuck later => trivial
      | done final behind later => exact (ofNext value holds).done cleanRest isNext

theorem gives_look {next : Input → Reader α} (ofNext : ∀ input, (next input).Gives property) :
    (look >>= next).Gives property := by
  have looks : look.Gives fun _ => True := fun _ clean => ⟨trivial, clean⟩
  exact gives_bind looks fun input _ => ofNext input

theorem gives_require {test : Input → Bool} : (require test).Gives fun _ => True := by
  intro input clean
  unfold require
  split
  · exact ⟨trivial, clean⟩
  · trivial

theorem gives_orElse {first : Reader α} {second : Unit → Reader α}
    (ofFirst : first.Gives property) (ofSecond : (second ()).Gives property) :
    (orElse first second).Gives property := by
  intro input clean
  unfold orElse
  cases isFirst : first input with
  | done value rest stop => exact ofFirst.done clean isFirst
  | stuck stop =>
      dsimp only
      cases isSecond : second () input with
      | stuck later => trivial
      | done value rest later => exact ofSecond.done clean isSecond

theorem gives_if {test : Prop} [Decidable test] {first second : Reader α}
    (ofFirst : first.Gives property) (ofSecond : second.Gives property) :
    (if test then first else second).Gives property := by
  split
  · exact ofFirst
  · exact ofSecond

theorem gives_choice {test : Input → Prop} [∀ input, Decidable (test input)]
    {first second : Reader α} (ofFirst : first.Gives property) (ofSecond : second.Gives property) :
    Gives (fun input => if test input then first input else second input) property := by
  intro input clean
  dsimp only
  split
  · exact ofFirst input clean
  · exact ofSecond input clean

end

section

variable {grade : Grade} {reader first second : Reader Forest}

theorem gives_bind_sound {α : Type} {property : α → Prop} {next : Forest → Reader α}
    (ofFirst : first.Yields .sound)
    (ofNext : ∀ forest, Each .sound forest → (next forest).Gives property) :
    (first >>= next).Gives property :=
  gives_bind ofFirst ofNext

theorem gives_followedBy {property result joined : Forest → Prop} (ofFirst : first.Gives property)
    (ofSecond : second.Gives result)
    (join : ∀ front back, property front → result back → joined (front ++ back)) :
    (followedBy first second).Gives joined :=
  gives_bind ofFirst fun front ofFront =>
    gives_bind ofSecond fun back ofBack => gives_return (join front back ofFront ofBack)

theorem yields_followedBy (ofFirst : first.Yields grade) (ofSecond : second.Yields grade) :
    (followedBy first second).Yields grade :=
  gives_followedBy ofFirst ofSecond fun _ _ ofFront ofBack => Forest.each_append.mpr ⟨ofFront, ofBack⟩

/-- All readers of a list yield trees of the grade. -/
@[reducible] def AllYield (grade : Grade) : List (Reader Forest) → Prop
  | [] => True
  | [reader] => reader.Yields grade
  | reader :: rest => reader.Yields grade ∧ AllYield grade rest

theorem allYield_cons {rest : List (Reader Forest)} (all : AllYield grade (reader :: rest)) :
    reader.Yields grade ∧ AllYield grade rest := by
  cases rest with
  | nil => exact ⟨all, trivial⟩
  | cons next rest => exact all

theorem yields_inOrder {readers : List (Reader Forest)} (all : AllYield grade readers) :
    (inOrder readers).Yields grade := by
  induction readers with
  | nil => exact gives_pure Forest.each_nil
  | cons reader rest ih =>
      obtain ⟨ofReader, ofRest⟩ := allYield_cons all
      exact yields_followedBy ofReader (ih ofRest)

theorem gives_firstOf {property : Forest → Prop} {readers : List (Reader Forest)}
    (ofEach : ∀ reader, reader ∈ readers → reader.Gives property) :
    (firstOf readers).Gives property := by
  fun_induction firstOf readers with
  | case1 => exact gives_refuse
  | case2 reader => exact ofEach reader List.mem_cons_self
  | case3 reader rest _ ih =>
      exact gives_orElse (ofEach reader List.mem_cons_self)
        (ih fun other isIn => ofEach other (List.mem_cons_of_mem _ isIn))

theorem yields_firstOf {readers : List (Reader Forest)} (all : AllYield grade readers) :
    (firstOf readers).Yields grade := by
  refine gives_firstOf ?_
  induction readers with
  | nil => exact nofun
  | cons reader rest ih =>
      obtain ⟨ofReader, ofRest⟩ := allYield_cons all
      exact List.forall_mem_cons.mpr ⟨ofReader, ih ofRest⟩

theorem yields_optional (ofReader : reader.Yields grade) : (optional reader).Yields grade :=
  gives_orElse ofReader (gives_pure Forest.each_nil)

theorem yields_onlyIf {test : Input → Bool} (ofReader : reader.Yields grade) :
    (onlyIf test reader).Yields grade := by
  intro input clean
  unfold onlyIf
  split
  · exact ofReader input clean
  · exact ⟨Forest.each_nil, clean⟩

theorem yields_rounds (ofReader : reader.Yields grade) (bound : Nat) :
    (rounds reader bound).Yields grade := by
  induction bound with
  | zero => exact gives_pure Forest.each_nil
  | succ bound ih => exact gives_orElse (yields_followedBy ofReader ih) (gives_pure Forest.each_nil)

theorem yields_many (ofReader : reader.Yields grade) : (many reader).Yields grade :=
  fun input clean => yields_rounds ofReader input.left input clean

theorem yields_manyOne (ofReader : reader.Yields grade) : (manyOne reader).Yields grade :=
  yields_followedBy ofReader (yields_many ofReader)

theorem gives_node {property result : Forest → Prop} {kind : String} (ofReader : reader.Gives property)
    (wrapped : ∀ forest, property forest → result (forest.wrap kind)) :
    (node kind reader).Gives result := by
  intro input clean
  unfold node
  cases isRead : reader input with
  | stuck stop => trivial
  | done forest rest stop =>
      obtain ⟨holds, cleanRest⟩ := ofReader.done clean isRead
      exact ⟨wrapped forest holds, cleanRest⟩

theorem plain_node {kind : String} (ordinary : isOrdinary kind = true)
    (ofReader : reader.Yields .sound) : (node kind reader).Yields .plain :=
  gives_node ofReader fun _ each => Forest.each_plain_wrap ordinary each

theorem sound_node {kind : String} (ordinary : isOrdinary kind = true)
    (ofReader : reader.Yields .sound) : (node kind reader).Yields .sound :=
  gives_node ofReader fun _ each => Forest.each_sound_wrap ordinary each

theorem gives_fills {property result : Forest → Prop} {name : String}
    (ofReader : reader.Gives property)
    (filled : ∀ forest, property forest → result (forest.fill name)) :
    (fills name reader).Gives result := by
  intro input clean
  unfold fills
  cases isRead : reader input with
  | stuck stop => trivial
  | done forest rest stop =>
      obtain ⟨holds, cleanRest⟩ := ofReader.done clean isRead
      exact ⟨filled forest holds, cleanRest⟩

theorem yields_fills {name : String} (ofReader : reader.Yields grade) :
    (fills name reader).Yields grade :=
  gives_fills ofReader fun _ each => Forest.each_fill each

end

end Reader

end Codemod.Grammar
