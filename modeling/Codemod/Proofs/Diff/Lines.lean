import Codemod.Diff.Lines

/-!
What the lines of a text look like, and when lines are the lines of the text they make up.

A line has at most one end, behind everything else. Lines that all have an end and none of which
starts with a line feed are split again where they were put together. Texts that differ in words only
have as many lines.
-/

set_option autoImplicit false

namespace Codemod.Diff

def Unbroken (text : List Char) : Prop := ∀ c, c ∈ text → c ≠ '\n' ∧ c ≠ '\r'

instance (text : List Char) : Decidable (Unbroken text) :=
  List.decidableBAll (fun c => c ≠ '\n' ∧ c ≠ '\r') text

def lineEnds : List (List Char) := [['\n'], ['\r'], ['\r', '\n']]

def EndedLine (line : List Char) : Prop :=
  ∃ body ending, line = body ++ ending ∧ Unbroken body ∧ ending ∈ lineEnds

/-- A line, with or without an end. -/
def IsLine (line : List Char) : Prop := EndedLine line ∨ Unbroken line

theorem unbroken_cons {c : Char} {text : List Char} (plain : c ≠ '\n' ∧ c ≠ '\r')
    (unbroken : Unbroken text) : Unbroken (c :: text) := by
  intro other isIn
  rcases List.mem_cons.mp isIn with rfl | isIn
  · exact plain
  · exact unbroken other isIn

theorem unbroken_append {front back : List Char} (frontUnbroken : Unbroken front)
    (backUnbroken : Unbroken back) : Unbroken (front ++ back) := by
  intro c isIn
  rcases List.mem_append.mp isIn with isIn | isIn
  · exact frontUnbroken c isIn
  · exact backUnbroken c isIn

theorem endedLine_cons {c : Char} {line : List Char} (plain : c ≠ '\n' ∧ c ≠ '\r')
    (ended : EndedLine line) : EndedLine (c :: line) := by
  obtain ⟨body, ending, rfl, unbroken, isEnd⟩ := ended
  exact ⟨c :: body, ending, rfl, unbroken_cons plain unbroken, isEnd⟩

theorem isLine_cons {c : Char} {line : List Char} (plain : c ≠ '\n' ∧ c ≠ '\r')
    (isLine : IsLine line) : IsLine (c :: line) :=
  isLine.imp (endedLine_cons plain) (unbroken_cons plain)

theorem endedLine_newline {text : List Char} (unbroken : Unbroken text) :
    EndedLine (text ++ ['\n']) :=
  ⟨text, ['\n'], rfl, unbroken, List.mem_cons_self⟩

theorem isLine_of_mem_splitLines (text : List Char) :
    ∀ line, line ∈ splitLines text → IsLine line := by
  have nothing : Unbroken [] := fun _ isIn => absurd isIn List.not_mem_nil
  fun_induction splitLines text with
  | case1 => exact fun _ isIn => absurd isIn List.not_mem_nil
  | case2 rest ih =>
      intro line isIn
      rcases List.mem_cons.mp isIn with rfl | isIn
      · exact Or.inl ⟨[], ['\r', '\n'], rfl, nothing, by decide⟩
      · exact ih line isIn
  | case3 c rest _ ends ih =>
      intro line isIn
      rcases List.mem_cons.mp isIn with rfl | isIn
      · refine Or.inl ⟨[], [c], rfl, nothing, ?_⟩
        rcases ends with rfl | rfl <;> decide
      · exact ih line isIn
  | case4 c rest _ plain none ih =>
      intro line isIn
      rw [List.mem_singleton.mp isIn]
      exact Or.inr (unbroken_cons (not_or.mp plain) nothing)
  | case5 c rest _ plain first more splitEq ih =>
      intro line isIn
      rw [splitEq] at ih
      rcases List.mem_cons.mp isIn with rfl | isIn
      · exact isLine_cons (not_or.mp plain) (ih first List.mem_cons_self)
      · exact ih line (List.mem_cons_of_mem _ isIn)

theorem isLine_of_mem_linesOf {text line : String} (isIn : line ∈ linesOf text) :
    IsLine line.toList := by
  unfold linesOf at isIn
  obtain ⟨chars, isLine, rfl⟩ := List.mem_map.mp (List.mem_toArray.mp isIn)
  rw [String.toList_ofList]
  exact isLine_of_mem_splitLines _ chars isLine

theorem join_linesOf (text : String) : String.join (linesOf text).toList = text := by
  have whole : ((splitLines text.toList).map String.ofList).flatMap String.toList =
      (splitLines text.toList).flatten := by
    rw [List.flatMap_map, List.flatMap_def]
    simp only [String.toList_ofList, List.map_id']
  rw [← String.toList_inj, String.toList_join, linesOf, whole, flatten_splitLines]

theorem linesOf_inj {old new : String} : linesOf old = linesOf new ↔ old = new := by
  constructor
  · intro sameLines
    rw [← join_linesOf old, sameLines, join_linesOf]
  · rintro rfl
    rfl

theorem isEnded_ofList_iff {line : List Char} (isLine : IsLine line) :
    isEnded (String.ofList line) = true ↔ EndedLine line := by
  unfold isEnded
  rw [String.toList_ofList]
  constructor
  · intro ended
    rcases isLine with isEnded | unbroken
    · exact isEnded
    · rw [Option.any_eq_true] at ended
      obtain ⟨c, isLast, isEnd⟩ := ended
      have plain := unbroken c (List.mem_of_getLast? isLast)
      simp only [Bool.or_eq_true, beq_iff_eq, plain.1, plain.2, or_self] at isEnd
  · rintro ⟨body, ending, rfl, _, isEnd⟩
    simp only [lineEnds, List.mem_cons, List.not_mem_nil, or_false] at isEnd
    rcases isEnd with rfl | rfl | rfl <;> simp

/-! ### Splitting lines that were put together -/

theorem splitLines_cons_plain {c : Char} (text : List Char) (plain : c ≠ '\n' ∧ c ≠ '\r') :
    splitLines (c :: text) =
      match splitLines text with
      | [] => [[c]]
      | line :: more => (c :: line) :: more := by
  have noPair (rest : List Char) (isReturn : c = '\r') (_ : text = '\n' :: rest) : False :=
    plain.2 isReturn
  exact (splitLines.eq_3 c text noPair).trans (if_neg (not_or.mpr plain))

/-- A line with an end is split off, unless a line feed behind it would belong to it. -/
theorem splitLines_ended {line rest : List Char} (ended : EndedLine line)
    (apart : rest.head? ≠ some '\n') : splitLines (line ++ rest) = line :: splitLines rest := by
  obtain ⟨body, ending, rfl, unbroken, isEnd⟩ := ended
  induction body with
  | nil =>
      simp only [lineEnds, List.mem_cons, List.not_mem_nil, or_false] at isEnd
      rcases isEnd with rfl | rfl | rfl
      · rfl
      · cases rest with
        | nil => rfl
        | cons c rest =>
            have other : c ≠ '\n' := fun same => apart (congrArg some same)
            change splitLines ('\r' :: c :: rest) = _
            rw [splitLines, if_pos (Or.inr rfl)]
            · rfl
            · exact fun _ _ same => other (List.cons.inj same).1
      · rfl
  | cons c body ih =>
      have plain := unbroken c List.mem_cons_self
      have split := ih fun other isIn => unbroken other (List.mem_cons_of_mem _ isIn)
      change splitLines (c :: (body ++ ending ++ rest)) = _
      rw [splitLines_cons_plain _ plain, split]
      rfl

theorem endedLine_ne_nil {line : List Char} (ended : EndedLine line) : line ≠ [] := by
  obtain ⟨body, ending, rfl, _, isEnd⟩ := ended
  intro none
  rw [(List.append_eq_nil_iff.mp none).2] at isEnd
  exact absurd isEnd (by decide)

/-- Ended lines that do not start with a line feed are the lines of what they make up. -/
theorem splitLines_flatten (lines : List (List Char))
    (ended : ∀ line, line ∈ lines → EndedLine line ∧ line.head? ≠ some '\n') :
    splitLines lines.flatten = lines := by
  induction lines with
  | nil => rfl
  | cons line rest ih =>
      have restEnded (next : List Char) (isIn : next ∈ rest) := ended next (List.mem_cons_of_mem _ isIn)
      rw [List.flatten_cons, splitLines_ended (ended line List.mem_cons_self).1, ih restEnded]
      cases rest with
      | nil => exact nofun
      | cons next rest =>
          obtain ⟨nextEnded, apart⟩ := restEnded next List.mem_cons_self
          cases next with
          | nil => exact absurd rfl (endedLine_ne_nil nextEnded)
          | cons c next => exact apart

/-! ### Words and line ends -/

/-- Two texts that are the same but for words, none of which is empty or holds a line end. -/
inductive SameBreaks : List Char → List Char → Prop where
  | nil : SameBreaks [] []
  | char (c : Char) {old new : List Char} (rest : SameBreaks old new) :
      SameBreaks (c :: old) (c :: new)
  | word {oldWord newWord old new : List Char} (oldSome : oldWord ≠ []) (newSome : newWord ≠ [])
      (oldUnbroken : Unbroken oldWord) (newUnbroken : Unbroken newWord)
      (rest : SameBreaks old new) : SameBreaks (oldWord ++ old) (newWord ++ new)

theorem SameBreaks.refl (text : List Char) : SameBreaks text text := by
  induction text with
  | nil => exact .nil
  | cons c rest ih => exact .char c ih

theorem SameBreaks.append {old new oldBack newBack : List Char} (front : SameBreaks old new)
    (back : SameBreaks oldBack newBack) : SameBreaks (old ++ oldBack) (new ++ newBack) := by
  induction front with
  | nil => exact back
  | char c _ ih => exact .char c ih
  | word oldSome newSome oldUnbroken newUnbroken _ ih =>
      rw [List.append_assoc, List.append_assoc]
      exact .word oldSome newSome oldUnbroken newUnbroken ih

theorem SameBreaks.count_eq {old new : List Char} (same : SameBreaks old new) {c : Char}
    (isEnd : c = '\n' ∨ c = '\r') : old.count c = new.count c := by
  have none {word : List Char} (unbroken : Unbroken word) : word.count c = 0 := by
    refine List.count_eq_zero.mpr fun isIn => ?_
    exact isEnd.elim (unbroken c isIn).1 (unbroken c isIn).2
  induction same with
  | nil => rfl
  | char other _ ih => rw [List.count_cons, List.count_cons, ih]
  | word _ _ oldUnbroken newUnbroken _ ih =>
      rw [List.count_append, List.count_append, none oldUnbroken, none newUnbroken, ih]

/-- One more character in front: a carriage return belongs to the line feed behind it, and a character
that ends no line starts one only if there is none yet. -/
theorem length_splitLines_cons (c : Char) (text : List Char) :
    (splitLines (c :: text)).length =
      if c = '\r' ∧ text.head? = some '\n' then (splitLines text).length
      else if c = '\n' ∨ c = '\r' then (splitLines text).length + 1
      else max 1 (splitLines text).length := by
  by_cases isEnd : c = '\n' ∨ c = '\r'
  · by_cases pair : c = '\r' ∧ text.head? = some '\n'
    · obtain ⟨rfl, isFeed⟩ := pair
      obtain ⟨rest, rfl⟩ := List.head?_eq_some_iff.mp isFeed
      rfl
    · have alone (rest : List Char) (isReturn : c = '\r') (isFeed : text = '\n' :: rest) : False :=
        pair ⟨isReturn, congrArg List.head? isFeed⟩
      rw [splitLines.eq_3 c text alone, if_pos isEnd, if_neg pair, if_pos isEnd]
      rfl
  · have plain := not_or.mp isEnd
    rw [splitLines_cons_plain text plain, if_neg (fun both => plain.2 both.1), if_neg isEnd]
    cases splitLines text with
    | nil => rfl
    | cons line more => exact (Nat.max_eq_right (Nat.le_add_left 1 more.length)).symm

theorem length_splitLines_word {word : List Char} (some : word ≠ []) (unbroken : Unbroken word)
    (text : List Char) : (splitLines (word ++ text)).length = max 1 (splitLines text).length := by
  induction word with
  | nil => exact absurd rfl some
  | cons c rest ih =>
      have plain := unbroken c List.mem_cons_self
      rw [List.cons_append, length_splitLines_cons, if_neg (fun both => plain.2 both.1),
        if_neg (not_or.mpr plain)]
      cases rest with
      | nil => rfl
      | cons next rest =>
          rw [ih (List.cons_ne_nil _ _) fun other isIn => unbroken other (List.mem_cons_of_mem _ isIn)]
          exact Nat.max_eq_right (Nat.le_max_left _ _)

theorem head?_word {word : List Char} (some : word ≠ []) (unbroken : Unbroken word)
    (text : List Char) : (word ++ text).head? ≠ .some '\n' := by
  cases word with
  | nil => exact absurd rfl some
  | cons c rest => exact fun isFeed => (unbroken c List.mem_cons_self).1 (Option.some.inj isFeed)

/-- Texts that differ in words only have as many lines. -/
theorem SameBreaks.size_linesOf {old new : String} (same : SameBreaks old.toList new.toList) :
    (linesOf old).size = (linesOf new).size := by
  have counted {old new : List Char} (same : SameBreaks old new) :
      (splitLines old).length = (splitLines new).length ∧
        (old.head? = some '\n' ↔ new.head? = some '\n') := by
    induction same with
    | nil => exact ⟨rfl, Iff.rfl⟩
    | char c _ ih =>
        rw [length_splitLines_cons, length_splitLines_cons, ih.1]
        simp only [ih.2, List.head?_cons, and_self]
    | word oldSome newSome oldUnbroken newUnbroken _ ih =>
        rw [length_splitLines_word oldSome oldUnbroken, length_splitLines_word newSome newUnbroken,
          ih.1]
        exact ⟨rfl, iff_of_false (head?_word oldSome oldUnbroken _) (head?_word newSome newUnbroken _)⟩
  rw [linesOf, linesOf, List.size_toArray, List.size_toArray, List.length_map, List.length_map]
  exact (counted same).1

end Codemod.Diff
