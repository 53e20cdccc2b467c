import Codemod.CommandLine.Parse

/-!
Pairs of names in one argument.

The first equals sign parts the names, so the second one may hold more of them. White space around
either name is dropped, whatever of it there is, and neither name may be empty.
-/

set_option autoImplicit false

namespace Codemod.CommandLine

/-- A text with no white space at its ends, in the midst of white space. -/
def Trimmed (text core : List Char) : Prop :=
  ∃ front back, text = front ++ core ++ back ∧
    (∀ c, c ∈ front → Text.isWhite c = true) ∧ (∀ c, c ∈ back → Text.isWhite c = true) ∧
    (∀ c, core.head? = some c → Text.isWhite c = false) ∧
    ∀ c, core.getLast? = some c → Text.isWhite c = false

/-- What stands in front of the first equals sign, and what stands behind it, both without the white
space around them. Neither is empty. -/
def IsPair (value : String) (pair : String × String) : Prop :=
  ∃ front back, value.toList = front ++ '=' :: back ∧ '=' ∉ front ∧
    Trimmed front pair.1.toList ∧ Trimmed back pair.2.toList ∧ pair.1 ≠ "" ∧ pair.2 ≠ ""

theorem splitPair_eq_some_iff {text old new : String} :
    splitPair text = some (old, new) ↔
      text.toList = old.toList ++ '=' :: new.toList ∧ '=' ∉ old.toList := by
  have isEquals (c : Char) : (c != '=') = true ↔ c ≠ '=' := bne_iff_ne
  unfold splitPair
  dsimp only
  constructor
  · intro found
    have whole := List.takeWhile_append_dropWhile (p := (· != '=')) (l := text.toList)
    split at found
    · exact nomatch found
    · rename_i first behind isBehind
      obtain ⟨rfl, rfl⟩ := Prod.mk.inj (Option.some.inj found)
      have isFirst : first = '=' := by
        have notKept := List.head?_dropWhile_not (· != '=') text.toList
        rw [isBehind] at notKept
        simpa using notKept
      rw [isBehind, isFirst] at whole
      refine ⟨by rw [String.toList_ofList, String.toList_ofList, whole], ?_⟩
      rw [String.toList_ofList]
      intro isIn
      have allKept := List.all_eq_true.mp (List.all_takeWhile (p := (· != '=')) (l := text.toList))
      exact (isEquals '=').mp (allKept '=' isIn) rfl
  · rintro ⟨whole, noEquals⟩
    have kept : ∀ c, c ∈ old.toList → (c != '=') = true := fun c isIn =>
      (isEquals c).mpr fun same => noEquals (same ▸ isIn)
    rw [whole, List.dropWhile_append_of_pos kept, List.takeWhile_append_of_pos kept,
      List.dropWhile_cons_of_neg (by simp), List.takeWhile_cons_of_neg (by simp), List.append_nil,
      String.ofList_toList]
    exact congrArg (fun behind => some (old, behind)) String.ofList_toList

theorem splitPair_eq_none {text : String} (noEquals : '=' ∉ text.toList) :
    splitPair text = none := by
  cases split : splitPair text with
  | none => rfl
  | some both =>
      have whole := (splitPair_eq_some_iff.mp split).1
      rw [whole] at noEquals
      exact absurd (List.mem_append_right _ List.mem_cons_self) noEquals

theorem splitPair_joined {name value : String} (noEquals : '=' ∉ name.toList) :
    splitPair (name ++ "=" ++ value) = some (name, value) := by
  refine splitPair_eq_some_iff.mpr ⟨?_, noEquals⟩
  rw [String.toList_append, String.toList_append, List.append_assoc]
  rfl

theorem eq_of_splitPair {text name value : String} (split : splitPair text = some (name, value)) :
    text = name ++ "=" ++ value := by
  refine String.toList_inj.mp ?_
  rw [(splitPair_eq_some_iff.mp split).1, String.toList_append, String.toList_append,
    List.append_assoc]
  rfl

theorem front_of_splitPair {text : String} :
    String.ofList (text.toList.takeWhile (· != '=')) =
      match splitPair text with
      | none => text
      | some (old, _) => old := by
  unfold splitPair
  dsimp only
  cases behind : text.toList.dropWhile (· != '=') with
  | cons first behind => rfl
  | nil =>
      have whole := List.takeWhile_append_dropWhile (p := (· != '=')) (l := text.toList)
      rw [behind, List.append_nil] at whole
      rw [whole]
      exact String.ofList_toList

/-- Behind the white space at the front stands what does not start with any. -/
theorem dropWhile_white {front rest : List Char} (white : ∀ c, c ∈ front → Text.isWhite c = true)
    (stops : ∀ c, rest.head? = some c → Text.isWhite c = false) :
    (front ++ rest).dropWhile Text.isWhite = rest := by
  rw [List.dropWhile_append_of_pos white]
  cases rest with
  | nil => rfl
  | cons c rest => exact List.dropWhile_cons_of_neg (by rw [stops c rfl]; exact Bool.false_ne_true)

theorem trimmed_trim (text : String) : Trimmed text.toList (Text.trim text).toList := by
  unfold Text.trim
  rw [String.toList_ofList]
  let behind := text.toList.dropWhile Text.isWhite
  refine ⟨text.toList.takeWhile Text.isWhite, (behind.reverse.takeWhile Text.isWhite).reverse,
    ?_, ?_, ?_, ?_, ?_⟩
  · rw [List.append_assoc, ← List.reverse_append, List.takeWhile_append_dropWhile,
      List.reverse_reverse]
    exact List.takeWhile_append_dropWhile.symm
  · exact List.all_eq_true.mp List.all_takeWhile
  · intro c isIn
    have allWhite :=
      List.all_eq_true.mp (List.all_takeWhile (p := Text.isWhite) (l := behind.reverse))
    exact allWhite c (List.mem_reverse.mp isIn)
  · -- The first character is that of the text behind the white space at its front.
    intro c isFirst
    have starts : behind.head? = some c := by
      have suffix : behind.reverse.dropWhile Text.isWhite <:+ behind.reverse :=
        List.dropWhile_suffix _
      obtain ⟨front, isFront⟩ := suffix
      have prefixed := congrArg List.reverse isFront
      rw [List.reverse_append, List.reverse_reverse] at prefixed
      rw [← prefixed, List.head?_append, isFirst]
      rfl
    have notWhite := List.head?_dropWhile_not Text.isWhite text.toList
    rw [show text.toList.dropWhile Text.isWhite = behind from rfl, starts] at notWhite
    simpa using notWhite
  · intro c isLast
    rw [List.getLast?_reverse] at isLast
    have notWhite := List.head?_dropWhile_not Text.isWhite behind.reverse
    rw [isLast] at notWhite
    simpa using notWhite

theorem trim_of_trimmed {text core : String} (trimmed : Trimmed text.toList core.toList) :
    Text.trim text = core := by
  obtain ⟨front, back, whole, frontWhite, backWhite, starts, ends⟩ := trimmed
  have stops : ∀ c, (core.toList.reverse).head? = some c → Text.isWhite c = false := by
    intro c isFirst
    rw [List.head?_reverse] at isFirst
    exact ends c isFirst
  have reversedWhite : ∀ c, c ∈ back.reverse → Text.isWhite c = true := fun c isIn =>
    backWhite c (List.mem_reverse.mp isIn)
  have trimBack : ((core.toList ++ back).reverse.dropWhile Text.isWhite).reverse = core.toList := by
    rw [List.reverse_append, dropWhile_white reversedWhite stops, List.reverse_reverse]
  unfold Text.trim
  rw [whole, List.append_assoc]
  cases isCore : core.toList with
  | nil =>
      -- All of the text is white, so nothing is left of it.
      have allWhite : ∀ c, c ∈ front ++ ([] ++ back) → Text.isWhite c = true := by
        intro c isIn
        rcases List.mem_append.mp isIn with isIn | isIn
        · exact frontWhite c isIn
        · exact backWhite c isIn
      have nothing : (front ++ ([] ++ back) ++ []).dropWhile Text.isWhite = [] :=
        dropWhile_white allWhite nofun
      rw [List.append_nil] at nothing
      rw [nothing, ← String.ofList_toList (s := core), isCore]
      rfl
  | cons c rest =>
      rw [← isCore, dropWhile_white frontWhite, trimBack, String.ofList_toList]
      intro c isFirst
      rw [isCore] at isFirst
      exact starts c (by rw [isCore]; exact isFirst)

theorem trim_eq_iff {text core : String} :
    Text.trim text = core ↔ Trimmed text.toList core.toList := by
  refine ⟨?_, trim_of_trimmed⟩
  rintro rfl
  exact trimmed_trim text

theorem parseRename_eq_ok_iff {value : String} {pair : String × String} :
    parseRename value = .ok pair ↔ IsPair value pair := by
  unfold parseRename
  constructor
  · intro parsed
    split at parsed
    · exact nomatch parsed
    · rename_i old new split
      obtain ⟨whole, noEquals⟩ := splitPair_eq_some_iff.mp split
      split at parsed
      · exact nomatch parsed
      · rename_i nonempty
        obtain rfl := Except.ok.inj parsed
        rw [Bool.or_eq_true, not_or, String.isEmpty_iff, String.isEmpty_iff] at nonempty
        exact ⟨old.toList, new.toList, whole, noEquals, trim_eq_iff.mp rfl, trim_eq_iff.mp rfl,
          nonempty⟩
  · rintro ⟨front, back, whole, noEquals, isOld, isNew, nonempty⟩
    have split : splitPair value = some (String.ofList front, String.ofList back) :=
      splitPair_eq_some_iff.mpr (by
        rw [String.toList_ofList, String.toList_ofList]
        exact ⟨whole, noEquals⟩)
    have oldTrimmed : Text.trim (String.ofList front) = pair.1 :=
      trim_eq_iff.mpr (by rw [String.toList_ofList]; exact isOld)
    have newTrimmed : Text.trim (String.ofList back) = pair.2 :=
      trim_eq_iff.mpr (by rw [String.toList_ofList]; exact isNew)
    rw [split]
    simp only [oldTrimmed, newTrimmed]
    rw [if_neg]
    rw [Bool.or_eq_true, not_or, String.isEmpty_iff, String.isEmpty_iff]
    exact nonempty

theorem IsPair.unique {value : String} {pair other : String × String} (isPair : IsPair value pair)
    (isOther : IsPair value other) : pair = other :=
  Except.ok.inj
    ((parseRename_eq_ok_iff.mpr isPair).symm.trans (parseRename_eq_ok_iff.mpr isOther))

end Codemod.CommandLine
