import Codemod.Files.Walk
import Codemod.Proofs.Files.Place

/-!
Directories in the order of their names.

A directory holds its entries under different names, in some order. Sorted by their names, they are
found under the same names as before, so a path leads to the same place; and two trees that differ in
no more than the order of entries, in any of their directories, are the same tree once they are
sorted.
-/

set_option autoImplicit false

namespace Codemod.Files

/-- Whether a directory may hold an entry of this name: one that no slash parts and that leads down. -/
def isName (name : FileName) : Bool :=
  !name.contains slash && Path.stepOf name == .down name

namespace Entry

mutual

/-- Whether every directory has its entries under different names. -/
def isProper : Entry → Bool
  | file _ => true
  | link _ => true
  | directory entries => areProper entries

def areProper : List (FileName × Entry) → Bool
  | [] => true
  | (name, entry) :: rest =>
      isName name && !(rest.map Prod.fst).contains name && isProper entry && areProper rest

end

mutual

/-- Every directory lists its entries in the order of their names. -/
def InOrder : Entry → Prop
  | file _ => True
  | link _ => True
  | directory entries => AreInOrder entries

def AreInOrder : List (FileName × Entry) → Prop
  | [] => True
  | (name, entry) :: rest =>
      (∀ other, other ∈ rest.map Prod.fst → name < other) ∧ InOrder entry ∧ AreInOrder rest

end

mutual

/-- The same entry, but for the order in which its directories list what they hold. -/
inductive Rearranged : Entry → Entry → Prop where
  | file (content : ByteArray) : Rearranged (.file content) (.file content)
  | link (target : Path) : Rearranged (.link target) (.link target)
  | directory {entries others : List (FileName × Entry)} (inside : AreRearranged entries others) :
      Rearranged (.directory entries) (.directory others)

inductive AreRearranged : List (FileName × Entry) → List (FileName × Entry) → Prop where
  | nil : AreRearranged [] []
  | cons (name : FileName) {entry other : Entry} {rest others : List (FileName × Entry)}
      (first : Rearranged entry other) (behind : AreRearranged rest others) :
      AreRearranged ((name, entry) :: rest) ((name, other) :: others)
  | swap (first second : FileName × Entry) (rest : List (FileName × Entry)) :
      AreRearranged (first :: second :: rest) (second :: first :: rest)
  | trans {entries others final : List (FileName × Entry)} (front : AreRearranged entries others)
      (back : AreRearranged others final) : AreRearranged entries final

end

end Entry

open Entry

section

variable {name other : FileName} {entry : Entry} {entries : List (FileName × Entry)}

/-! ### Proper directories -/

theorem areProper_cons_iff {rest : List (FileName × Entry)} :
    areProper ((name, entry) :: rest) = true ↔
      isName name = true ∧ name ∉ rest.map Prod.fst ∧ entry.isProper = true ∧
        areProper rest = true := by
  rw [areProper, Bool.and_eq_true, Bool.and_eq_true, Bool.and_eq_true, Bool.not_eq_true',
    ← Bool.not_eq_true, List.contains_iff_mem, and_assoc, and_assoc]

theorem proper_of_child? (proper : areProper entries = true)
    (isChild : child? name entries = some entry) :
    isName name = true ∧ entry.isProper = true := by
  induction entries with
  | nil => exact nomatch isChild
  | cons first rest ih =>
      obtain ⟨firstIsName, _, firstProper, restProper⟩ := areProper_cons_iff.mp proper
      rw [child?_cons] at isChild
      split at isChild
      · rename_i same
        obtain rfl := Option.some.inj isChild
        exact ⟨same ▸ firstIsName, firstProper⟩
      · exact ih restProper isChild

/-! ### Putting an entry in its place -/

theorem insertByName_cons {first : FileName × Entry} :
    insertByName name entry (first :: entries) =
      if first.1 < name then first :: insertByName name entry entries
      else (name, entry) :: first :: entries := rfl

theorem insertByName_perm :
    (insertByName name entry entries).Perm ((name, entry) :: entries) := by
  induction entries with
  | nil => exact List.Perm.refl _
  | cons first rest ih =>
      rw [insertByName_cons]
      split
      · exact (ih.cons first).trans (List.Perm.swap ..)
      · exact List.Perm.refl _

theorem mem_names_insertByName :
    other ∈ (insertByName name entry entries).map Prod.fst ↔
      other = name ∨ other ∈ entries.map Prod.fst := by
  rw [(insertByName_perm.map Prod.fst).mem_iff, List.map_cons, List.mem_cons]

theorem areInOrder_insertByName (absent : name ∉ entries.map Prod.fst) (inOrder : entry.InOrder)
    (areInOrder : AreInOrder entries) : AreInOrder (insertByName name entry entries) := by
  induction entries with
  | nil => exact ⟨nofun, inOrder, trivial⟩
  | cons first rest ih =>
      obtain ⟨leads, firstInOrder, restInOrder⟩ := areInOrder
      rw [List.map_cons, List.mem_cons, not_or] at absent
      rw [insertByName_cons]
      split
      · rename_i isSmaller
        refine ⟨?_, firstInOrder, ih absent.2 restInOrder⟩
        intro later isLater
        rcases mem_names_insertByName.mp isLater with rfl | isLater
        · exact isSmaller
        · exact leads later isLater
      · rename_i notSmaller
        have isLess : name < first.1 := Std.lt_of_le_of_ne notSmaller absent.1
        refine ⟨?_, inOrder, leads, firstInOrder, restInOrder⟩
        intro later isLater
        rcases List.mem_cons.mp isLater with rfl | isLater
        · exact isLess
        · exact List.lt_trans isLess (leads later isLater)

theorem child?_insertByName_self (absent : name ∉ entries.map Prod.fst) :
    child? name (insertByName name entry entries) = some entry := by
  induction entries with
  | nil => rw [insertByName, child?_cons, if_pos rfl]
  | cons first rest ih =>
      rw [List.map_cons, List.mem_cons, not_or] at absent
      rw [insertByName_cons]
      split
      · rw [child?_cons, if_neg (Ne.symm absent.1), ih absent.2]
      · rw [child?_cons, if_pos rfl]

theorem child?_insertByName_other (differ : name ≠ other) :
    child? other (insertByName name entry entries) = child? other entries := by
  induction entries with
  | nil => rw [insertByName, child?_cons, if_neg differ]
  | cons first rest ih =>
      rw [insertByName_cons]
      split
      · rw [child?_cons, ih, ← child?_cons]
      · rw [child?_cons, if_neg differ]

/-- Entries of different names may be put in their places one way round or the other. -/
theorem insertByName_comm {next : Entry} (differ : name ≠ other) :
    insertByName name entry (insertByName other next entries) =
      insertByName other next (insertByName name entry entries) := by
  -- Between two different names exactly one of the two comparisons holds.
  have either : (name < other ∧ ¬ other < name) ∨ (other < name ∧ ¬ name < other) := by
    by_cases less : name < other
    · exact Or.inl ⟨less, List.lt_asymm less⟩
    · exact Or.inr ⟨Std.lt_of_le_of_ne less differ.symm, less⟩
  induction entries with
  | nil =>
      rcases either with ⟨less, notLess⟩ | ⟨less, notLess⟩ <;>
        simp only [insertByName, if_pos less, if_neg notLess]
  | cons first rest ih =>
      rw [insertByName_cons, insertByName_cons]
      by_cases beforeName : first.1 < name <;> by_cases beforeOther : first.1 < other
      · rw [if_pos beforeName, if_pos beforeOther, insertByName_cons, insertByName_cons,
          if_pos beforeName, if_pos beforeOther, ih]
      · rcases either with ⟨less, _⟩ | ⟨less, notLess⟩
        · exact absurd (List.lt_trans beforeName less) beforeOther
        · rw [if_pos beforeName, if_neg beforeOther, insertByName_cons, insertByName_cons,
            insertByName_cons, if_pos less, if_pos beforeName, if_neg beforeOther]
      · rcases either with ⟨less, notLess⟩ | ⟨less, _⟩
        · rw [if_neg beforeName, if_pos beforeOther, insertByName_cons, insertByName_cons,
            insertByName_cons, if_pos less, if_pos beforeOther, if_neg beforeName]
        · exact absurd (List.lt_trans beforeOther less) beforeName
      · rw [if_neg beforeName, if_neg beforeOther, insertByName_cons, insertByName_cons,
          insertByName_cons, insertByName_cons, if_neg beforeName, if_neg beforeOther]
        rcases either with ⟨less, notLess⟩ | ⟨less, notLess⟩
        · rw [if_neg notLess, if_pos less]
        · rw [if_pos less, if_neg notLess]

/-! ### Sorted directories -/

theorem names_sortEntries : ((sortEntries entries).map Prod.fst).Perm (entries.map Prod.fst) := by
  induction entries with
  | nil => exact List.Perm.refl _
  | cons first rest ih => exact (insertByName_perm.map Prod.fst).trans (ih.cons first.1)

theorem child?_sortEntries (proper : areProper entries = true) :
    child? name (sortEntries entries) = (child? name entries).map Entry.sorted := by
  induction entries with
  | nil => rfl
  | cons first rest ih =>
      obtain ⟨_, absent, _, restProper⟩ := areProper_cons_iff.mp proper
      rw [sortEntries, child?_cons]
      split
      · rename_i same
        rw [← same, child?_insertByName_self (mt names_sortEntries.mem_iff.mp absent)]
        rfl
      · rename_i differ
        rw [child?_insertByName_other differ, ih restProper]

mutual

theorem inOrder_sorted : (entry : Entry) → entry.isProper = true → entry.sorted.InOrder
  | .file _, _ => trivial
  | .link _, _ => trivial
  | .directory entries, proper => areInOrder_sortEntries entries proper

theorem areInOrder_sortEntries : (entries : List (FileName × Entry)) →
    areProper entries = true → AreInOrder (sortEntries entries)
  | [], _ => trivial
  | (name, entry) :: rest, proper => by
      obtain ⟨_, absent, entryProper, restProper⟩ := areProper_cons_iff.mp proper
      exact areInOrder_insertByName (mt names_sortEntries.mem_iff.mp absent)
        (inOrder_sorted entry entryProper) (areInOrder_sortEntries rest restProper)

end

theorem get?_sorted (proper : entry.isProper = true) (location : Location) :
    entry.sorted.get? location = (entry.get? location).map Entry.sorted := by
  induction location generalizing entry with
  | nil => cases entry <;> rfl
  | cons name rest ih =>
      cases entry with
      | file content => rfl
      | link target => rfl
      | directory entries =>
          rw [Entry.sorted, get?, get?, child?_sortEntries proper]
          cases isChild : child? name entries with
          | none => rfl
          | some child => exact ih (proper_of_child? proper isChild).2

theorem proper_of_get? {location : Location} {found : Entry} (proper : entry.isProper = true)
    (leads : entry.get? location = some found) :
    (∀ name, name ∈ location → isName name = true) ∧ found.isProper = true := by
  induction location generalizing entry with
  | nil =>
      obtain rfl : entry = found := by cases entry <;> exact Option.some.inj leads
      exact ⟨nofun, proper⟩
  | cons name rest ih =>
      cases entry with
      | file content => exact nomatch leads
      | link target => exact nomatch leads
      | directory entries =>
          obtain ⟨child, isChild, leads⟩ := Option.bind_eq_some_iff.mp leads
          obtain ⟨firstIsName, childProper⟩ := proper_of_child? proper isChild
          obtain ⟨areNames, foundProper⟩ := ih childProper leads
          exact ⟨List.forall_mem_cons.mpr ⟨firstIsName, areNames⟩, foundProper⟩

end

/-! ### Other orders -/

theorem names_of_rearranged : {entries others : List (FileName × Entry)} →
    AreRearranged entries others → (others.map Prod.fst).Perm (entries.map Prod.fst)
  | _, _, .nil => List.Perm.refl _
  | _, _, .cons name _ behind => (names_of_rearranged behind).cons name
  | _, _, .swap _ _ _ => List.Perm.swap ..
  | _, _, .trans front back => (names_of_rearranged back).trans (names_of_rearranged front)

mutual

theorem sorted_of_rearranged : {entry other : Entry} → Rearranged entry other →
    entry.isProper = true → other.isProper = true ∧ other.sorted = entry.sorted
  | _, _, .file _, _ => ⟨rfl, rfl⟩
  | _, _, .link _, _ => ⟨rfl, rfl⟩
  | _, _, .directory inside, proper => by
      obtain ⟨othersProper, same⟩ := sortEntries_of_rearranged inside proper
      exact ⟨othersProper, congrArg Entry.directory same⟩

/-- The order of the entries, in whatever directory, makes no difference once they are sorted. -/
theorem sortEntries_of_rearranged : {entries others : List (FileName × Entry)} →
    AreRearranged entries others → areProper entries = true →
      areProper others = true ∧ sortEntries others = sortEntries entries
  | _, _, .nil, _ => ⟨rfl, rfl⟩
  | _, _, .cons name first behind, proper => by
      obtain ⟨nameIsName, absent, firstProper, restProper⟩ := areProper_cons_iff.mp proper
      obtain ⟨otherProper, sameFirst⟩ := sorted_of_rearranged first firstProper
      obtain ⟨othersProper, sameRest⟩ := sortEntries_of_rearranged behind restProper
      refine ⟨areProper_cons_iff.mpr ⟨nameIsName, ?_, otherProper, othersProper⟩, ?_⟩
      · exact mt (names_of_rearranged behind).mem_iff.mp absent
      · rw [sortEntries, sortEntries, sameFirst, sameRest]
  | _, _, .swap first second rest, proper => by
      obtain ⟨firstIsName, firstAbsent, firstProper, proper⟩ := areProper_cons_iff.mp proper
      obtain ⟨secondIsName, secondAbsent, secondProper, restProper⟩ := areProper_cons_iff.mp proper
      rw [List.map_cons, List.mem_cons, not_or] at firstAbsent
      refine ⟨?_, ?_⟩
      · refine areProper_cons_iff.mpr ⟨secondIsName, ?_, secondProper, ?_⟩
        · rw [List.map_cons, List.mem_cons, not_or]
          exact ⟨Ne.symm firstAbsent.1, secondAbsent⟩
        · exact areProper_cons_iff.mpr ⟨firstIsName, firstAbsent.2, firstProper, restProper⟩
      · rw [sortEntries, sortEntries, sortEntries, sortEntries]
        exact insertByName_comm (Ne.symm firstAbsent.1)
  | _, _, .trans front back, proper => by
      obtain ⟨middleProper, sameFront⟩ := sortEntries_of_rearranged front proper
      obtain ⟨finalProper, sameBack⟩ := sortEntries_of_rearranged back middleProper
      exact ⟨finalProper, sameBack.trans sameFront⟩

end

/-! ### Paths in sorted trees -/

namespace FileTree

def sorted (tree : FileTree) : FileTree := ⟨sortEntries tree.entries, tree.home⟩

variable {tree : FileTree} (proper : tree.root.isProper = true)
include proper

theorem get?_sorted_tree (location : Location) :
    tree.sorted.get? location = (tree.get? location).map Entry.sorted :=
  get?_sorted proper location

theorem isDirectoryAt_sorted (location : Location) :
    tree.sorted.isDirectoryAt location = tree.isDirectoryAt location := by
  unfold isDirectoryAt
  rw [get?_sorted_tree proper]
  cases tree.get? location with
  | none => rfl
  | some entry => cases entry <;> rfl

theorem advance_sorted (followLast : Bool) (location : Location) (steps : List Step) :
    tree.sorted.advance followLast location steps = tree.advance followLast location steps := by
  induction steps generalizing location with
  | nil => rfl
  | cons step rest ih =>
      rw [advance_cons, advance_cons, isDirectoryAt_sorted proper]
      cases step with
      | stay => simp only [ih]
      | up => simp only [ih]
      | down name =>
          simp only [get?_sorted_tree proper]
          cases tree.get? (location ++ [name]) with
          | none => rfl
          | some entry =>
              cases entry with
              | link target => rfl
              | file content => simp only [Option.map_some, Entry.sorted, ih]
              | directory entries => simp only [Option.map_some, Entry.sorted, ih]

theorem resolveFrom_sorted (followLast : Bool) (links : Nat) (location : Location)
    (steps : List Step) :
    tree.sorted.resolveFrom followLast links location steps =
      tree.resolveFrom followLast links location steps := by
  induction links generalizing location steps with
  | zero => rw [resolveFrom, resolveFrom, advance_sorted proper]
  | succ links ih =>
      rw [resolveFrom, resolveFrom, advance_sorted proper]
      simp only [ih]

theorem entryAt_sorted (path : Path) (followLast : Bool) :
    tree.sorted.entryAt path followLast = (tree.entryAt path followLast).map Entry.sorted := by
  have resolved : tree.sorted.resolve path followLast = tree.resolve path followLast := by
    unfold resolve
    rw [resolveFrom_sorted proper]
    rfl
  unfold entryAt
  rw [resolved]
  cases tree.resolve path followLast with
  | error error => rfl
  | ok location =>
      simp only [bind, Except.bind, get?_sorted_tree proper]
      cases tree.get? location <;> rfl

end FileTree

end Codemod.Files
