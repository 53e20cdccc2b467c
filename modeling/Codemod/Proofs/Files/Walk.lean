import Codemod.Proofs.Files.Sorted

/-!
What a walk finds, and in which order.

An entry below a root is found by the names that lead to it, and these names are the pieces that its
path has besides those of the root. A walk of sorted directories comes by every entry once, in the
order of these names. A link is the end of them, but for one at the root itself.

Main statement: a search finds exactly the entries whose names match, in the order of the pieces of
their paths, and it does not depend on the order in which directories list their entries.
-/

set_option autoImplicit false

namespace Codemod.Files

open Codemod.Glob (Pattern)

/-! ### Pieces of paths -/

namespace Path

theorem split_ne_nil (bytes : List UInt8) : split bytes ≠ [] := by
  cases bytes with
  | nil => exact List.cons_ne_nil _ _
  | cons byte rest =>
      rw [split]
      split
      · exact List.cons_ne_nil _ _
      · cases split rest <;> exact List.cons_ne_nil _ _

theorem split_append_slash (front back : List UInt8) :
    split (front ++ slash :: back) = split front ++ split back := by
  induction front with
  | nil => exact if_pos rfl
  | cons byte front ih =>
      rw [List.cons_append, split, split]
      split
      · rw [ih, List.cons_append]
      · rw [ih]
        cases pieces : split front with
        | nil => exact absurd pieces (split_ne_nil front)
        | cons piece pieces => rfl

theorem split_of_no_slash {bytes : List UInt8} (noSlash : slash ∉ bytes) :
    split bytes = [bytes] := by
  induction bytes with
  | nil => rfl
  | cons byte rest ih =>
      rw [List.mem_cons, not_or] at noSlash
      rw [split, if_neg (Ne.symm noSlash.1), ih noSlash.2]

theorem isName_iff {name : FileName} :
    isName name = true ↔
      slash ∉ name ∧ isIdlePiece name = false ∧ name ≠ [dot, dot] := by
  rw [isName, Bool.and_eq_true, Bool.not_eq_true', ← Bool.not_eq_true, List.contains_iff_mem,
    beq_iff_eq]
  refine and_congr_right fun _ => ?_
  unfold stepOf
  split
  · rename_i isIdle
    exact iff_of_false nofun fun both => nomatch isIdle.symm.trans both.1
  · rename_i notIdle
    split
    · rename_i isDots
      exact iff_of_false nofun fun both => both.2 isDots
    · rename_i notDots
      exact iff_of_true rfl ⟨Bool.not_eq_true _ ▸ notIdle, notDots⟩

/-- The name of an entry is one more piece behind those of its directory. -/
theorem activePieces_join {name : FileName} (named : isName name = true) (path : Path) :
    (path.join name).activePieces = path.activePieces ++ [name] := by
  obtain ⟨noSlash, notIdle, _⟩ := isName_iff.mp named
  have isPiece : (split name).filter (fun piece => !isIdlePiece piece) = [name] := by
    rw [split_of_no_slash noSlash, List.filter_cons_of_pos (by rw [notIdle]; rfl), List.filter_nil]
  unfold activePieces pieces join
  split
  · rename_i none
    rw [List.getLast?_eq_none_iff.mp none, isPiece]
    rfl
  · rename_i last isLast
    obtain ⟨front, isFront⟩ := List.getLast?_eq_some_iff.mp isLast
    split
    · rename_i isSlash
      have inFront : path.bytes = front ++ slash :: [] := isSlash ▸ isFront
      rw [inFront, List.append_assoc, List.singleton_append, split_append_slash, split_append_slash,
        List.filter_append, List.filter_append, isPiece]
      exact (congrArg (· ++ [name]) (List.append_nil _)).symm
    · rw [split_append_slash, List.filter_append, isPiece]

theorem activePieces_below {location : Location}
    (named : ∀ name, name ∈ location → isName name = true) (path : Path) :
    (path.below location).activePieces = path.activePieces ++ location := by
  induction location generalizing path with
  | nil => exact (List.append_nil _).symm
  | cons name rest ih =>
      obtain ⟨first, others⟩ := List.forall_mem_cons.mp named
      rw [below, List.foldl_cons]
      refine (ih others (path.join name)).trans ?_
      rw [activePieces_join first, List.append_assoc, List.singleton_append]

theorem fileName?_join {name : FileName} (named : isName name = true) (path : Path) :
    (path.join name).fileName? = some name := by
  rw [fileName?, activePieces_join named, List.getLast?_concat]
  exact if_neg (isName_iff.mp named).2.2

/-- A name has an extension if there is a dot in it that is not its first byte; it is what stands
behind the last one. -/
theorem extensionOf?_eq_some_iff {name extension : FileName} :
    extensionOf? name = some extension ↔
      dot ∉ extension ∧ ∃ stem, stem ≠ [] ∧ name = stem ++ dot :: extension := by
  have isDot (byte : UInt8) : (byte != dot) = true ↔ byte ≠ dot := bne_iff_ne
  constructor
  · intro found
    have whole := List.takeWhile_append_dropWhile (p := (· != dot)) (l := name.reverse)
    unfold extensionOf? at found
    dsimp only at found
    split at found
    · exact nomatch found
    · exact nomatch found
    · rename_i first second rest isRest
      obtain rfl := Option.some.inj found
      have noDot : dot ∉ name.reverse.takeWhile (· != dot) := by
        intro isIn
        have kept := List.all_eq_true.mp (List.all_takeWhile (p := (· != dot))) dot isIn
        exact (isDot dot).mp kept rfl
      have isFirst : first = dot := by
        have notKept := List.head?_dropWhile_not (· != dot) name.reverse
        rw [isRest] at notKept
        simpa using notKept
      refine ⟨mt List.mem_reverse.mp noDot, (second :: rest).reverse,
        mt List.reverse_eq_nil_iff.mp (List.cons_ne_nil _ _), ?_⟩
      rw [isRest, isFirst] at whole
      refine (List.reverse_eq_iff.mp whole.symm).trans ?_
      rw [List.reverse_append, List.reverse_cons, List.append_assoc, List.singleton_append]
  · rintro ⟨noDot, stem, nonempty, rfl⟩
    have kept : ∀ byte, byte ∈ extension.reverse → (byte != dot) = true := fun byte isIn =>
      (isDot byte).mpr fun same => noDot (same ▸ List.mem_reverse.mp isIn)
    have reversed : (stem ++ dot :: extension).reverse = extension.reverse ++ dot :: stem.reverse := by
      rw [List.reverse_append, List.reverse_cons, List.append_assoc, List.singleton_append]
    unfold extensionOf?
    dsimp only
    rw [reversed, List.dropWhile_append_of_pos kept, List.takeWhile_append_of_pos kept,
      List.dropWhile_cons_of_neg (by simp), List.takeWhile_cons_of_neg (by simp), List.append_nil,
      List.reverse_reverse]
    cases behind : stem.reverse with
    | nil => exact absurd (List.reverse_eq_nil_iff.mp behind) nonempty
    | cons byte rest => rfl

end Path

/-! ### Places -/

namespace Entry

mutual

/-- What stands at and below an entry, with the names that lead there, in the order of a walk. -/
def places : Entry → List (Location × Entry)
  | file content => [([], file content)]
  | link target => [([], link target)]
  | directory entries => ([], directory entries) :: placesOf entries

def placesOf : List (FileName × Entry) → List (Location × Entry)
  | [] => []
  | (name, entry) :: rest =>
      ((places entry).map fun place => (name :: place.1, place.2)) ++ placesOf rest

end

/-- What stands below an entry. -/
def inside : Entry → List (Location × Entry)
  | directory entries => placesOf entries
  | _ => []

theorem places_eq (entry : Entry) : entry.places = ([], entry) :: entry.inside := by
  cases entry <;> rfl

end Entry

open Entry

section

variable {location : Location} {found : Entry}

theorem get?_directory_iff {entries : List (FileName × Entry)} :
    (Entry.directory entries).get? location = some found ↔
      (location = [] ∧ found = .directory entries) ∨
        ∃ name rest child, location = name :: rest ∧ child? name entries = some child ∧
          child.get? rest = some found := by
  cases location with
  | nil =>
      rw [get?, Option.some.injEq]
      constructor
      · rintro rfl
        exact Or.inl ⟨rfl, rfl⟩
      · rintro (⟨_, rfl⟩ | ⟨_, _, _, isCons, _⟩)
        · rfl
        · cases isCons
  | cons name rest =>
      rw [get?, Option.bind_eq_some_iff]
      constructor
      · rintro ⟨child, isChild, leads⟩
        exact Or.inr ⟨name, rest, child, rfl, isChild, leads⟩
      · rintro (⟨isNil, _⟩ | ⟨_, _, child, same, isChild, leads⟩)
        · cases isNil
        · obtain ⟨rfl, rfl⟩ := List.cons.inj same
          exact ⟨child, isChild, leads⟩

theorem mem_names_of_child? {name : FileName} {entries : List (FileName × Entry)}
    (isChild : child? name entries = some found) : name ∈ entries.map Prod.fst := by
  by_cases isIn : name ∈ entries.map Prod.fst
  · exact isIn
  · exact nomatch (child?_eq_none isIn).symm.trans isChild

mutual

/-- Where directories list their entries in order, places are where names lead. -/
theorem mem_places : (entry : Entry) → entry.InOrder → (location : Location) → (found : Entry) →
    ((location, found) ∈ entry.places ↔ entry.get? location = some found)
  | .file content, _, location, found => by
      rw [places, List.mem_singleton, Prod.mk.injEq]
      cases location with
      | nil => rw [get?, Option.some.injEq, and_iff_right rfl, eq_comm]
      | cons name rest => exact iff_of_false nofun nofun
  | .link target, _, location, found => by
      rw [places, List.mem_singleton, Prod.mk.injEq]
      cases location with
      | nil => rw [get?, Option.some.injEq, and_iff_right rfl, eq_comm]
      | cons name rest => exact iff_of_false nofun nofun
  | .directory entries, inOrder, location, found => by
      rw [places, List.mem_cons, Prod.mk.injEq, get?_directory_iff]
      exact or_congr Iff.rfl (mem_placesOf entries inOrder location found)

theorem mem_placesOf : (entries : List (FileName × Entry)) → AreInOrder entries →
    (location : Location) → (found : Entry) →
    ((location, found) ∈ placesOf entries ↔
      ∃ name rest child, location = name :: rest ∧ child? name entries = some child ∧
        child.get? rest = some found)
  | [], _, location, found => by
      refine iff_of_false List.not_mem_nil ?_
      rintro ⟨_, _, _, _, isChild, _⟩
      exact nomatch isChild
  | (first, entry) :: entries, inOrder, location, found => by
      obtain ⟨leads, entryInOrder, restInOrder⟩ := inOrder
      have inFirst (rest : Location) := mem_places entry entryInOrder rest found
      rw [placesOf, List.mem_append, List.mem_map, mem_placesOf entries restInOrder]
      constructor
      · rintro (⟨⟨rest, _⟩, isPlace, same⟩ | ⟨name, rest, child, rfl, isChild, isBelow⟩)
        · obtain ⟨rfl, rfl⟩ := Prod.mk.inj same
          exact ⟨first, rest, entry, rfl, by rw [child?_cons, if_pos rfl], (inFirst rest).mp isPlace⟩
        · have differ : first ≠ name := by
            rintro rfl
            exact List.lt_irrefl _ (leads first (mem_names_of_child? isChild))
          exact ⟨name, rest, child, rfl, by rw [child?_cons, if_neg differ, isChild], isBelow⟩
      · rintro ⟨name, rest, child, rfl, isChild, isBelow⟩
        rw [child?_cons] at isChild
        split at isChild
        · rename_i same
          obtain rfl : first = name := same
          obtain rfl := Option.some.inj isChild
          exact Or.inl ⟨(rest, found), (inFirst rest).mpr isBelow, rfl⟩
        · exact Or.inr ⟨name, rest, child, rfl, isChild, isBelow⟩

end

theorem mem_inside {entry : Entry} (inOrder : entry.InOrder) :
    (location, found) ∈ entry.inside ↔ location ≠ [] ∧ entry.get? location = some found := by
  cases entry with
  | file content =>
      refine iff_of_false List.not_mem_nil ?_
      cases location <;> simp [get?]
  | link target =>
      refine iff_of_false List.not_mem_nil ?_
      cases location <;> simp [get?]
  | directory entries =>
      rw [get?_directory_iff, inside, mem_placesOf entries inOrder]
      constructor
      · rintro ⟨name, rest, child, rfl, below⟩
        exact ⟨List.cons_ne_nil _ _, Or.inr ⟨name, rest, child, rfl, below⟩⟩
      · rintro ⟨nonempty, ⟨isNil, _⟩ | below⟩
        · exact absurd isNil nonempty
        · exact below

end

mutual

theorem places_ordered : (entry : Entry) → entry.InOrder →
    entry.places.Pairwise fun earlier later => earlier.1 < later.1
  | .file _, _ => List.pairwise_singleton ..
  | .link _, _ => List.pairwise_singleton ..
  | .directory entries, inOrder => by
      refine List.pairwise_cons.mpr ⟨?_, placesOf_ordered entries inOrder⟩
      rintro ⟨location, found⟩ isPlace
      obtain ⟨name, rest, _, rfl, _⟩ := (mem_placesOf entries inOrder location found).mp isPlace
      exact List.nil_lt_cons ..

theorem placesOf_ordered : (entries : List (FileName × Entry)) → AreInOrder entries →
    (placesOf entries).Pairwise fun earlier later => earlier.1 < later.1
  | [], _ => List.Pairwise.nil
  | (name, entry) :: rest, inOrder => by
      obtain ⟨leads, entryInOrder, restInOrder⟩ := inOrder
      rw [placesOf, List.pairwise_append]
      refine ⟨?_, placesOf_ordered rest restInOrder, ?_⟩
      · rw [List.pairwise_map]
        refine (places_ordered entry entryInOrder).imp fun before => ?_
        exact List.cons_lt_cons_iff.mpr (Or.inr ⟨rfl, before⟩)
      · rintro earlier isEarlier ⟨location, found⟩ isLater
        obtain ⟨place, _, rfl⟩ := List.mem_map.mp isEarlier
        obtain ⟨other, below, child, rfl, isChild, _⟩ :=
          (mem_placesOf rest restInOrder location found).mp isLater
        exact List.cons_lt_cons_iff.mpr (Or.inl (leads other (mem_names_of_child? isChild)))

end

/-! ### Walks come by places -/

/-- What a walk from a root of this name comes by at a place. -/
def Visited.ofPlace (root : Path) (name : FileName) (place : Location × Entry) : Visited :=
  ⟨root.below place.1, place.1.getLast?.getD name, place.2⟩

mutual

theorem visit_eq (path : Path) (name : FileName) : (entry : Entry) →
    visit path name entry = entry.places.map (Visited.ofPlace path name)
  | .file _ => rfl
  | .link _ => rfl
  | .directory entries => by
      rw [visit, places, List.map_cons, visitAll_eq path name entries]
      rfl

theorem visitAll_eq (path : Path) (name : FileName) : (entries : List (FileName × Entry)) →
    visitAll path entries = (placesOf entries).map (Visited.ofPlace path name)
  | [] => rfl
  | (first, entry) :: rest => by
      rw [visitAll, placesOf, List.map_append, List.map_map, visit_eq (path.join first) first entry,
        visitAll_eq path name rest]
      congr 1
      refine List.map_congr_left fun place _ => ?_
      unfold Function.comp Visited.ofPlace
      rw [List.getLast?_cons]
      rfl

end

/-! ### Links at the root -/

namespace FileTree

section

variable (tree : FileTree)

/-- Whether a link at the end is followed makes a difference only where there is one. -/
theorem advance_cases (location : Location) (steps : List Step) :
    tree.advance false location steps = tree.advance true location steps ∨
      ∃ place target, tree.advance false location steps = .ok (.arrived place) ∧
        tree.get? place = some (.link target) := by
  induction steps generalizing location with
  | nil => exact Or.inl rfl
  | cons step rest ih =>
      rw [advance_cons, advance_cons]
      by_cases isDirectory : tree.isDirectoryAt location = true
      · simp only [isDirectory, Bool.not_true, Bool.false_eq_true, if_false]
        cases step with
        | stay => exact ih location
        | up => exact ih location.dropLast
        | down name =>
            dsimp only
            split
            · exact Or.inl rfl
            · cases found : tree.get? (location ++ [name]) with
              | none => exact Or.inl rfl
              | some entry =>
                  cases entry with
                  | file content => exact ih (location ++ [name])
                  | directory entries => exact ih (location ++ [name])
                  | link target =>
                      cases rest with
                      | nil => exact Or.inr ⟨_, target, rfl, found⟩
                      | cons next rest => exact Or.inl rfl
      · rw [Bool.eq_false_iff.mpr isDirectory]
        exact Or.inl rfl

theorem resolveFrom_cases (links : Nat) (location : Location) (steps : List Step) :
    tree.resolveFrom false links location steps = tree.resolveFrom true links location steps ∨
      ∃ place target, tree.resolveFrom false links location steps = .ok place ∧
        tree.get? place = some (.link target) := by
  induction links generalizing location steps with
  | zero =>
      rw [resolveFrom, resolveFrom]
      rcases tree.advance_cases location steps with same | ⟨place, target, arrives, isLink⟩
      · rw [same]
        exact Or.inl rfl
      · rw [arrives]
        exact Or.inr ⟨place, target, rfl, isLink⟩
  | succ links ih =>
      rw [resolveFrom, resolveFrom]
      rcases tree.advance_cases location steps with same | ⟨place, target, arrives, isLink⟩
      · rw [same]
        cases tree.advance true location steps with
        | error error => exact Or.inl rfl
        | ok halt =>
            cases halt with
            | arrived final => exact Or.inl rfl
            | atLink directory target rest =>
                exact ih (target.startIn directory) (target.steps ++ rest)
      · rw [arrives]
        exact Or.inr ⟨place, target, rfl, isLink⟩

theorem entryAt_cases (path : Path) :
    tree.entryAt path false = tree.entryAt path true ∨
      ∃ target, tree.entryAt path false = .ok (.link target) := by
  have resolved : tree.resolve path false = tree.resolve path true ∨
      ∃ place target, tree.resolve path false = .ok place ∧
        tree.get? place = some (.link target) := by
    unfold resolve
    split
    · exact Or.inl rfl
    · split
      · exact Or.inl rfl
      · split
        · exact Or.inl rfl
        · exact tree.resolveFrom_cases _ _ _
  unfold entryAt
  rcases resolved with same | ⟨place, target, arrives, isLink⟩
  · rw [same]
    exact Or.inl rfl
  · rw [arrives]
    refine Or.inr ⟨target, ?_⟩
    simp only [bind, Except.bind, isLink]

end

/-! ### Walks from a root -/

/-- An entry stands at or below a root: it is the one at the root, or names lead to it from there. A
link has nothing below it, but a link at the root is followed. -/
inductive Holds (tree : FileTree) (root : Path) : Location → Entry → Prop where
  | atRoot {entry : Entry} (isThere : tree.entryAt root false = .ok entry) : tree.Holds root [] entry
  | below {top entry : Entry} {location : Location} (isTop : tree.entryAt root true = .ok top)
      (nonempty : location ≠ []) (leads : top.get? location = some entry) :
      tree.Holds root location entry

/-- What a walk comes by, from the entry at the root and the one behind it. -/
def placesFrom (entry top : Entry) : List (Location × Entry) := ([], entry) :: top.inside

variable {tree : FileTree} {root : Path}

theorem walkFrom_eq (isThere : tree.contains root = true) :
    ∃ entry top, tree.entryAt root false = .ok entry ∧ tree.entryAt root true = .ok top ∧
      walkFrom tree root =
        (placesFrom entry.sorted top.sorted).map (Visited.ofPlace root (rootName root)) := by
  obtain ⟨top, isTop⟩ : ∃ top, tree.entryAt root true = .ok top := by
    unfold contains at isThere
    cases found : tree.entryAt root true with
    | error error =>
        rw [found] at isThere
        exact nomatch isThere
    | ok top => exact ⟨top, rfl⟩
  have behind : behindLink tree root =
      top.sorted.inside.map (Visited.ofPlace root (rootName root)) := by
    unfold behindLink
    rw [isTop]
    cases top with
    | file content => rfl
    | link target => rfl
    | directory entries => exact visitAll_eq root (rootName root) (sortEntries entries)
  rcases tree.entryAt_cases root with same | ⟨target, isLink⟩
  · rw [isTop] at same
    refine ⟨top, top, same, isTop, ?_⟩
    unfold walkFrom
    rw [same, placesFrom, ← places_eq]
    cases top with
    | file content => exact visit_eq root (rootName root) (.file content)
    | link target => exact congrArg _ behind
    | directory entries => exact visit_eq root (rootName root) (.directory (sortEntries entries))
  · refine ⟨.link target, top, isLink, isTop, ?_⟩
    unfold walkFrom
    rw [isLink]
    exact congrArg _ behind

theorem proper_of_entryAt {followLast : Bool} {entry : Entry} (proper : tree.root.isProper = true)
    (found : tree.entryAt root followLast = .ok entry) : entry.isProper = true := by
  unfold entryAt at found
  cases resolved : tree.resolve root followLast with
  | error error =>
      rw [resolved] at found
      exact nomatch found
  | ok location =>
      rw [resolved] at found
      simp only [bind, Except.bind] at found
      cases isThere : tree.get? location with
      | none =>
          rw [isThere] at found
          exact nomatch found
      | some other =>
          rw [isThere] at found
          obtain rfl := Except.ok.inj found
          exact (proper_of_get? proper isThere).2

section

variable (proper : tree.root.isProper = true)
include proper

theorem named_of_holds {location : Location} {entry : Entry}
    (holds : tree.Holds root location entry) (name : FileName) (isIn : name ∈ location) :
    isName name = true := by
  cases holds with
  | atRoot _ => exact absurd isIn List.not_mem_nil
  | below isTop _ leads => exact (proper_of_get? (proper_of_entryAt proper isTop) leads).1 name isIn

theorem mem_placesFrom {entry top found : Entry} (isEntry : tree.entryAt root false = .ok entry)
    (isTop : tree.entryAt root true = .ok top) {location : Location} :
    (location, found) ∈ placesFrom entry.sorted top.sorted ↔
      ∃ original, tree.Holds root location original ∧ found = original.sorted := by
  have topProper := proper_of_entryAt proper isTop
  rw [placesFrom, List.mem_cons, Prod.mk.injEq, mem_inside (inOrder_sorted top topProper),
    get?_sorted topProper, Option.map_eq_some_iff]
  constructor
  · rintro (⟨rfl, rfl⟩ | ⟨nonempty, original, leads, rfl⟩)
    · exact ⟨entry, .atRoot isEntry, rfl⟩
    · exact ⟨original, .below isTop nonempty leads, rfl⟩
  · rintro ⟨original, holds, rfl⟩
    cases holds with
    | atRoot isThere =>
        obtain rfl := Except.ok.inj (isEntry.symm.trans isThere)
        exact Or.inl ⟨rfl, rfl⟩
    | below isThere nonempty leads =>
        obtain rfl := Except.ok.inj (isTop.symm.trans isThere)
        exact Or.inr ⟨nonempty, original, leads, rfl⟩

theorem placesFrom_ordered (entry : Entry) {top : Entry} (isTop : tree.entryAt root true = .ok top) :
    (placesFrom entry top.sorted).Pairwise fun earlier later => earlier.1 < later.1 := by
  have ordered := places_ordered top.sorted (inOrder_sorted top (proper_of_entryAt proper isTop))
  rw [places_eq] at ordered
  exact List.pairwise_cons.mpr (List.pairwise_cons.mp ordered)

theorem mem_walkFrom_iff (isThere : tree.contains root = true) {visited : Visited} :
    visited ∈ walkFrom tree root ↔
      ∃ location entry, tree.Holds root location entry ∧
        visited = .ofPlace root (rootName root) (location, entry.sorted) := by
  obtain ⟨entry, top, isEntry, isTop, walked⟩ := walkFrom_eq isThere
  rw [walked, List.mem_map]
  constructor
  · rintro ⟨⟨location, _⟩, isPlace, rfl⟩
    obtain ⟨original, holds, rfl⟩ := (mem_placesFrom proper isEntry isTop).mp isPlace
    exact ⟨location, original, holds, rfl⟩
  · rintro ⟨location, original, holds, rfl⟩
    exact ⟨(location, original.sorted),
      (mem_placesFrom proper isEntry isTop).mpr ⟨original, holds, rfl⟩, rfl⟩

theorem walkFrom_ordered (isThere : tree.contains root = true) :
    (walkFrom tree root).Pairwise fun earlier later =>
      earlier.path.activePieces < later.path.activePieces := by
  obtain ⟨entry, top, isEntry, isTop, walked⟩ := walkFrom_eq isThere
  have pieces (place : Location × Entry) (isPlace : place ∈ placesFrom entry.sorted top.sorted) :
      (Visited.ofPlace root (rootName root) place).path.activePieces =
        root.activePieces ++ place.1 := by
    obtain ⟨original, holds, _⟩ := (mem_placesFrom proper isEntry isTop).mp isPlace
    exact Path.activePieces_below (named_of_holds proper holds) root
  rw [walked, List.pairwise_map]
  refine (placesFrom_ordered proper entry.sorted isTop).imp_of_mem ?_
  intro earlier later isEarlier isLater before
  rw [pieces earlier isEarlier, pieces later isLater]
  exact List.append_left_lt before

theorem walkFrom_of_sorted {other : FileTree} (otherProper : other.root.isProper = true)
    (same : other.sorted = tree.sorted)
    (isThere : tree.contains root = true) :
    other.contains root = true ∧ walkFrom other root = walkFrom tree root := by
  have sameEntry (followLast : Bool) :
      (other.entryAt root followLast).map Entry.sorted =
        (tree.entryAt root followLast).map Entry.sorted := by
    rw [← entryAt_sorted otherProper, ← entryAt_sorted proper, same]
  have otherIsThere : other.contains root = true := by
    unfold contains at isThere ⊢
    have atRoot := sameEntry true
    cases found : tree.entryAt root true with
    | error error =>
        rw [found] at isThere
        exact nomatch isThere
    | ok top =>
        cases isOther : other.entryAt root true with
        | error error =>
            rw [found, isOther] at atRoot
            exact nomatch atRoot
        | ok otherTop => rfl
  refine ⟨otherIsThere, ?_⟩
  obtain ⟨entry, top, isEntry, isTop, walked⟩ := walkFrom_eq isThere
  obtain ⟨otherEntry, otherTop, isOtherEntry, isOtherTop, otherWalked⟩ := walkFrom_eq otherIsThere
  have entries := sameEntry false
  have tops := sameEntry true
  rw [isEntry, isOtherEntry] at entries
  rw [isTop, isOtherTop] at tops
  rw [walked, otherWalked, Except.ok.inj entries, Except.ok.inj tops]

/-- The order in which directories list their entries makes no difference to a walk. -/
theorem walkFrom_of_rearranged {other : FileTree} (rearranged : Rearranged tree.root other.root)
    (sameHome : other.home = tree.home) (isThere : tree.contains root = true) :
    other.contains root = true ∧ walkFrom other root = walkFrom tree root := by
  obtain ⟨otherProper, sameRoot⟩ := sorted_of_rearranged rearranged proper
  exact walkFrom_of_sorted proper otherProper (eq_of_root_eq sameRoot sameHome) isThere

end

end FileTree

/-! ### Refusals -/

section

variable {host : Host} {tree : FileTree} {root : Path} {pattern : String} {pieces : Pattern}

/-- The system has nothing against a walk if it lets it see the root, ask about every entry that
matches, and read every directory. -/
theorem walkFault?_eq_none_iff :
    walkFault? host tree root pieces = none ↔
      host.refusesWalk .enter root = none ∧
        ∀ visited, visited ∈ walkFrom tree root →
          (visited.matches pieces = true → host.refusesWalk .inspect visited.path = none) ∧
            (isListed tree root visited = true → host.refusesWalk .list visited.path = none) := by
  have atEntry (visited : Visited) : faultAt? host tree root pieces visited = none ↔
      (visited.matches pieces = true → host.refusesWalk .inspect visited.path = none) ∧
        (isListed tree root visited = true → host.refusesWalk .list visited.path = none) := by
    unfold faultAt?
    rw [Option.or_eq_none_iff, ite_eq_right_iff, ite_eq_right_iff]
  unfold walkFault?
  rw [Option.or_eq_none_iff, List.findSome?_eq_none_iff]
  exact and_congr_right fun _ => forall_congr' fun visited => imp_congr_right fun _ =>
    atEntry visited

theorem walkFault?_willing : walkFault? .willing tree root pieces = none :=
  walkFault?_eq_none_iff.mpr ⟨rfl, fun _ _ => ⟨fun _ => rfl, fun _ => rfl⟩⟩

theorem walk_eq_ok (valid : Pattern.ofText pattern = .ok pieces)
    (isThere : tree.contains root = true) :
    walk tree root pattern = .ok ((walkFrom tree root).filter (Visited.matches pieces)) := by
  unfold walk walkOn
  simp only [valid, walkFault?_willing]
  exact if_pos isThere

/-- A walk is what it would be on a system that refuses nothing, or it fails by what the system has
against it. -/
theorem walkOn_cases (host : Host) (tree : FileTree) (root : Path) (pattern : String) :
    walkOn host tree root pattern = walk tree root pattern ∨
      ∃ pieces fault, Pattern.ofText pattern = .ok pieces ∧
        walkFault? host tree root pieces = some fault ∧
        walkOn host tree root pattern = .error (.refused (fault.path?.getD root) fault) := by
  unfold walk walkOn
  cases valid : Pattern.ofText pattern with
  | error error => exact Or.inl rfl
  | ok pieces =>
      simp only [walkFault?_willing]
      split
      · cases refused : walkFault? host tree root pieces with
        | none => exact Or.inl rfl
        | some fault => exact Or.inr ⟨pieces, fault, rfl, refused, rfl⟩
      · exact Or.inl rfl

theorem walk_of_walkOn {found : List Visited} (walked : walkOn host tree root pattern = .ok found) :
    walk tree root pattern = .ok found := by
  rcases walkOn_cases host tree root pattern with same | ⟨_, _, _, _, refused⟩
  · exact same.symm.trans walked
  · exact nomatch refused.symm.trans walked

theorem discover_eq : discover tree root pattern =
    (walk tree root pattern).map fun found => (found.filter Visited.isSource).map Visited.path :=
  rfl

theorem discover_of_discoverOn {paths : List Path}
    (found : discoverOn host tree root pattern = .ok paths) :
    discover tree root pattern = .ok paths := by
  rw [discover_eq]
  unfold discoverOn at found
  cases walked : walkOn host tree root pattern with
  | error error =>
      rw [walked] at found
      exact nomatch found
  | ok visited =>
      rw [walked] at found
      rw [walk_of_walkOn walked]
      exact found

theorem walkOn_usual (short : ∀ visited, visited ∈ walkFrom tree root →
      visited.path.bytes.length < pathLengthLimit) :
    walkOn .usual tree root pattern = walk tree root pattern := by
  have allowed (step : WalkStep) {path : Path} (isShort : path.bytes.length < pathLengthLimit) :
      Host.usual.refusesWalk step path = none := if_neg (Nat.not_le.mpr isShort)
  unfold walk walkOn
  cases Pattern.ofText pattern with
  | error error => rfl
  | ok pieces =>
      simp only [walkFault?_willing]
      split
      · rename_i isThere
        obtain ⟨entry, top, _, _, walked⟩ := FileTree.walkFrom_eq isThere
        have atRoot : root.bytes.length < pathLengthLimit :=
          short (.ofPlace root (rootName root) ([], entry.sorted))
            (by rw [walked]; exact List.mem_cons_self)
        rw [walkFault?_eq_none_iff.mpr ⟨allowed .enter atRoot, fun visited isVisited =>
          ⟨fun _ => allowed .inspect (short visited isVisited),
            fun _ => allowed .list (short visited isVisited)⟩⟩]
      · rfl

end

/-! ### What is found -/

theorem matches_iff {pieces : Pattern} {visited : Visited} :
    visited.matches pieces = true ↔
      ∃ text, Text.textOf? visited.name = some text ∧ pieces.matches text = true := by
  unfold Visited.matches
  cases Text.textOf? visited.name with
  | none => exact iff_of_false nofun (by rintro ⟨_, isText, _⟩; exact nomatch isText)
  | some text => simp

/-- A source file is a regular file whose name ends in a dot and the extension, with something in
front. -/
theorem isSource_iff {visited : Visited} :
    visited.isSource = true ↔
      (∃ content, visited.entry = .file content) ∧
        ∃ stem, stem ≠ [] ∧ visited.path.fileName? = some (stem ++ dot :: sourceExtension) := by
  have isExtension : visited.path.extension? = some sourceExtension ↔
      ∃ stem, stem ≠ [] ∧ visited.path.fileName? = some (stem ++ dot :: sourceExtension) := by
    have noDot : dot ∉ sourceExtension := by decide +kernel
    unfold Path.extension?
    rw [Option.bind_eq_some_iff]
    simp only [Path.extensionOf?_eq_some_iff, noDot, not_false_eq_true, true_and]
    constructor
    · rintro ⟨_, isLast, stem, nonempty, rfl⟩
      exact ⟨stem, nonempty, isLast⟩
    · rintro ⟨stem, nonempty, isLast⟩
      exact ⟨_, isLast, stem, nonempty, rfl⟩
  unfold Visited.isSource
  split
  · rename_i content isFile
    rw [beq_iff_eq, isExtension, isFile]
    exact (and_iff_right ⟨content, rfl⟩).symm
  · rename_i notFile
    refine iff_of_false Bool.false_ne_true ?_
    rintro ⟨⟨content, isFile⟩, _⟩
    exact notFile content isFile

/-- A search finds the entries at and below the root whose names are text that matches, each of them
once, under the path of the names that lead to it, and in the order of the pieces of these paths. The
source files among them, which are the regular files with the extension, are listed in the same order.
Another order of the entries in the directories of the tree makes no difference to either. -/
theorem discovery_exact (tree : FileTree) (root : Path) (pattern : String) (pieces : Pattern)
    (proper : tree.root.isProper = true) (isThere : tree.contains root = true)
    (valid : Pattern.ofText pattern = .ok pieces) :
    ∃ found, walk tree root pattern = .ok found ∧
      (∀ visited, visited ∈ found ↔
        ∃ location entry text, tree.Holds root location entry ∧
          visited = .ofPlace root (rootName root) (location, entry.sorted) ∧
          Text.textOf? visited.name = some text ∧ pieces.matches text = true) ∧
      (found.Pairwise fun earlier later => earlier.path.activePieces < later.path.activePieces) ∧
      discover tree root pattern = .ok ((found.filter Visited.isSource).map Visited.path) ∧
      (∀ visited, visited ∈ found → (visited.isSource = true ↔
        (∃ content, visited.entry = .file content) ∧
          ∃ stem, stem ≠ [] ∧ visited.path.fileName? = some (stem ++ dot :: sourceExtension))) ∧
      ∀ other : FileTree, Rearranged tree.root other.root → other.home = tree.home →
        walk other root pattern = .ok found ∧
          discover other root pattern = discover tree root pattern := by
  have found := walk_eq_ok valid isThere
  refine ⟨_, found, ?_, (FileTree.walkFrom_ordered proper isThere).filter _, ?_,
    fun _ _ => isSource_iff, ?_⟩
  · intro visited
    rw [List.mem_filter, FileTree.mem_walkFrom_iff proper isThere, matches_iff]
    constructor
    · rintro ⟨⟨location, entry, holds, isPlace⟩, text, isText, fits⟩
      exact ⟨location, entry, text, holds, isPlace, isText, fits⟩
    · rintro ⟨location, entry, text, holds, isPlace, isText, fits⟩
      exact ⟨⟨location, entry, holds, isPlace⟩, text, isText, fits⟩
  · rw [discover_eq, found]
    rfl
  · intro other rearranged sameHome
    obtain ⟨otherIsThere, sameWalk⟩ :=
      FileTree.walkFrom_of_rearranged proper rearranged sameHome isThere
    have sameFound : walk other root pattern = walk tree root pattern := by
      rw [walk_eq_ok valid otherIsThere, walk_eq_ok valid isThere, sameWalk]
    exact ⟨sameFound.trans found, by rw [discover_eq, discover_eq, sameFound]⟩

/-- A root that is a link to a directory with a file, a directory, a link, which is not followed, and
a file whose name is no text. What the directory holds comes before the file whose name goes on with a
dot, although a dot is less than a slash. -/
theorem discovery_exact_behind_link :
    ∃ (tree other : FileTree) (root : Path) (pieces : Pattern) (found : List Visited),
      tree.root.isProper = true ∧ tree.contains root = true ∧
      Pattern.ofText "*.rs" = .ok pieces ∧ Rearranged tree.root other.root ∧
      walk tree root "*.rs" = .ok found ∧ walk other root "*.rs" = .ok found ∧
      found.map Visited.path = [.ofText "w/a/b.rs", .ofText "w/a.rs", .ofText "w/l.rs"] ∧
      discover other root "*.rs" = .ok [.ofText "w/a/b.rs", .ofText "w/a.rs"] := by
  let name := Text.bytesOf
  let file : Entry := .file .empty
  let front := (name "a.rs", file)
  let back := (name "a", Entry.directory [(name "b.rs", file)])
  let rest := [(name "l.rs", Entry.link (.ofText "../t")), (0xff :: name ".rs", file),
    (name "c.txt", file)]
  let tree : FileTree :=
    ⟨[(name "w", .link (.ofText "t")), (name "t", .directory (front :: back :: rest))], []⟩
  let other : FileTree :=
    ⟨[(name "w", .link (.ofText "t")), (name "t", .directory (back :: front :: rest))], []⟩
  let root : Path := .ofText "w"
  let pieces : Pattern := [.anyRun, .literal '.', .literal 'r', .literal 's']
  have proper : tree.root.isProper = true := by decide +kernel
  have isThere : tree.contains root = true := by decide +kernel
  have valid : Pattern.ofText "*.rs" = .ok pieces := by rfl
  have rearranged : Rearranged tree.root other.root :=
    .directory (.cons _ (.link _) (.cons _ (.directory (.swap front back rest)) .nil))
  obtain ⟨found, walked, _, _, discovered, _, anyOrder⟩ :=
    discovery_exact tree root "*.rs" pieces proper isThere valid
  obtain ⟨otherWalked, otherDiscovered⟩ := anyOrder other rearranged rfl
  refine ⟨tree, other, root, pieces, found, proper, isThere, valid, rearranged, walked, otherWalked,
    ?_, ?_⟩
  · have paths : (walk tree root "*.rs").toOption.map (fun visited => visited.map Visited.path) =
        some [.ofText "w/a/b.rs", .ofText "w/a.rs", .ofText "w/l.rs"] := by decide +kernel
    rw [walked] at paths
    exact Option.some.inj paths
  · have paths : (discover tree root "*.rs").toOption =
        some [.ofText "w/a/b.rs", .ofText "w/a.rs"] := by decide +kernel
    rw [discovered] at paths
    rw [otherDiscovered, discovered, Option.some.inj paths]

end Codemod.Files
