import Codemod.Proofs.Files.Replace

/-!
The place of a file that has been put somewhere.

A path names a place: a name in the directory that its other pieces lead to. Once a file is put there,
it is the only place that shows something else than before, and unless there was a link, the path
leads to the file.
-/

set_option autoImplicit false

namespace Codemod.Files

/-! ### Names -/

namespace Path

theorem eq_of_stepOf_eq_down {piece name : FileName} (isDown : stepOf piece = .down name) :
    piece = name := by
  unfold stepOf at isDown
  split at isDown
  · exact nomatch isDown
  · split at isDown
    · exact nomatch isDown
    · exact Step.down.inj isDown

theorem of_nameFor {path : Path} {name : FileName} (isName : path.nameFor = .ok name) :
    path.trimmedPieces.getLast? = some name ∧ stepOf name = .down name ∧
      path.bytes.getLast? ≠ some slash ∧ name.length ≤ maxNameLength := by
  unfold nameFor at isName
  split at isName
  · rename_i found isLast
    obtain ⟨piece, isPiece, isDown⟩ := Option.map_eq_some_iff.mp isLast
    obtain rfl := eq_of_stepOf_eq_down isDown
    split at isName
    · exact nomatch isName
    · rename_i noSlash
      split at isName
      · exact nomatch isName
      · rename_i short
        obtain rfl := Except.ok.inj isName
        exact ⟨isPiece, isDown, fun same => noSlash (beq_iff_eq.mpr same), Nat.not_lt.mp short⟩
  · exact nomatch isName

theorem getLast?_split {bytes : List UInt8} (some : bytes ≠ [])
    (noSlash : bytes.getLast? ≠ .some slash) :
    ∃ piece, (split bytes).getLast? = .some piece ∧ piece ≠ [] := by
  induction bytes with
  | nil => exact absurd rfl some
  | cons byte rest ih =>
      cases rest with
      | nil =>
          have differ : byte ≠ slash := fun same => noSlash (congrArg Option.some same)
          rw [split, if_neg differ]
          exact ⟨[byte], rfl, List.cons_ne_nil _ _⟩
      | cons next rest =>
          rw [List.getLast?_cons_cons] at noSlash
          obtain ⟨piece, isLast, nonempty⟩ := ih (List.cons_ne_nil _ _) noSlash
          rw [split]
          cases pieces : split (next :: rest) with
          | nil =>
              rw [pieces] at isLast
              exact nomatch isLast
          | cons first more =>
              rw [pieces] at isLast
              split
              · exact ⟨piece, by rw [List.getLast?_cons_cons, isLast], nonempty⟩
              · cases more with
                | nil => exact ⟨byte :: first, rfl, List.cons_ne_nil _ _⟩
                | cons second more =>
                    rw [List.getLast?_cons_cons] at isLast
                    exact ⟨piece, by simp only [List.getLast?_cons_cons, isLast], nonempty⟩

/-- A path that does not end in a slash is followed piece by piece up to the name. -/
theorem steps_of_nameFor {path : Path} {name : FileName} (isName : path.nameFor = .ok name) :
    path.bytes ≠ [] ∧
      path.steps = path.trimmedPieces.dropLast.map stepOf ++ [.down name] := by
  obtain ⟨isLast, isDown, noSlash, _⟩ := of_nameFor isName
  have some : path.bytes ≠ [] := by
    intro none
    rw [trimmedPieces, pieces, none] at isLast
    exact nomatch isLast
  refine ⟨some, ?_⟩
  obtain ⟨last, atEnd, nonempty⟩ := getLast?_split some noSlash
  have untrimmed : path.trimmedPieces = path.pieces := by
    obtain ⟨front, isFront⟩ := List.getLast?_eq_some_iff.mp atEnd
    rw [trimmedPieces, pieces, isFront, List.reverse_concat,
      List.dropWhile_cons_of_neg (mt List.isEmpty_iff.mp nonempty), ← List.reverse_concat,
      List.reverse_reverse]
  obtain ⟨front, isFront⟩ := List.getLast?_eq_some_iff.mp isLast
  rw [steps, ← untrimmed, isFront, List.dropLast_concat, List.map_append, List.map_singleton, isDown]

end Path

namespace FileTree

/-- The place that a path names. -/
def Names (tree : FileTree) (path : Path) (location : Location) : Prop :=
  ∃ directory name, tree.directoryAt path path.trimmedPieces.dropLast = .ok directory ∧
    path.trimmedPieces.getLast? = some name ∧ location = directory ++ [name]

/-! ### What is shown afterwards -/

/-- A tree that shows a file in one place, and everything else as another tree does, from the same
working directory. -/
structure DiffersAt (tree : FileTree) (location : Location) (content : ByteArray)
    (after : FileTree) : Prop where
  home : after.home = tree.home
  shown : after.contentAt? location = some (.file content)
  kept : ∀ other, other ≠ location → after.contentAt? other = tree.contentAt? other

section

variable {tree after : FileTree} {location : Location}

theorem isDirectoryAt_iff_content :
    tree.isDirectoryAt location = true ↔ tree.contentAt? location = some .directory := by
  unfold isDirectoryAt contentAt?
  cases tree.get? location with
  | none => exact iff_of_false nofun nofun
  | some entry =>
      cases entry with
      | file bytes => exact iff_of_false nofun nofun
      | link target => exact iff_of_false nofun nofun
      | directory entries => exact iff_of_true rfl rfl

theorem contentAt?_below (noDirectory : tree.contentAt? location ≠ some .directory)
    {below : Location} (isBelow : below ≠ []) : tree.contentAt? (location ++ below) = none := by
  unfold contentAt? get? at noDirectory ⊢
  rw [Entry.get?_append]
  cases found : tree.root.get? location with
  | none => rfl
  | some entry =>
      rw [found] at noDirectory
      cases below with
      | nil => exact absurd rfl isBelow
      | cons name rest =>
          cases entry with
          | file bytes => rfl
          | link target => rfl
          | directory entries => exact absurd rfl noDirectory

theorem differsAt_of_placed {directory : Location} {path : Path} {content : ByteArray}
    (isDirectory : tree.isDirectoryAt directory = true)
    (placed : tree.Placed directory path content after) :
    ∃ name, path.nameFor = .ok name ∧ DiffersAt tree (directory ++ [name]) content after ∧
      tree.contentAt? (directory ++ [name]) ≠ some .directory := by
  obtain ⟨name, isName, noDirectory, rfl⟩ := placed
  obtain ⟨entries, isAt⟩ := isDirectoryAt_iff.mp isDirectory
  have shown : (tree.changeDirectory directory (Entry.setChild name (.file content))).contentAt?
      (directory ++ [name]) = some (.file content) := by
    rw [contentAt?, get?_concat (get?_changeDirectory isAt), Entry.child?_setChild_self]
    rfl
  have notDirectory : tree.contentAt? (directory ++ [name]) ≠ some .directory := by
    rw [Ne, ← isDirectoryAt_iff_content, noDirectory]
    exact Bool.false_ne_true
  refine ⟨name, isName, ⟨home_changeDirectory, shown, ?_⟩, notDirectory⟩
  intro other differ
  by_cases isBelow : directory ++ [name] <+: other
  · obtain ⟨below, rfl⟩ := isBelow
    have nonempty : below ≠ [] := by
      rintro rfl
      exact differ (List.append_nil _)
    -- Neither what was there nor the file that is there now has anything below it.
    rw [contentAt?_below notDirectory nonempty, contentAt?_below _ nonempty]
    rw [shown]
    exact nofun
  · unfold contentAt? get?
    rw [root_changeDirectory]
    exact Entry.content_changeDirectory (fun _ _ => Entry.child?_setChild_other) isBelow tree.root

/-! ### Reading it back -/

/-- A walk that stops at a link, or in a directory. -/
def Sound (tree : FileTree) : Halt → Prop
  | .arrived location => tree.isDirectoryAt location = true
  | .atLink _ _ _ => True

theorem get?_of_content {entry : Entry} (shows : tree.contentAt? location = some entry.content)
    (noDirectory : entry.isDirectory = false) : tree.get? location = some entry := by
  unfold contentAt? at shows
  obtain ⟨found, isAt, same⟩ := Option.map_eq_some_iff.mp shows
  rw [isAt]
  cases entry with
  | directory entries => exact nomatch noDirectory
  | file bytes =>
      cases found with
      | file other => rw [Content.file.inj same]
      | link target => exact nomatch same
      | directory entries => exact nomatch same
  | link target =>
      cases found with
      | file bytes => exact nomatch same
      | link other => rw [Content.link.inj same]
      | directory entries => exact nomatch same

theorem advance_cons (followLast : Bool) (step : Step) (rest : List Step) :
    tree.advance followLast location (step :: rest) =
      if !tree.isDirectoryAt location then .error .notADirectory
      else
        match step with
        | .stay => tree.advance followLast location rest
        | .up => tree.advance followLast location.dropLast rest
        | .down name =>
            if maxNameLength < name.length then .error .nameTooLong
            else
              match tree.get? (location ++ [name]) with
              | none => .error .notFound
              | some (.link target) =>
                  if followLast || !rest.isEmpty then .ok (.atLink location target rest)
                  else .ok (.arrived (location ++ [name]))
              | some _ => tree.advance followLast (location ++ [name]) rest :=
  advance.eq_def ..

theorem isDirectoryAt_of_advance {followLast : Bool} {steps : List Step} {halt : Halt}
    (walked : tree.advance followLast location steps = .ok halt) (sound : tree.Sound halt) :
    tree.isDirectoryAt location = true := by
  cases steps with
  | nil =>
      obtain rfl := Except.ok.inj walked
      exact sound
  | cons step rest =>
      rw [advance_cons] at walked
      split at walked
      · exact nomatch walked
      · rename_i isDirectory
        rw [Bool.not_eq_true, Bool.not_eq_false'] at isDirectory
        exact isDirectory

theorem resolveFrom_eq_ok_iff {followLast : Bool} {links : Nat} {steps : List Step}
    {final : Location} :
    tree.resolveFrom followLast links location steps = .ok final ↔
      tree.advance followLast location steps = .ok (.arrived final) ∨
        ∃ directory target rest fewer, links = fewer + 1 ∧
          tree.advance followLast location steps = .ok (.atLink directory target rest) ∧
          tree.resolveFrom followLast fewer (target.startIn directory) (target.steps ++ rest) =
            .ok final := by
  rw [resolveFrom.eq_def]
  cases walked : tree.advance followLast location steps with
  | error error => simp [walked]
  | ok halt =>
      cases halt with
      | arrived found => simp [walked]
      | atLink directory target rest =>
          cases links with
          | zero => simp [walked]
          | succ links =>
              simp only [walked]
              constructor
              · intro resolved
                exact Or.inr ⟨directory, target, rest, links, rfl, rfl, resolved⟩
              · rintro (arrived | ⟨_, _, _, _, ⟨rfl⟩, ⟨rfl⟩, resolved⟩)
                · exact nomatch arrived
                · exact resolved

section

variable {place : Location}
  (kept : ∀ other, other ≠ place → after.contentAt? other = tree.contentAt? other)
  (noDirectory : tree.contentAt? place ≠ some .directory)
include kept noDirectory

theorem isDirectoryAt_kept (isDirectory : tree.isDirectoryAt location = true) :
    after.isDirectoryAt location = true := by
  rw [isDirectoryAt_iff_content] at isDirectory ⊢
  rw [kept location, isDirectory]
  rintro rfl
  exact noDirectory isDirectory

variable (noLink : ∀ target, tree.contentAt? place ≠ some (.link target))
include noLink

/-- Where neither a directory nor a link is, a change cannot be met on the way to a directory. -/
theorem advance_kept {followLast : Bool} {steps : List Step} {halt : Halt}
    (walked : tree.advance followLast location steps = .ok halt) (sound : tree.Sound halt) :
    after.advance followLast location steps = .ok halt := by
  induction steps generalizing location with
  | nil => exact walked
  | cons step rest ih =>
      have isDirectory := isDirectoryAt_of_advance walked sound
      rw [advance_cons, isDirectory] at walked
      rw [advance_cons, isDirectoryAt_kept kept noDirectory isDirectory]
      cases step with
      | stay => exact ih walked
      | up => exact ih walked
      | down name =>
          simp only [Bool.not_true, Bool.false_eq_true, if_false] at walked ⊢
          split at walked
          · cases walked
          · rename_i short
            rw [if_neg short]
            cases found : tree.get? (location ++ [name]) with
            | none =>
                rw [found] at walked
                cases walked
            | some entry =>
                cases entry with
                | link target =>
                    have shows : tree.contentAt? (location ++ [name]) =
                        some (Entry.link target).content :=
                      congrArg (Option.map Entry.content) found
                    have differ : location ++ [name] ≠ place := by
                      rintro rfl
                      exact noLink target shows
                    rw [get?_of_content ((kept _ differ).trans shows) rfl]
                    rw [found] at walked
                    exact walked
                | file bytes =>
                    -- The change would be met here, but no walk to a directory gets past a file.
                    rw [found] at walked
                    have isDirectory' := isDirectoryAt_of_advance walked sound
                    rw [isDirectoryAt, found] at isDirectory'
                    cases isDirectory'
                | directory entries =>
                    have inAfter := isDirectoryAt_kept kept noDirectory
                      (isDirectoryAt_iff.mpr ⟨entries, found⟩)
                    obtain ⟨entries', found'⟩ := isDirectoryAt_iff.mp inAfter
                    rw [found] at walked
                    rw [found']
                    exact ih walked

theorem resolveFrom_kept {followLast : Bool} {links : Nat} {steps : List Step} {final : Location}
    (resolved : tree.resolveFrom followLast links location steps = .ok final)
    (isDirectory : tree.isDirectoryAt final = true) :
    after.resolveFrom followLast links location steps = .ok final := by
  induction links using Nat.strongRecOn generalizing location steps with
  | _ links ih =>
      rw [resolveFrom_eq_ok_iff] at resolved ⊢
      rcases resolved with walked | ⟨directory, target, rest, fewer, rfl, walked, behind⟩
      · exact Or.inl (advance_kept kept noDirectory noLink walked isDirectory)
      · exact Or.inr ⟨directory, target, rest, fewer, rfl,
          advance_kept kept noDirectory noLink walked trivial,
          ih fewer (Nat.lt_succ_self fewer) behind⟩

end

/-- More moves are made behind the others. -/
theorem advance_append (front back : List Step) :
    tree.advance true location (front ++ back) =
      match tree.advance true location front with
      | .error error => .error error
      | .ok (.arrived directory) => tree.advance true directory back
      | .ok (.atLink directory target rest) => .ok (.atLink directory target (rest ++ back)) := by
  induction front generalizing location with
  | nil => rfl
  | cons step rest ih =>
      rw [List.cons_append, advance_cons, advance_cons]
      split
      · rfl
      · cases step with
        | stay => exact ih
        | up => exact ih
        | down name =>
            simp only
            split
            · rfl
            · cases tree.get? (location ++ [name]) with
              | none => rfl
              | some entry =>
                  cases entry with
                  | link target => rfl
                  | file bytes => exact ih
                  | directory entries => exact ih

theorem resolveFrom_append {links : Nat} {front back : List Step} {directory final : Location}
    (resolved : tree.resolveFrom true links location front = .ok directory)
    (walked : tree.advance true directory back = .ok (.arrived final)) :
    tree.resolveFrom true links location (front ++ back) = .ok final := by
  induction links using Nat.strongRecOn generalizing location front with
  | _ links ih =>
      rw [resolveFrom_eq_ok_iff] at resolved ⊢
      rw [advance_append]
      rcases resolved with onFront | ⟨last, target, rest, fewer, rfl, onFront, behind⟩
      · rw [onFront]
        exact Or.inl walked
      · rw [onFront]
        refine Or.inr ⟨last, target, rest ++ back, fewer, rfl, rfl, ?_⟩
        rw [← List.append_assoc]
        exact ih fewer (Nat.lt_succ_self fewer) behind

theorem fromUTF8?_toUTF8 (text : String) : String.fromUTF8? text.toUTF8 = some text := by
  unfold String.fromUTF8?
  exact dif_pos text.isValidUTF8

theorem readText_of_placed {directory : Location} {path : Path} {name : FileName} {text : String}
    (followable : path.Followable)
    (found : tree.directoryAt path path.trimmedPieces.dropLast = .ok directory)
    (isName : path.nameFor = .ok name)
    (differs : DiffersAt tree (directory ++ [name]) text.toUTF8 after)
    (noDirectory : tree.contentAt? (directory ++ [name]) ≠ some .directory)
    (noLink : ∀ target, tree.contentAt? (directory ++ [name]) ≠ some (.link target)) :
    after.readText path = .ok text := by
  obtain ⟨resolved, isDirectory⟩ := of_directoryAt tree path found
  obtain ⟨nonempty, isSteps⟩ := Path.steps_of_nameFor isName
  obtain ⟨_, _, _, short⟩ := Path.of_nameFor isName
  have isFile : after.get? (directory ++ [name]) = some (.file text.toUTF8) :=
    get?_of_content differs.shown rfl
  have walked : after.advance true directory [.down name] = .ok (.arrived (directory ++ [name])) := by
    rw [advance_cons, isDirectoryAt_kept differs.kept noDirectory isDirectory]
    simp only [Bool.not_true, Bool.false_eq_true, if_false, if_neg (Nat.not_lt.mpr short), isFile]
    rfl
  have whole : after.resolve path true = .ok (directory ++ [name]) := by
    unfold resolve
    rw [followable.noZero, if_neg (Nat.not_le.mpr followable.short), differs.home, isSteps]
    rw [resolveFrom_append (resolveFrom_kept differs.kept noDirectory noLink resolved isDirectory)
      walked]
    simp [nonempty]
  unfold readText entryAt
  rw [whole]
  simp only [bind, Except.bind, isFile]
  rw [fromUTF8?_toUTF8]

end

/-- A text gets to the place that a path names, or there is an obstacle and nothing happens. -/
theorem replaceText_cases (host : Host) (tree : FileTree) (path : Path) (text : String) :
    (∃ location after, tree.replaceFile host path text.toUTF8 = (.ok (), after) ∧
        tree.Names path location ∧ DiffersAt tree location text.toUTF8 after ∧
        ((∀ target, tree.contentAt? location ≠ some (.link target)) →
          after.readText path = .ok text)) ∨
      ∃ error, tree.replaceFile host path text.toUTF8 = (.error error, tree) ∧
        Obstacle host tree path error := by
  rcases replaceFile_cases host tree path text.toUTF8 with
    ⟨directory, after, succeeded, isFor, placed⟩ | failed
  · obtain ⟨followable, isAt⟩ := of_directoryFor tree path isFor
    obtain ⟨name, isName, differs, noDirectory⟩ :=
      differsAt_of_placed (of_directoryAt tree path isAt).2 placed
    have names : tree.Names path (directory ++ [name]) :=
      ⟨directory, name, isAt, (Path.of_nameFor isName).1, rfl⟩
    exact Or.inl ⟨directory ++ [name], after, succeeded, names, differs,
      readText_of_placed followable isAt isName differs noDirectory⟩
  · exact Or.inr failed

end FileTree

end Codemod.Files
