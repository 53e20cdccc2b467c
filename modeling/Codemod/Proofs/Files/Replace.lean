import Codemod.Files.Replace

/-!
What replacing a file does to the files.

The new file comes and goes in one directory, and while it is there everything else is as it was.
Hence a step that fails leaves the tree behind that there was, and if none does, the tree differs in
one place, which holds the content.
-/

set_option autoImplicit false

namespace Codemod.Files

/-! ### Entries of a directory -/

namespace Entry

section

variable {name other : FileName} {new : Entry} {entries : List (FileName × Entry)}

theorem child?_cons (first : FileName × Entry) :
    child? other (first :: entries) =
      if first.1 = other then some first.2 else child? other entries := by
  unfold child?
  rw [List.find?_cons]
  by_cases same : first.1 = other
  · rw [if_pos same, same, beq_self_eq_true]
    rfl
  · rw [if_neg same, beq_false_of_ne same]

theorem child?_eq_none (absent : name ∉ entries.map Prod.fst) : child? name entries = none := by
  induction entries with
  | nil => rfl
  | cons first rest ih =>
      rw [List.map_cons, List.mem_cons, not_or] at absent
      rw [child?_cons, if_neg (Ne.symm absent.1), ih absent.2]

theorem child?_setChild_self : child? name (setChild name new entries) = some new := by
  induction entries with
  | nil => rw [setChild, child?_cons, if_pos rfl]
  | cons first rest ih =>
      rw [setChild]
      split
      · rw [child?_cons, if_pos rfl]
      · rename_i differ
        rw [child?_cons, if_neg differ, ih]

theorem child?_setChild_other (differ : other ≠ name) :
    child? other (setChild name new entries) = child? other entries := by
  induction entries with
  | nil => rw [setChild, child?_cons, if_neg (Ne.symm differ)]
  | cons first rest ih =>
      rw [setChild]
      split
      · rename_i same
        rw [child?_cons, child?_cons, same]
        simp only [if_neg (Ne.symm differ)]
      · rw [child?_cons, child?_cons, ih]

/-- A new entry that is dropped again leaves nothing behind. -/
theorem dropChild_setChild (absent : name ∉ entries.map Prod.fst) :
    dropChild name (setChild name new entries) = entries := by
  unfold dropChild
  induction entries with
  | nil => exact List.eraseP_cons_of_pos (beq_self_eq_true name)
  | cons first rest ih =>
      rw [List.map_cons, List.mem_cons, not_or] at absent
      rw [setChild, if_neg (Ne.symm absent.1),
        List.eraseP_cons_of_neg (Bool.not_eq_true _ ▸ beq_false_of_ne (Ne.symm absent.1)),
        ih absent.2]

theorem setChild_setChild (first second : Entry) :
    setChild name second (setChild name first entries) = setChild name second entries := by
  induction entries with
  | nil => exact if_pos rfl
  | cons head rest ih =>
      rw [setChild]
      split
      · rename_i same
        rw [setChild, if_pos rfl, setChild, if_pos same]
      · rename_i differ
        rw [setChild, if_neg differ, ih, setChild, if_neg differ]

/-- A new entry that is given another name is as if it had been put under that name. -/
theorem renameChild_setChild (absent : name ∉ entries.map Prod.fst) (final : FileName) :
    renameChild name final (setChild name new entries) = setChild final new entries := by
  rw [renameChild, child?_setChild_self]
  exact congrArg _ (dropChild_setChild absent)

theorem child?_changeChild (change : Entry → Entry) :
    child? other (changeChild name change entries) =
      if other = name then (child? name entries).map change else child? other entries := by
  induction entries with
  | nil => simp [changeChild, child?]
  | cons first rest ih =>
      rw [changeChild]
      split
      · rename_i same
        rw [child?_cons, child?_cons, child?_cons, same]
        split
        · rename_i isName
          rw [if_pos isName.symm, if_pos rfl]
          rfl
        · rename_i differ
          rw [if_neg (Ne.symm differ)]
      · rename_i differ
        rw [child?_cons, ih, child?_cons, child?_cons, if_neg differ]
        split
        · rename_i isOther
          rw [if_neg fun isName => differ (isOther.trans isName)]
        · rfl

theorem changeChild_congr {change change' : Entry → Entry}
    (same : ∀ entry, child? name entries = some entry → change entry = change' entry) :
    changeChild name change entries = changeChild name change' entries := by
  induction entries with
  | nil => rfl
  | cons first rest ih =>
      rw [changeChild, changeChild]
      split
      · rename_i isName
        rw [same first.2 (by rw [child?_cons, if_pos isName])]
      · rename_i differ
        rw [ih fun entry isChild => same entry (by rw [child?_cons, if_neg differ, isChild])]

theorem changeChild_id : changeChild name id entries = entries := by
  induction entries with
  | nil => rfl
  | cons first rest ih =>
      rw [changeChild]
      split
      · rfl
      · rw [ih]

theorem changeChild_comp (change change' : Entry → Entry) :
    changeChild name change' (changeChild name change entries) =
      changeChild name (change' ∘ change) entries := by
  induction entries with
  | nil => rfl
  | cons first rest ih =>
      rw [changeChild]
      split
      · rename_i same
        rw [changeChild, if_pos same, changeChild, if_pos same]
        rfl
      · rename_i differ
        rw [changeChild, if_neg differ, changeChild, if_neg differ, ih]

end

/-! ### A change in one directory -/

section

variable {change change' : List (FileName × Entry) → List (FileName × Entry)}
  {entries : List (FileName × Entry)}

theorem changeDirectory_comp (location : Location) (entry : Entry) :
    (entry.changeDirectory change location).changeDirectory change' location =
      entry.changeDirectory (change' ∘ change) location := by
  induction location generalizing entry with
  | nil => cases entry <;> rfl
  | cons name rest ih =>
      cases entry with
      | file content => rfl
      | link target => rfl
      | directory entries =>
          change directory (changeChild _ _ (changeChild _ _ _)) = directory (changeChild _ _ _)
          rw [changeChild_comp]
          exact congrArg directory (changeChild_congr fun child _ => ih child)

theorem changeDirectory_congr {location : Location} {entry : Entry}
    (isDirectory : entry.get? location = some (directory entries))
    (same : change entries = change' entries) :
    entry.changeDirectory change location = entry.changeDirectory change' location := by
  induction location generalizing entry with
  | nil =>
      obtain rfl := Option.some.inj isDirectory
      exact congrArg directory same
  | cons name rest ih =>
      cases entry with
      | file content => exact nomatch isDirectory
      | link target => exact nomatch isDirectory
      | directory found =>
          refine congrArg directory (changeChild_congr fun child isChild => ih ?_)
          rw [get?, isChild] at isDirectory
          exact isDirectory

theorem changeDirectory_id (location : Location) (entry : Entry) :
    entry.changeDirectory id location = entry := by
  induction location generalizing entry with
  | nil => cases entry <;> rfl
  | cons name rest ih =>
      cases entry with
      | file content => rfl
      | link target => rfl
      | directory entries =>
          have sameChange : changeChild name (changeDirectory id rest) entries =
              changeChild name id entries := changeChild_congr fun child _ => ih child
          exact congrArg directory (sameChange.trans changeChild_id)

theorem get?_append (front back : Location) (entry : Entry) :
    entry.get? (front ++ back) = (entry.get? front).bind fun found => found.get? back := by
  induction front generalizing entry with
  | nil => rfl
  | cons name rest ih =>
      cases entry with
      | file content => rfl
      | link target => rfl
      | directory entries =>
          rw [List.cons_append, get?, get?, Option.bind_assoc]
          exact congrArg _ (funext ih)

theorem get?_changeDirectory {location : Location} {entry : Entry}
    (isDirectory : entry.get? location = some (directory entries)) :
    (entry.changeDirectory change location).get? location = some (directory (change entries)) := by
  induction location generalizing entry with
  | nil =>
      obtain rfl := Option.some.inj isDirectory
      rfl
  | cons name rest ih =>
      cases entry with
      | file content => exact nomatch isDirectory
      | link target => exact nomatch isDirectory
      | directory found =>
          rw [get?] at isDirectory
          obtain ⟨child, isChild, atRest⟩ := Option.bind_eq_some_iff.mp isDirectory
          rw [changeDirectory, get?, child?_changeChild, if_pos rfl, isChild]
          exact ih atRest

end

end Entry

/-! ### What a location shows -/

/-- What a location shows. Of a directory it is only that there is one. -/
inductive Content where
  | file (bytes : ByteArray)
  | link (target : Path)
  | directory

def Entry.content : Entry → Content
  | file bytes => .file bytes
  | link target => .link target
  | directory _ => .directory

/-- A change of one entry of a directory does not show anywhere but at and below that entry. -/
theorem Entry.content_changeDirectory {name : FileName}
    {change : List (FileName × Entry) → List (FileName × Entry)}
    (keeps : ∀ entries other, other ≠ name → child? other (change entries) = child? other entries)
    {location other : Location} (apart : ¬ location ++ [name] <+: other) (entry : Entry) :
    ((entry.changeDirectory change location).get? other).map content =
      (entry.get? other).map content := by
  induction location generalizing entry other with
  | nil =>
      cases entry with
      | file bytes => rfl
      | link target => rfl
      | directory entries =>
          cases other with
          | nil => rfl
          | cons first rest =>
              have differ : first ≠ name := by
                rintro rfl
                exact apart ⟨rest, rfl⟩
              rw [changeDirectory, get?, get?, keeps entries first differ]
  | cons step location ih =>
      cases entry with
      | file bytes => rfl
      | link target => rfl
      | directory entries =>
          cases other with
          | nil => rfl
          | cons first rest =>
              rw [changeDirectory, get?, get?, child?_changeChild]
              split
              · rename_i same
                subst same
                have apartBelow : ¬ location ++ [name] <+: rest := by
                  rintro ⟨more, rfl⟩
                  exact apart ⟨more, rfl⟩
                cases child? first entries with
                | none => rfl
                | some child => exact ih apartBelow child
              · rfl

namespace FileTree

def contentAt? (tree : FileTree) (location : Location) : Option Content :=
  (tree.get? location).map Entry.content

section

variable {tree : FileTree} {location : Location} {entries : List (FileName × Entry)}
  {change change' : List (FileName × Entry) → List (FileName × Entry)}

theorem eq_of_root_eq {other : FileTree} (same : tree.root = other.root)
    (sameHome : tree.home = other.home) : tree = other := by
  cases tree
  cases other
  rw [FileTree.mk.injEq]
  exact ⟨Entry.directory.inj same, sameHome⟩

theorem root_changeDirectory :
    (tree.changeDirectory location change).root = tree.root.changeDirectory change location := by
  cases location <;> rfl

@[simp]
theorem home_changeDirectory : (tree.changeDirectory location change).home = tree.home := by
  cases location <;> rfl

theorem changeDirectory_comp :
    (tree.changeDirectory location change).changeDirectory location change' =
      tree.changeDirectory location (change' ∘ change) := by
  refine eq_of_root_eq ?_ (by simp)
  rw [root_changeDirectory, root_changeDirectory, root_changeDirectory]
  exact Entry.changeDirectory_comp location tree.root

theorem changeDirectory_congr (isDirectory : tree.get? location = some (.directory entries))
    (same : change entries = change' entries) :
    tree.changeDirectory location change = tree.changeDirectory location change' := by
  refine eq_of_root_eq ?_ (by simp)
  rw [root_changeDirectory, root_changeDirectory]
  exact Entry.changeDirectory_congr isDirectory same

theorem changeDirectory_eq_self (isDirectory : tree.get? location = some (.directory entries))
    (same : change entries = entries) : tree.changeDirectory location change = tree := by
  refine eq_of_root_eq ?_ (by simp)
  have sameChange : tree.root.changeDirectory change location =
      tree.root.changeDirectory id location := Entry.changeDirectory_congr isDirectory same
  rw [root_changeDirectory, sameChange, Entry.changeDirectory_id]

theorem get?_changeDirectory (isDirectory : tree.get? location = some (.directory entries)) :
    (tree.changeDirectory location change).get? location = some (.directory (change entries)) := by
  rw [get?, root_changeDirectory]
  exact Entry.get?_changeDirectory isDirectory

theorem get?_concat (isDirectory : tree.get? location = some (.directory entries))
    (name : FileName) : tree.get? (location ++ [name]) = Entry.child? name entries := by
  rw [get?] at isDirectory ⊢
  rw [Entry.get?_append, isDirectory]
  change (Entry.child? name entries).bind some = _
  cases Entry.child? name entries <;> rfl

theorem isDirectoryAt_iff :
    tree.isDirectoryAt location = true ↔ ∃ entries, tree.get? location = some (.directory entries) := by
  unfold isDirectoryAt
  cases tree.get? location with
  | none => exact iff_of_false nofun nofun
  | some entry =>
      cases entry with
      | file bytes => exact iff_of_false nofun nofun
      | link target => exact iff_of_false nofun nofun
      | directory entries => exact iff_of_true rfl ⟨entries, rfl⟩

end

/-! ### The new file -/

/-- The tree with a new file in it. -/
def holding (tree : FileTree) (draft : Draft) (bytes : ByteArray) : FileTree :=
  tree.changeDirectory draft.directory (Entry.setChild draft.name (.file bytes))

section

variable {tree : FileTree} {draft : Draft}

theorem holding_holding (bytes more : ByteArray) :
    (tree.holding draft bytes).holding draft more = tree.holding draft more := by
  unfold holding
  rw [changeDirectory_comp]
  exact congrArg _ (funext fun _ => Entry.setChild_setChild _ _)

variable {entries : List (FileName × Entry)}
  (isDirectory : tree.get? draft.directory = some (.directory entries))
  (isNew : draft.name ∉ entries.map Prod.fst)
include isDirectory isNew

theorem isDirectoryAt_holding (bytes : ByteArray) (name : FileName) :
    (tree.holding draft bytes).isDirectoryAt (draft.directory ++ [name]) =
      tree.isDirectoryAt (draft.directory ++ [name]) := by
  have isDirectory' : (tree.holding draft bytes).get? draft.directory =
      some (.directory (Entry.setChild draft.name (.file bytes) entries)) :=
    get?_changeDirectory isDirectory
  rw [isDirectoryAt, isDirectoryAt, get?_concat isDirectory, get?_concat isDirectory']
  by_cases same : name = draft.name
  · rw [same, Entry.child?_setChild_self, Entry.child?_eq_none isNew]
    rfl
  · rw [Entry.child?_setChild_other same]

theorem discard_holding (bytes : ByteArray) :
    (tree.holding draft bytes).discard draft = tree := by
  unfold holding discard
  rw [changeDirectory_comp]
  exact changeDirectory_eq_self isDirectory (Entry.dropChild_setChild isNew)

theorem rename_holding (bytes : ByteArray) (name : FileName) :
    (tree.holding draft bytes).changeDirectory draft.directory (Entry.renameChild draft.name name) =
      tree.changeDirectory draft.directory (Entry.setChild name (.file bytes)) := by
  unfold holding
  rw [changeDirectory_comp]
  exact changeDirectory_congr isDirectory (Entry.renameChild_setChild isNew name)

end

/-! ### What the steps do -/

/-- The tree with a file in a place of a directory that no directory has. -/
def Placed (tree : FileTree) (directory : Location) (path : Path) (content : ByteArray)
    (after : FileTree) : Prop :=
  ∃ name, path.nameFor = .ok name ∧ tree.isDirectoryAt (directory ++ [name]) = false ∧
    after = tree.changeDirectory directory (Entry.setChild name (.file content))

/-- Why a file cannot be put at a path: there is no directory for it, no name, a directory in its
place, or the system refuses a step. -/
inductive Obstacle (host : Host) (tree : FileTree) (path : Path) : FileError → Prop where
  | nowhere {error : FileError} (missing : tree.directoryFor path = .error error) :
      Obstacle host tree path error
  | unnamed {error : FileError} (missing : path.nameFor = .error error) :
      Obstacle host tree path error
  | taken {directory : Location} {name : FileName} (isFor : tree.directoryFor path = .ok directory)
      (isName : path.nameFor = .ok name)
      (isDirectory : tree.isDirectoryAt (directory ++ [name]) = true) :
      Obstacle host tree path .isADirectory
  | refused {error : FileError} (step : ReplaceStep) (refuses : host.refuses step = some error) :
      Obstacle host tree path error

/-- A step that leads from a tree to others. Where it fails, there is an obstacle, and the new file is
all that is left behind. -/
def Leads (host : Host) (tree : FileTree) (path : Path) (draft : Draft) (current : FileTree)
    (step : FileTree → Except FileError Unit × FileTree) (behind : FileTree → Prop) : Prop :=
  (∃ after, step current = (.ok (), after) ∧ behind after) ∨
    ∃ error bytes, step current = (.error error, tree.holding draft bytes) ∧
      Obstacle host tree path error

section

variable {tree : FileTree} {draft : Draft} (host : Host) (path : Path)

theorem fill_leads (content bytes : ByteArray) :
    Leads host tree path draft (tree.holding draft bytes) (fill host draft content)
      (· = tree.holding draft content) := by
  unfold Leads fill
  cases refuses : host.refuses .fill with
  | some error =>
      exact Or.inr ⟨error, host.partOf content, congrArg (Prod.mk _) (holding_holding _ _),
        .refused .fill refuses⟩
  | none => exact Or.inl ⟨_, rfl, holding_holding _ _⟩

theorem sync_leads (content : ByteArray) :
    Leads host tree path draft (tree.holding draft content) (sync host)
      (· = tree.holding draft content) := by
  unfold Leads sync
  cases refuses : host.refuses .sync with
  | some error => exact Or.inr ⟨error, content, rfl, .refused .sync refuses⟩
  | none => exact Or.inl ⟨_, rfl, rfl⟩

variable {entries : List (FileName × Entry)}
  (isDirectory : tree.get? draft.directory = some (.directory entries))
  (isNew : draft.name ∉ entries.map Prod.fst)
include isDirectory isNew

theorem move_leads (isFor : tree.directoryFor path = .ok draft.directory) (content : ByteArray) :
    Leads host tree path draft (tree.holding draft content) (move host draft path)
      (tree.Placed draft.directory path content) := by
  unfold Leads move
  cases isName : path.nameFor with
  | error error => exact Or.inr ⟨error, content, rfl, .unnamed isName⟩
  | ok name =>
      cases refuses : host.refuses .move with
      | some error => exact Or.inr ⟨error, content, rfl, .refused .move refuses⟩
      | none =>
          simp only [isDirectoryAt_holding isDirectory isNew]
          cases inTheWay : tree.isDirectoryAt (draft.directory ++ [name]) with
          | true => exact Or.inr ⟨.isADirectory, content, rfl, .taken isFor isName inTheWay⟩
          | false =>
              exact Or.inl ⟨_, rfl, name, isName, inTheWay, rename_holding isDirectory isNew content name⟩

/-- Steps that lead on from one another are all taken, or they leave the tree as it was. -/
theorem finish_cons {current : FileTree} {step : FileTree → Except FileError Unit × FileTree}
    {steps : List (FileTree → Except FileError Unit × FileTree)} {behind goal : FileTree → Prop}
    (first : Leads host tree path draft current step behind)
    (rest : ∀ after, behind after → (∃ last, finish draft steps after = (.ok (), last) ∧ goal last) ∨
      ∃ error, finish draft steps after = (.error error, tree) ∧ Obstacle host tree path error) :
    (∃ last, finish draft (step :: steps) current = (.ok (), last) ∧ goal last) ∨
      ∃ error, finish draft (step :: steps) current = (.error error, tree) ∧
        Obstacle host tree path error := by
  rw [finish]
  rcases first with ⟨after, succeeded, isBehind⟩ | ⟨error, bytes, failed, obstacle⟩
  · rw [succeeded]
    exact rest after isBehind
  · rw [failed]
    exact Or.inr ⟨error, congrArg (Prod.mk _) (discard_holding isDirectory isNew bytes), obstacle⟩

theorem finish_replacing (isFor : tree.directoryFor path = .ok draft.directory)
    (content bytes : ByteArray) :
    let steps := [fill host draft content, sync host, move host draft path]
    (∃ last, finish draft steps (tree.holding draft bytes) = (.ok (), last) ∧
        tree.Placed draft.directory path content last) ∨
      ∃ error, finish draft steps (tree.holding draft bytes) = (.error error, tree) ∧
        Obstacle host tree path error := by
  refine finish_cons host path isDirectory isNew (fill_leads host path content bytes) ?_
  rintro _ rfl
  refine finish_cons host path isDirectory isNew (sync_leads host path content) ?_
  rintro _ rfl
  refine finish_cons host path isDirectory isNew
    (move_leads host path isDirectory isNew isFor content) ?_
  intro last placed
  exact Or.inl ⟨last, rfl, placed⟩

end

end FileTree

/-- What the system asks of a path before it follows it. -/
structure Path.Followable (path : Path) : Prop where
  noZero : path.bytes.contains 0 = false
  short : path.bytes.length < pathLengthLimit

namespace FileTree

section

variable (host : Host) (tree : FileTree) (path : Path)

/-- A path that can be followed, and the directory that its pieces but the last lead to. -/
theorem of_directoryFor {directory : Location} (found : tree.directoryFor path = .ok directory) :
    path.Followable ∧ tree.directoryAt path path.trimmedPieces.dropLast = .ok directory := by
  unfold directoryFor at found
  split at found
  · exact nomatch found
  · split at found
    · exact nomatch found
    · rename_i noZero
      split at found
      · exact nomatch found
      · rename_i short
        split at found
        · exact nomatch found
        · exact ⟨⟨Bool.not_eq_true _ ▸ noZero, Nat.not_le.mp short⟩, found⟩

theorem of_directoryAt {pieces : List FileName} {directory : Location}
    (found : tree.directoryAt path pieces = .ok directory) :
    tree.resolveFrom true maxLinks (path.startIn tree.home) (pieces.map Path.stepOf) =
        .ok directory ∧
      tree.isDirectoryAt directory = true := by
  unfold directoryAt at found
  cases resolved :
      tree.resolveFrom true maxLinks (path.startIn tree.home) (pieces.map Path.stepOf) with
  | error error =>
      rw [resolved] at found
      exact nomatch found
  | ok location =>
      rw [resolved] at found
      simp only [bind, Except.bind] at found
      split at found
      · rename_i isDirectory
        obtain rfl := Except.ok.inj found
        exact ⟨rfl, isDirectory⟩
      · exact nomatch found

theorem replaceFile_cases (content : ByteArray) :
    (∃ directory after, tree.replaceFile host path content = (.ok (), after) ∧
        tree.directoryFor path = .ok directory ∧ tree.Placed directory path content after) ∨
      ∃ error, tree.replaceFile host path content = (.error error, tree) ∧
        Obstacle host tree path error := by
  unfold replaceFile create
  cases found : tree.directoryFor path with
  | error error => exact Or.inr ⟨error, rfl, .nowhere found⟩
  | ok directory =>
      cases refuses : host.refuses .create with
      | some error => exact Or.inr ⟨error, rfl, .refused .create refuses⟩
      | none =>
          obtain ⟨_, isAt⟩ := of_directoryFor tree path found
          obtain ⟨entries, isDirectory⟩ := isDirectoryAt_iff.mp (of_directoryAt tree path isAt).2
          have isNew : host.freshName (tree.namesIn directory) ∉ entries.map Prod.fst := by
            have names : tree.namesIn directory = entries.map Prod.fst := by
              unfold namesIn
              rw [isDirectory]
            rw [names]
            exact host.freshName_not_mem _
          let draft : Draft := ⟨directory, host.freshName (tree.namesIn directory)⟩
          have onDraft : tree.get? draft.directory = some (.directory entries) := isDirectory
          rcases finish_replacing host path onDraft isNew found content .empty with
            ⟨after, succeeded, placed⟩ | ⟨error, failed, obstacle⟩
          · exact Or.inl ⟨directory, after, succeeded, rfl, placed⟩
          · exact Or.inr ⟨error, failed, obstacle⟩

end

end FileTree

end Codemod.Files
