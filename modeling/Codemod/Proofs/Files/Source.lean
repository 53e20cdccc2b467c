import Mathlib.Data.List.Induction
import Codemod.Proofs.Files.Walk
import Codemod.Run.Basic

/-!
Source files under the default pattern.

Whether an entry is a source file is seen from the bytes at the end of its name. A pattern, however,
is held against characters, so a name has to be text as a whole to match one. A name that is text and
ends in the bytes of the extension ends in its characters too, and the default pattern matches it.

Main statement: a search with the default pattern misses exactly those source files whose names are no
text.
-/

set_option autoImplicit false

namespace Codemod.Text

/-! ### The end of a text -/

theorem bytesOf_eq (text : String) : bytesOf text = text.toList.flatMap String.utf8EncodeChar := by
  have encoded : text.toByteArray = text.toList.utf8Encode := by
    rw [← String.toByteArray_ofList, String.ofList_toList]
  change text.toByteArray.data.toList = _
  rw [encoded, List.utf8Encode, List.toList_data_toByteArray]

theorem bytesOf_of_textOf? {bytes : List UInt8} {text : String}
    (isText : textOf? bytes = some text) : bytesOf text = bytes := by
  unfold textOf? String.fromUTF8? at isText
  split at isText
  · obtain rfl := Option.some.inj isText
    rfl
  · exact nomatch isText

theorem utf8EncodeChar_of_ascii {c : Char} (ascii : c.toNat < 128) :
    String.utf8EncodeChar c = [UInt8.ofNat c.toNat] :=
  if_pos (Nat.le_of_lt_succ ascii)

/-- Only a character below 128 has such a byte at its end, and it has no other byte. -/
theorem toNat_of_last {c : Char} {byte : UInt8} (ascii : byte.toNat < 128)
    (isLast : (String.utf8EncodeChar c).getLast? = some byte) : c.toNat = byte.toNat := by
  have notLast (bits : Nat) : UInt8.ofNat (bits % 64 + 128) ≠ byte := by
    rintro rfl
    rw [UInt8.toNat_ofNat'] at ascii
    omega
  unfold String.utf8EncodeChar at isLast
  dsimp only at isLast
  split at isLast
  · rename_i small
    have isByte : UInt8.ofNat c.val.toNat = byte := Option.some.inj isLast
    rw [← isByte, UInt8.toNat_ofNat', Nat.mod_eq_of_lt (Nat.lt_of_le_of_lt small (by decide))]
    rfl
  · split at isLast
    · exact absurd (Option.some.inj isLast) (notLast _)
    · split at isLast <;> exact absurd (Option.some.inj isLast) (notLast _)

/-- Bytes that end in those of characters below 128 are those of a text that ends in them. -/
theorem suffix_of_bytes {text tail : List Char} {stem : List UInt8}
    (ascii : ∀ c, c ∈ tail → c.toNat < 128)
    (ends : text.flatMap String.utf8EncodeChar = stem ++ tail.flatMap String.utf8EncodeChar) :
    tail <:+ text := by
  induction tail using List.reverseRecOn generalizing text with
  | nil => exact List.nil_suffix
  | append_singleton front c ih =>
      have small : c.toNat < 128 := ascii c (List.mem_append_right _ (List.mem_singleton_self c))
      rw [List.flatMap_append, List.flatMap_singleton, utf8EncodeChar_of_ascii small,
        ← List.append_assoc] at ends
      rcases List.eq_nil_or_concat text with rfl | ⟨before, last, rfl⟩
      · exact absurd ends.symm (List.append_ne_nil_of_right_ne_nil _ (List.cons_ne_nil _ _))
      · rw [List.concat_eq_append, List.flatMap_append, List.flatMap_singleton] at ends
        have isByte : (UInt8.ofNat c.toNat).toNat = c.toNat := by
          rw [UInt8.toNat_ofNat', Nat.mod_eq_of_lt (Nat.lt_trans small (by decide))]
        have isLast : (String.utf8EncodeChar last).getLast? = some (UInt8.ofNat c.toNat) := by
          have atEnd := congrArg List.getLast? ends
          have some := List.getLast?_eq_some_getLast (String.utf8EncodeChar_ne_nil (c := last))
          rw [List.getLast?_append, List.getLast?_concat, some] at atEnd
          exact some.trans atEnd
        obtain rfl : last = c :=
          Char.toNat_inj.mp ((toNat_of_last (by rwa [isByte]) isLast).trans isByte)
        rw [utf8EncodeChar_of_ascii small] at ends
        obtain ⟨rest, rfl⟩ := ih (fun c isIn => ascii c (List.mem_append_left _ isIn))
          (List.append_cancel_right ends)
        exact ⟨rest, by rw [List.concat_eq_append, List.append_assoc]⟩

end Codemod.Text

namespace Codemod.Glob

/-! ### The default pattern -/

theorem mem_ends_iff {left text : List Char} : left ∈ ends text ↔ left <:+ text := by
  induction text with
  | nil => rw [ends, List.mem_singleton, List.suffix_nil]
  | cons c rest ih => rw [ends, List.mem_cons, List.suffix_cons_iff, ih]

theorem matchesChars_literals (letters text : List Char) :
    matchesChars (letters.map .literal) text = true ↔ text = letters := by
  induction letters generalizing text with
  | nil => rw [List.map_nil, matchesChars, List.isEmpty_iff]
  | cons letter letters ih =>
      cases text with
      | nil => exact iff_of_false nofun nofun
      | cons c text =>
          have step : matchesChars ((letter :: letters).map .literal) (c :: text) =
              (letter == c && matchesChars (letters.map .literal) text) := rfl
          rw [step, Bool.and_eq_true, beq_iff_eq, ih, List.cons.injEq, eq_comm (a := letter)]

/-- A star in front of letters stands for whatever precedes them at the end. -/
theorem matches_star_literals (letters : List Char) (text : String) :
    Pattern.matches (.anyRun :: letters.map .literal) text = true ↔ letters <:+ text.toList := by
  rw [Pattern.matches, matchesChars, List.any_eq_true]
  constructor
  · rintro ⟨left, isEnd, fits⟩
    rw [← (matchesChars_literals letters left).mp fits]
    exact mem_ends_iff.mp isEnd
  · intro isSuffix
    exact ⟨letters, mem_ends_iff.mpr isSuffix, (matchesChars_literals letters letters).mpr rfl⟩

theorem ofText_defaultPattern :
    Pattern.ofText defaultPattern = .ok (.anyRun :: ['.', 'r', 's'].map .literal) := by
  rfl

end Codemod.Glob

namespace Codemod.Files

open Codemod.Glob (Pattern)
open Entry

/-! ### Sources below a root -/

section

variable {tree : FileTree} {root : Path}

theorem contains_of_leadsToDirectory (isDirectory : tree.leadsToDirectory root = true) :
    tree.contains root = true := by
  unfold FileTree.leadsToDirectory at isDirectory
  unfold FileTree.contains
  cases found : tree.entryAt root true with
  | ok entry => rfl
  | error error =>
      rw [found] at isDirectory
      exact nomatch isDirectory

theorem fileName?_ofPlace {location : Location} {entry : Entry} (nonempty : location ≠ [])
    (named : ∀ name, name ∈ location → isName name = true) (other : FileName) :
    (Visited.ofPlace root other (location, entry)).path.fileName? =
      some (Visited.ofPlace root other (location, entry)).name := by
  rcases List.eq_nil_or_concat location with rfl | ⟨front, last, rfl⟩
  · exact absurd rfl nonempty
  · rw [List.concat_eq_append] at named ⊢
    have isLast : isName last = true :=
      named last (List.mem_append_right _ (List.mem_singleton_self last))
    simp only [Visited.ofPlace, Path.below, List.foldl_append, List.foldl_cons, List.foldl_nil,
      List.getLast?_concat, Option.getD_some]
    exact Path.fileName?_join isLast _

theorem isSource_sorted (name : FileName) (location : Location) (entry : Entry) :
    (Visited.ofPlace root name (location, entry.sorted)).isSource =
      (Visited.ofPlace root name (location, entry)).isSource := by
  cases entry <;> rfl

theorem matches_of_isSource {visited : Visited} {text : String}
    (isSource : visited.isSource = true) (isLast : visited.path.fileName? = some visited.name)
    (isText : Text.textOf? visited.name = some text) :
    Pattern.matches (.anyRun :: ['.', 'r', 's'].map .literal) text = true := by
  obtain ⟨_, stem, _, isName⟩ := isSource_iff.mp isSource
  have whole : visited.name = stem ++ dot :: sourceExtension :=
    Option.some.inj (isLast.symm.trans isName)
  have tail : dot :: sourceExtension = ['.', 'r', 's'].flatMap String.utf8EncodeChar := by
    decide +kernel
  have ends : text.toList.flatMap String.utf8EncodeChar =
      stem ++ ['.', 'r', 's'].flatMap String.utf8EncodeChar := by
    rw [← Text.bytesOf_eq, Text.bytesOf_of_textOf? isText, whole, tail]
  have ascii : ∀ c, c ∈ ['.', 'r', 's'] → c.toNat < 128 := by simp
  exact (Glob.matches_star_literals _ text).mpr (Text.suffix_of_bytes ascii ends)

/-- Below a root directory, a search with the default pattern finds the source files whose names are
text, and misses those whose names are not. -/
theorem sources_missed_exactly (tree : FileTree) (root : Path)
    (proper : tree.root.isProper = true) (isDirectory : tree.leadsToDirectory root = true) :
    ∃ paths, discover tree root defaultPattern = .ok paths ∧
      ∀ location entry, location ≠ [] → tree.Holds root location entry →
        let visited := Visited.ofPlace root (rootName root) (location, entry)
        visited.isSource = true →
          (visited.path ∈ paths ↔ (Text.textOf? visited.name).isSome = true) := by
  have isThere := contains_of_leadsToDirectory isDirectory
  have found := walk_eq_ok Glob.ofText_defaultPattern isThere
  refine ⟨_, by rw [discover_eq, found]; rfl, ?_⟩
  intro location entry nonempty holds visited isSource
  have named := FileTree.named_of_holds proper holds
  rw [List.mem_map]
  constructor
  · rintro ⟨other, isIn, samePath⟩
    obtain ⟨isWalked, fits⟩ := List.mem_filter.mp (List.mem_filter.mp isIn).1
    obtain ⟨otherLocation, otherEntry, otherHolds, rfl⟩ :=
      (FileTree.mem_walkFrom_iff proper isThere).mp isWalked
    -- The same path means the same names, so it is the name of `visited` that is text.
    have samePieces := congrArg Path.activePieces samePath
    rw [Visited.ofPlace, Path.activePieces_below (FileTree.named_of_holds proper otherHolds),
      show visited.path = root.below location from rfl, Path.activePieces_below named] at samePieces
    obtain rfl : otherLocation = location := List.append_cancel_left samePieces
    obtain ⟨text, isText, _⟩ := matches_iff.mp fits
    exact Option.isSome_iff_exists.mpr ⟨text, isText⟩
  · intro hasText
    obtain ⟨text, isText⟩ := Option.isSome_iff_exists.mp hasText
    have fits := matches_of_isSource isSource (fileName?_ofPlace nonempty named _) isText
    refine ⟨Visited.ofPlace root (rootName root) (location, entry.sorted), ?_, rfl⟩
    rw [List.mem_filter, List.mem_filter, FileTree.mem_walkFrom_iff proper isThere, matches_iff,
      isSource_sorted]
    exact ⟨⟨⟨location, entry, holds, rfl⟩, text, isText, fits⟩, isSource⟩

/-- Two source files in a directory, one of them with a name that is no text. -/
theorem sources_missed_exactly_in_directory :
    ∃ (tree : FileTree) (root : Path) (paths : List Path) (content : ByteArray),
      tree.root.isProper = true ∧ tree.leadsToDirectory root = true ∧
      discover tree root defaultPattern = .ok paths ∧
      (tree.Holds root [Text.bytesOf "d", Text.bytesOf "a.rs"] (.file content) ∧
        root.below [Text.bytesOf "d", Text.bytesOf "a.rs"] ∈ paths) ∧
      tree.Holds root [Text.bytesOf "d", 0xff :: Text.bytesOf ".rs"] (.file content) ∧
        root.below [Text.bytesOf "d", 0xff :: Text.bytesOf ".rs"] ∉ paths := by
  let root : Path := .ofText "."
  let entries := [(Text.bytesOf "d", Entry.directory
    [(0xff :: Text.bytesOf ".rs", .file .empty), (Text.bytesOf "a.rs", .file .empty)])]
  have proper : (FileTree.root ⟨entries, []⟩).isProper = true := by decide +kernel
  have isDirectory : FileTree.leadsToDirectory ⟨entries, []⟩ root = true := by decide +kernel
  have isTop : FileTree.entryAt ⟨entries, []⟩ root true = .ok (.directory entries) := by rfl
  have first : FileTree.Holds ⟨entries, []⟩ root [Text.bytesOf "d", Text.bytesOf "a.rs"]
      (.file .empty) := .below isTop (List.cons_ne_nil _ _) rfl
  have second : FileTree.Holds ⟨entries, []⟩ root [Text.bytesOf "d", 0xff :: Text.bytesOf ".rs"]
      (.file .empty) := .below isTop (List.cons_ne_nil _ _) rfl
  obtain ⟨paths, discovered, exactly⟩ :=
    sources_missed_exactly ⟨entries, []⟩ root proper isDirectory
  refine ⟨⟨entries, []⟩, root, paths, .empty, proper, isDirectory, discovered, ⟨first, ?_⟩, second, ?_⟩
  · exact (exactly _ _ (List.cons_ne_nil _ _) first (by decide +kernel)).mpr (by decide +kernel)
  · exact mt (exactly _ _ (List.cons_ne_nil _ _) second (by decide +kernel)).mp (by decide +kernel)

/-- A source file that a search with the default pattern does not find. -/
theorem source_without_text_missed :
    let name : FileName := 0xff :: Text.bytesOf ".rs"
    let tree : FileTree := ⟨[(name, .file .empty)], []⟩
    let root : Path := .ofText "."
    tree.root.isProper = true ∧ tree.leadsToDirectory root = true ∧
      tree.Holds root [name] (.file .empty) ∧
      (Visited.ofPlace root (rootName root) ([name], .file .empty)).isSource = true ∧
      discover tree root defaultPattern = .ok [] := by
  have missed : discover ⟨[(0xff :: Text.bytesOf ".rs", .file .empty)], []⟩ (.ofText ".")
      defaultPattern = .ok [] := by rfl
  intro name tree root
  have isTop : tree.entryAt root true = .ok (.directory [(name, .file .empty)]) := by rfl
  exact ⟨by decide +kernel, by decide +kernel, .below isTop (List.cons_ne_nil _ _) rfl,
    by decide +kernel, missed⟩

end

end Codemod.Files
