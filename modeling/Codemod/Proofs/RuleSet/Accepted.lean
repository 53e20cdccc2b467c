import Mathlib.Data.List.Forall2
import Codemod.RuleSet.Load

/-!
A rule set without issues builds, and builds what is written.

The issues of an entry are found by other means than its renaming is made. An entry without issues is
sound: its names are names and differ, and its kind is one, or there is none. A sound entry is made
into the renaming it asks for.
-/

set_option autoImplicit false

namespace Codemod

open Codemod.Files (FileTree Path)
open Codemod.Tree (DeclKind)

/-! ### Entries without issues -/

namespace RuleEntry

/-- An entry that makes sense by itself. -/
structure Sound (entry : RuleEntry) : Prop where
  labelled : isBlank entry.id = false
  oldIsName : Name.flaw? entry.old = none
  newIsName : Name.flaw? entry.new = none
  differ : entry.old ≠ entry.new
  noKindEverywhere : entry.type = .renameIdent → entry.kind = none
  kindKnown : entry.type = .renameDecl → ∀ text, entry.kind = some text →
    ∃ kind, DeclKind.ofName? text = some kind

variable {entry : RuleEntry} {earlier : List String}

theorem of_idIssues_eq_nil (none : entry.idIssues earlier = []) :
    isBlank entry.id = false ∧ entry.id ∉ earlier := by
  unfold idIssues at none
  split at none
  · exact nomatch none
  · rename_i notBlank
    split at none
    · exact nomatch none
    · rename_i isNew
      exact ⟨Bool.not_eq_true _ ▸ notBlank, mt List.contains_iff_mem.mpr isNew⟩

theorem of_nameIssues_eq_nil {field : EntryField} {text : String}
    (none : entry.nameIssues field text = []) : Name.flaw? text = .none := by
  unfold nameIssues Renaming.checkName at none
  split at none
  · exact nomatch none
  · cases flaw : Name.flaw? text with
    | none => rfl
    | some flaw' =>
        rw [flaw] at none
        exact nomatch none

theorem ne_empty_of_isName {text : String} (isName : Name.flaw? text = none) : text ≠ "" := by
  rintro rfl
  exact nomatch isName

theorem of_sameNameIssues_eq_nil (none : entry.sameNameIssues = []) (old : entry.old ≠ "") :
    entry.old ≠ entry.new := by
  unfold sameNameIssues at none
  split at none
  · exact nomatch none
  · rename_i notBoth
    exact fun same => notBoth ⟨old, same⟩

theorem of_kindIssues_eq_nil (none : entry.kindIssues = []) :
    (entry.type = .renameIdent → entry.kind = .none) ∧
      (entry.type = .renameDecl → ∀ text, entry.kind = some text →
        ∃ kind, DeclKind.ofName? text = some kind) := by
  unfold kindIssues at none
  split at none
  · exact nomatch none
  · rename_i kind isType isKind
    split at none
    · exact nomatch none
    · rename_i known
      constructor
      · intro other
        exact nomatch isType.symm.trans other
      · intro _ text isText
        obtain rfl := Option.some.inj (isKind.symm.trans isText)
        exact Option.ne_none_iff_exists'.mp (mt Option.isNone_iff_eq_none.mpr known)
  · rename_i isKind
    exact ⟨fun _ => isKind, fun _ text isText => nomatch isKind.symm.trans isText⟩

theorem sound_of_issues_eq_nil (none : entry.issues earlier = []) :
    entry.Sound ∧ entry.id ∉ earlier := by
  unfold issues at none
  simp only [List.append_eq_nil_iff] at none
  obtain ⟨⟨⟨⟨ofId, ofOld⟩, ofNew⟩, ofSame⟩, ofKind⟩ := none
  obtain ⟨labelled, isNew⟩ := of_idIssues_eq_nil ofId
  obtain ⟨noKind, known⟩ := of_kindIssues_eq_nil ofKind
  have oldIsName := of_nameIssues_eq_nil ofOld
  have differ := of_sameNameIssues_eq_nil ofSame (ne_empty_of_isName oldIsName)
  exact ⟨⟨labelled, oldIsName, of_nameIssues_eq_nil ofNew, differ, noKind, known⟩, isNew⟩

end RuleEntry

theorem sound_of_entryIssues_eq_nil {entries : List RuleEntry} {earlier : List String}
    (none : entryIssues earlier entries = []) :
    (∀ entry, entry ∈ entries → entry.Sound ∧ entry.id ∉ earlier) ∧
      (entries.map RuleEntry.id).Nodup := by
  induction entries generalizing earlier with
  | nil => exact ⟨fun _ isIn => absurd isIn List.not_mem_nil, List.nodup_nil⟩
  | cons first rest ih =>
      rw [entryIssues, List.append_eq_nil_iff] at none
      have ofFirst := RuleEntry.sound_of_issues_eq_nil none.1
      obtain ⟨ofRest, restDiffer⟩ := ih none.2
      constructor
      · intro entry isIn
        rcases List.mem_cons.mp isIn with rfl | isIn
        · exact ofFirst
        · obtain ⟨sound, isNew⟩ := ofRest entry isIn
          exact ⟨sound, fun isEarlier => isNew (List.mem_append_left _ isEarlier)⟩
      · rw [List.map_cons, List.nodup_cons]
        refine ⟨?_, restDiffer⟩
        intro isLater
        obtain ⟨entry, isIn, sameId⟩ := List.mem_map.mp isLater
        exact (ofRest entry isIn).2 (List.mem_append_right _ (List.mem_singleton.mpr sameId))

theorem sound_of_issues_eq_nil {rules : RuleSet} (none : rules.issues = []) :
    (∀ entry, entry ∈ rules.entries → entry.Sound) ∧
      (rules.entries.map RuleEntry.id).Nodup := by
  obtain ⟨sound, differ⟩ :=
    sound_of_entryIssues_eq_nil (List.append_eq_nil_iff.mp none).2
  exact ⟨fun entry isIn => (sound entry isIn).1, differ⟩

/-! ### What is built -/

/-- The renaming has the id for its name, the two names as they are written, and the reach that the
type and the kind say. -/
structure RuleEntry.Asks (entry : RuleEntry) (rule : Renaming) : Prop where
  name : rule.name = entry.id
  old : rule.old = entry.old
  new : rule.new = entry.new
  reach :
    (entry.type = .renameIdent ∧ entry.kind = none ∧ rule.reach = .everywhere) ∨
      (entry.type = .renameDecl ∧ entry.kind = none ∧ rule.reach = .declarations none) ∨
      ∃ text kind, entry.type = .renameDecl ∧ entry.kind = some text ∧
        DeclKind.ofName? text = some kind ∧ rule.reach = .declarations (some kind)

theorem make_of_names {old new : String} (oldIsName : Name.flaw? old = none)
    (newIsName : Name.flaw? new = none) (differ : old ≠ new) (reach : Reach) :
    Renaming.make old new reach = .ok ⟨Renaming.defaultName old new reach, old, new, reach⟩ := by
  unfold Renaming.make Renaming.checkName
  rw [oldIsName, newIsName, if_neg differ]
  rfl

namespace RuleEntry

variable {entry : RuleEntry}

theorem toRenaming_of_sound (sound : entry.Sound) :
    entry.toRenaming = .ok ⟨entry.id, entry.old, entry.new, entry.reach⟩ := by
  rw [toRenaming, make_of_names sound.oldIsName sound.newIsName sound.differ]
  rfl

theorem asks_of_sound (sound : entry.Sound) :
    entry.Asks ⟨entry.id, entry.old, entry.new, entry.reach⟩ := by
  refine ⟨rfl, rfl, rfl, ?_⟩
  unfold reach
  cases isType : entry.type with
  | renameIdent => exact Or.inl ⟨rfl, sound.noKindEverywhere isType, rfl⟩
  | renameDecl =>
      cases isKind : entry.kind with
      | none => exact Or.inr (Or.inl ⟨rfl, rfl, rfl⟩)
      | some text =>
          obtain ⟨kind, isKnown⟩ := sound.kindKnown isType text isKind
          exact Or.inr (Or.inr ⟨text, kind, rfl, rfl, isKnown, congrArg _ isKnown⟩)

end RuleEntry

theorem mapM_of_sound {entries : List RuleEntry} (sound : ∀ entry, entry ∈ entries → entry.Sound) :
    ∃ renamings, (entries.mapM fun entry => entry.toRenaming.map Rule.rename) =
        .ok (renamings.map Rule.rename) ∧
      List.Forall₂ RuleEntry.Asks entries renamings := by
  induction entries with
  | nil => exact ⟨[], rfl, .nil⟩
  | cons first rest ih =>
      obtain ⟨renamings, built, asked⟩ := ih fun entry isIn => sound entry (List.mem_cons_of_mem _ isIn)
      have firstSound := sound first List.mem_cons_self
      refine ⟨_ :: renamings, ?_, .cons (RuleEntry.asks_of_sound firstSound) asked⟩
      rw [List.mapM_cons, RuleEntry.toRenaming_of_sound firstSound, built]
      rfl

theorem names_of_asks {entries : List RuleEntry} {renamings : List Renaming}
    (asked : List.Forall₂ RuleEntry.Asks entries renamings) :
    Pipeline.names (renamings.map Rule.rename) = entries.map RuleEntry.id := by
  induction asked with
  | nil => rfl
  | cons first _ ih =>
      rw [List.map_cons, List.map_cons, ← ih, ← first.name]
      rfl

theorem pipeline_of_issues_eq_nil {rules : RuleSet} (none : rules.issues = []) :
    ∃ renamings, rules.pipeline = .ok (renamings.map Rule.rename) ∧
      List.Forall₂ RuleEntry.Asks rules.entries renamings :=
  mapM_of_sound (sound_of_issues_eq_nil none).1

/-! ### Loading -/

theorem issues_of_load {path : Option Path} {source : String} {rules : RuleSet}
    (loaded : RuleSet.load path source = .ok rules) : rules.issues = [] := by
  unfold RuleSet.load at loaded
  split at loaded
  · exact nomatch loaded
  · split at loaded
    · rename_i none
      obtain rfl := Except.ok.inj loaded
      exact none
    · exact nomatch loaded

theorem load_ne_rule (path : Option Path) (source : String) (origin : Option Path)
    (cause : RuleError) : RuleSet.load path source ≠ .error (.rule origin cause) := by
  unfold RuleSet.load
  split
  · exact nofun
  · split <;> exact nofun

/-- A rule set that is loaded from a file builds, so the only failures are those of loading. -/
theorem loadPipeline_ne_rule (tree : FileTree) (path : Path) (origin : Option Path)
    (cause : RuleError) : RuleSet.loadPipeline tree path ≠ .error (.rule origin cause) := by
  unfold RuleSet.loadPipeline RuleSet.loadFile
  cases tree.readText path with
  | error unreadable => exact nofun
  | ok source =>
      cases loaded : RuleSet.load (some path) source with
      | error error =>
          simp only [loaded]
          rintro ⟨rfl⟩
          exact load_ne_rule _ _ _ _ loaded
      | ok rules =>
          obtain ⟨renamings, built, _⟩ := pipeline_of_issues_eq_nil (issues_of_load loaded)
          simp only [loaded, built]
          exact nofun

/-- A rule set without issues builds. There is one renaming for every entry, in order, and each is what
its entry asks for; a renaming of declarations is of every kind only if its entry names no kind. The
names of the rules are the ids, which differ and are not blank. Loading a pipeline from a file never
fails because of a rule. -/
theorem accepted_rules_build :
    (∀ rules : RuleSet, rules.issues = [] →
      ∃ renamings, rules.pipeline = .ok (renamings.map Rule.rename) ∧
        List.Forall₂ RuleEntry.Asks rules.entries renamings ∧
        Pipeline.names (renamings.map Rule.rename) = rules.entries.map RuleEntry.id ∧
        (rules.entries.map RuleEntry.id).Nodup ∧
        ∀ entry, entry ∈ rules.entries → isBlank entry.id = false) ∧
      ∀ tree path origin cause, RuleSet.loadPipeline tree path ≠ .error (.rule origin cause) := by
  refine ⟨?_, loadPipeline_ne_rule⟩
  intro rules none
  obtain ⟨sound, differ⟩ := sound_of_issues_eq_nil none
  obtain ⟨renamings, built, asked⟩ := pipeline_of_issues_eq_nil none
  exact ⟨renamings, built, asked, names_of_asks asked, differ,
    fun entry isIn => (sound entry isIn).labelled⟩

/-- Two entries, the second with a kind under its short name. -/
theorem accepted_rules_build_pair :
    ∃ rules : RuleSet, rules.entries =
        [⟨"a", .renameIdent, "f", "g", none⟩, ⟨"b", .renameDecl, "p", "q", some "fn"⟩] ∧
      rules.issues = [] ∧
      ∃ first second, rules.pipeline = .ok [.rename first, .rename second] ∧
        first.name = "a" ∧ first.reach = .everywhere ∧
        second.name = "b" ∧ second.reach = .declarations (some .function) := by
  let rules : RuleSet :=
    ⟨"", none, [⟨"a", .renameIdent, "f", "g", none⟩, ⟨"b", .renameDecl, "p", "q", some "fn"⟩]⟩
  have valid : rules.issues = [] := by decide +kernel
  obtain ⟨renamings, built, asked, _⟩ := accepted_rules_build.1 rules valid
  cases asked with
  | cons ofFirst ofRest =>
      cases ofRest with
      | cons ofSecond ofNone =>
          cases ofNone
          refine ⟨rules, rfl, valid, _, _, built, ofFirst.name, ?_, ofSecond.name, ?_⟩
          · rcases ofFirst.reach with ⟨_, _, isReach⟩ | ⟨other, _⟩ | ⟨_, _, other, _⟩
            · exact isReach
            · exact nomatch other
            · exact nomatch other
          · rcases ofSecond.reach with ⟨other, _⟩ | ⟨_, other, _⟩ | ⟨text, kind, _, isText, isKind, isReach⟩
            · exact nomatch other
            · exact nomatch other
            · obtain rfl := Option.some.inj isText
              obtain rfl := Option.some.inj isKind
              exact isReach

end Codemod
