import Codemod.Patch.Source
import Codemod.Proofs.Diff.Lossless
import Codemod.Proofs.Rule.Collision
import Codemod.Proofs.Rule.Pipeline
import Codemod.Proofs.Rule.Redeclaration
import Codemod.Proofs.Tree.Print

/-!
Processing a source file fails only where it should.

A text that has been read prints as it is, so the tree before the rules is never to blame. An accepted
renaming leaves no identifier empty, so after renamings only two things can go wrong: a collision,
and a text that is no source file any more.

Main statement: these are the only failures. Without one, the diff is that of the text and of what the
changed tree prints, and it is empty exactly if the two are the same.
-/

set_option autoImplicit false

namespace Codemod

open Codemod.Diff (unified_eq_empty_iff)
open Codemod.Files (Path)
open Codemod.Tree

/-! ### Accepted renamings -/

/-- A renaming that is made from its two names, whatever it is called. -/
def Renaming.IsAccepted (rule : Renaming) : Prop :=
  ∃ made, Renaming.make rule.old rule.new rule.reach = .ok made ∧ made.named rule.name = rule

section

variable {rule : Renaming} {tree : SyntaxTree}

theorem isAccepted_iff :
    rule.IsAccepted ↔
      Name.flaw? rule.old = none ∧ Name.flaw? rule.new = none ∧ rule.old ≠ rule.new := by
  unfold Renaming.IsAccepted Renaming.make Renaming.checkName
  cases Name.flaw? rule.old with
  | some flaw =>
      refine iff_of_false ?_ nofun
      rintro ⟨_, isMade, _⟩
      exact nomatch isMade
  | none =>
      cases Name.flaw? rule.new with
      | some flaw =>
          refine iff_of_false ?_ nofun
          rintro ⟨_, isMade, _⟩
          exact nomatch isMade
      | none =>
          by_cases same : rule.old = rule.new
          · refine iff_of_false ?_ fun differ => differ.2.2 same
            rintro ⟨_, isMade, _⟩
            rw [if_pos same] at isMade
            exact nomatch isMade
          · refine iff_of_true ?_ ⟨rfl, rfl, same⟩
            rw [if_neg same]
            exact ⟨_, rfl, rfl⟩

theorem new_ne_empty (accepted : rule.IsAccepted) : rule.new ≠ "" := by
  intro isEmpty
  obtain ⟨_, noFlaw, _⟩ := isAccepted_iff.mp accepted
  rw [isEmpty] at noFlaw
  exact nomatch noFlaw

theorem namesKept_apply (accepted : rule.IsAccepted) (kept : tree.NamesKept) :
    (rule.apply tree).tree.NamesKept := by
  rcases tree_apply rule tree with same | ⟨_, renamed⟩
  · rw [same]
    exact kept
  · rw [renamed]
    rw [namesKept_iff] at kept ⊢
    intro leaf isIn
    obtain ⟨before, isBefore, rfl | rfl⟩ := mem_identifiers_rename isIn
    · exact kept leaf isBefore
    · rw [renameLeaf_text]
      split
      · exact new_ne_empty accepted
      · exact kept before isBefore

end

section

variable {rules : List Renaming} (file : Path) {tree : SyntaxTree}

theorem namesKept_applyAll (accepted : ∀ rule, rule ∈ rules → rule.IsAccepted)
    (kept : tree.NamesKept) : (Pipeline.applyAll (rules.map .rename) file tree).tree.NamesKept := by
  refine Pipeline.applyFrom_keeps file ?_ 0 kept
  intro rule isIn before keptBefore
  obtain ⟨made, isRule, rfl⟩ := List.mem_map.mp isIn
  exact namesKept_apply (accepted made isRule) keptBefore

/-- A run of renamings fails only by a collision. -/
theorem cause_of_renamings {error : PipelineError}
    (fails : (Pipeline.applyAll (rules.map .rename) file tree).error = some error) :
    ∃ old new kind line, error.cause = .nameCollision old new kind line := by
  obtain ⟨rule, isIn, before, failed⟩ := Pipeline.cause_of_applyFrom file 0 fails
  obtain ⟨made, _, rfl⟩ := List.mem_map.mp isIn
  change (made.apply before).error = some error.cause at failed
  rw [error_eq] at failed
  obtain ⟨existing, _, isCause⟩ := Option.map_eq_some_iff.mp failed
  exact ⟨_, _, _, _, isCause.symm⟩

end

/-! ### Processing -/

section

variable (path : Path) {source : String} {tree : SyntaxTree}

section

-- The text has been read, and it prints as it is.
variable (isParsed : parse source = .ok tree) (isPrinted : print tree = .ok source)
include isParsed isPrinted

theorem processSource_cases (pipeline : Pipeline) :
    (∃ cause, (pipeline.applyAll path tree).error = some cause ∧
        processSource path source pipeline = .error ⟨path, .transform cause⟩) ∨
      ((pipeline.applyAll path tree).error = none ∧
        ((∃ cause, print (pipeline.applyAll path tree).tree = .error cause ∧
            processSource path source pipeline = .error ⟨path, .print .after cause⟩) ∨
          ∃ after, print (pipeline.applyAll path tree).tree = .ok after ∧
            processSource path source pipeline =
              .ok ⟨path, path, Diff.unified path.display source path.display after⟩)) := by
  unfold processSource diffSource transformSource
  simp only [isParsed]
  cases pipeline.applyAll path tree with
  | mk changed error? =>
      cases error? with
      | some cause => exact Or.inl ⟨cause, rfl, rfl⟩
      | none =>
          refine Or.inr ⟨rfl, ?_⟩
          simp only [isPrinted]
          cases print changed with
          | error cause => exact Or.inl ⟨cause, rfl, rfl⟩
          | ok after => exact Or.inr ⟨after, rfl, rfl⟩

theorem failure_of_renamings {rules : List Renaming}
    (accepted : ∀ rule, rule ∈ rules → rule.IsAccepted) {error : ProcessError}
    (fails : processSource path source (rules.map .rename) = .error error) :
    error.path = path ∧
      ((∃ failure old new kind line, error.cause = .transform failure ∧
          failure.cause = .nameCollision old new kind line) ∨
        ∃ cause, error.cause = .print .after (.invalidOutput cause)) := by
  rcases processSource_cases path isParsed isPrinted (rules.map .rename) with
    ⟨failure, failed, processed⟩ | ⟨_, ⟨cause, notPrinted, processed⟩ | ⟨_, _, processed⟩⟩
  · obtain rfl := Except.error.inj (processed.symm.trans fails)
    obtain ⟨old, new, kind, line, isCause⟩ := cause_of_renamings path failed
    exact ⟨rfl, Or.inl ⟨failure, old, new, kind, line, rfl, isCause⟩⟩
  · obtain rfl := Except.error.inj (processed.symm.trans fails)
    have kept := namesKept_applyAll path accepted (print_eq_ok_iff.mp isPrinted).1
    obtain ⟨invalid, isInvalid⟩ := invalidOutput_of_namesKept kept notPrinted
    exact ⟨rfl, Or.inr ⟨invalid, congrArg _ isInvalid⟩⟩
  · exact nomatch processed.symm.trans fails

theorem cause_ne_print_before {pipeline : Pipeline} {error : ProcessError}
    (fails : processSource path source pipeline = .error error) (cause : PrintError) :
    error.cause ≠ .print .before cause := by
  rcases processSource_cases path isParsed isPrinted pipeline with
    ⟨failure, _, processed⟩ | ⟨_, ⟨other, _, processed⟩ | ⟨_, _, processed⟩⟩
  · obtain rfl := Except.error.inj (processed.symm.trans fails)
    exact nofun
  · obtain rfl := Except.error.inj (processed.symm.trans fails)
    exact nofun
  · exact nomatch processed.symm.trans fails

theorem diff_of_processSource {pipeline : Pipeline} {diff : FileDiff}
    (succeeds : processSource path source pipeline = .ok diff) :
    ∃ after, (pipeline.applyAll path tree).error = none ∧
      print (pipeline.applyAll path tree).tree = .ok after ∧
      diff = ⟨path, path, Diff.unified path.display source path.display after⟩ := by
  rcases processSource_cases path isParsed isPrinted pipeline with
    ⟨_, _, processed⟩ | ⟨noError, ⟨_, _, processed⟩ | ⟨after, isAfter, processed⟩⟩
  · exact nomatch processed.symm.trans succeeds
  · exact nomatch processed.symm.trans succeeds
  · exact ⟨after, noError, isAfter, (Except.ok.inj (processed.symm.trans succeeds)).symm⟩

end

/-- Let a text be read whose leaves are cut as `Orderly` says. Accepted renamings then fail only by a
collision or because the changed text is no source file, and whatever the rules are, the tree that was
read prints. Without a failure, the diff has the path on both sides and leads from the text to what
the changed tree prints; this can be read, and the diff is empty exactly if it is the same text. -/
theorem processing_fails_only_by_rules (isParsed : parse source = .ok tree)
    (orderly : ∀ cst, concreteTree? source = some cst → Orderly source cst) :
    (∀ rules : List Renaming, (∀ rule, rule ∈ rules → rule.IsAccepted) →
      ∀ error, processSource path source (rules.map .rename) = .error error →
        error.path = path ∧
          ((∃ failure old new kind line, error.cause = .transform failure ∧
              failure.cause = .nameCollision old new kind line) ∨
            ∃ cause, error.cause = .print .after (.invalidOutput cause))) ∧
    (∀ pipeline error, processSource path source pipeline = .error error →
      ∀ cause, error.cause ≠ .print .before cause) ∧
    (∀ pipeline diff, processSource path source pipeline = .ok diff →
      ∃ after again, (pipeline.applyAll path tree).error = none ∧
        print (pipeline.applyAll path tree).tree = .ok after ∧ parse after = .ok again ∧
        diff = ⟨path, path, Diff.unified path.display source path.display after⟩ ∧
        (diff.text = "" ↔ after = source)) := by
  have isPrinted := print_parsed isParsed orderly
  refine ⟨?_, ?_, ?_⟩
  · intro rules accepted error fails
    exact failure_of_renamings path isParsed isPrinted accepted fails
  · intro pipeline error fails
    exact cause_ne_print_before path isParsed isPrinted fails
  · intro pipeline diff succeeds
    obtain ⟨after, noError, isAfter, rfl⟩ := diff_of_processSource path isParsed isPrinted succeeds
    obtain ⟨_, isValid, isText⟩ := print_eq_ok_iff.mp isAfter
    obtain ⟨again, isAgain⟩ := validate_eq_ok_iff.mp (isText ▸ isValid)
    exact ⟨after, again, noError, isAfter, isAgain, rfl, (unified_eq_empty_iff ..).trans eq_comm⟩

/-- A file of two modules: to rename one like the other fails, and to give it another name leads to a
diff that is not empty. -/
theorem processing_fails_only_by_rules_modules :
    ∃ path source tree, path = Path.ofText "a.rs" ∧ source = "mod f;mod g;" ∧
      parse source = .ok tree ∧ (∀ cst, concreteTree? source = some cst → Orderly source cst) ∧
      (∃ rule, rule = ⟨"f to g", "f", "g", .everywhere⟩ ∧ Renaming.IsAccepted rule ∧
        ∃ error, processSource path source [.rename rule] = .error error ∧ error.path = path ∧
          ∃ failure old new kind line, error.cause = .transform failure ∧
            failure.cause = .nameCollision old new kind line) ∧
      ∃ diff, processSource path source [.rename ⟨"f to h", "f", "h", .everywhere⟩] = .ok diff ∧
        diff = ⟨path, path, Diff.unified path.display source path.display "mod h;mod g;"⟩ ∧
        diff.text ≠ "" := by
  obtain ⟨cst, isTree, orderlyTree, spells⟩ : ∃ cst, concreteTree? "mod f;mod g;" = some cst ∧
      Orderly "mod f;mod g;" cst ∧
      (Pipeline.applyAll [.rename ⟨"f to h", "f", "h", .everywhere⟩] (Path.ofText "a.rs")
        (convert "mod f;mod g;" cst)).tree.toSource = "mod h;mod g;" :=
    ⟨(concreteTree? "mod f;mod g;").get (by decide +kernel), (Option.some_get _).symm,
      by decide +kernel, by decide +kernel⟩
  have isParsed := (parse_eq_ok_iff "mod f;mod g;" _).mpr ⟨cst, isTree, rfl⟩
  have orderly (other : Grammar.Cst) (isOther : concreteTree? "mod f;mod g;" = some other) :
      Orderly "mod f;mod g;" other := by
    rw [Option.some.inj (isOther.symm.trans isTree)]
    exact orderlyTree
  obtain ⟨onFailure, _, onSuccess⟩ :=
    processing_fails_only_by_rules (.ofText "a.rs") isParsed orderly
  refine ⟨_, _, _, rfl, rfl, isParsed, orderly, ⟨_, rfl, ?_⟩, ?_⟩
  · have accepted : Renaming.IsAccepted ⟨"f to g", "f", "g", .everywhere⟩ :=
      isAccepted_iff.mpr (by decide +kernel)
    have stage : (match processSource (.ofText "a.rs") "mod f;mod g;"
        [.rename ⟨"f to g", "f", "g", .everywhere⟩] with
      | .error error => some error.stage
      | .ok _ => none) = some .parsed := by decide +kernel
    cases processed : processSource (.ofText "a.rs") "mod f;mod g;"
        [.rename ⟨"f to g", "f", "g", .everywhere⟩] with
    | ok diff =>
        rw [processed] at stage
        exact nomatch stage
    | error error =>
        rw [processed] at stage
        obtain ⟨samePath, isCollision | ⟨cause, isPrint⟩⟩ :=
          onFailure [⟨"f to g", "f", "g", .everywhere⟩]
            (fun rule isIn => List.mem_singleton.mp isIn ▸ accepted) error processed
        · exact ⟨accepted, error, rfl, samePath, isCollision⟩
        · have early := Option.some.inj stage
          rw [ProcessError.stage, isPrint] at early
          exact nomatch early
  · have succeeds : (processSource (.ofText "a.rs") "mod f;mod g;"
        [.rename ⟨"f to h", "f", "h", .everywhere⟩]).isOk = true := by decide +kernel
    cases processed : processSource (.ofText "a.rs") "mod f;mod g;"
        [.rename ⟨"f to h", "f", "h", .everywhere⟩] with
    | error error =>
        rw [processed] at succeeds
        exact nomatch succeeds
    | ok diff =>
        obtain ⟨after, again, _, isAfter, _, isDiff, emptyIff⟩ := onSuccess _ diff processed
        have isText := (print_eq_ok_iff.mp isAfter).2.2
        rw [spells] at isText
        subst isText
        exact ⟨diff, rfl, isDiff, mt emptyIff.mp (by decide)⟩

end

end Codemod
