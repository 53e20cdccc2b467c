import Codemod.CommandLine.Execute
import Codemod.Proofs.CommandLine.Arguments
import Codemod.Proofs.RuleSet.Accepted

/-!
The pipeline that the arguments ask for.

Only the values of three options matter to it, and of each of them only in which order its own values
are given: how the options stand between each other, and which others there are, makes no difference.

Main statement: the rules are those of the file, then one renaming for every value of the option for
declarations, then one for every value of the option for all identifiers. Unless all of them can be
made there is no pipeline but the error of the first that cannot.
-/

set_option autoImplicit false

namespace Codemod.CommandLine

open Codemod.Files (FileTree Path)

/-- The values of an option, in the order in which they are given. -/
def valuesOf (flag : Flag) (given : List Given) : List String :=
  given.filterMap fun option => if option.flag = flag then option.value else none

/-- A renaming that is asked for. -/
structure Request where
  old : String
  new : String
  reach : Reach

namespace Request

def make (request : Request) : Except RuleError Renaming :=
  Renaming.make request.old request.new request.reach

/-- The renaming under the name it is given when it is made. -/
def rule (request : Request) : Renaming :=
  ⟨Renaming.defaultName request.old request.new request.reach, request.old, request.new,
    request.reach⟩

def ofPair (reach : Reach) (pair : String × String) : Request := ⟨pair.1, pair.2, reach⟩

end Request

/-- The pairs for declarations come before those for all identifiers. -/
def requestsOf (declared renamed : List (String × String)) : List Request :=
  declared.map (.ofPair (.declarations none)) ++ renamed.map (.ofPair .everywhere)

/-- No file of rules is named, or one that is accepted, with these entries. -/
inductive RulesFile (tree : FileTree) : List String → List RuleEntry → Prop where
  | absent : RulesFile tree [] []
  | accepted {path : String} {rules : RuleSet}
      (loaded : RuleSet.loadFile tree (Path.ofText path) = .ok rules) :
      RulesFile tree [path] rules.entries

section

variable {given : List Given} {settings : Settings} {flag : Flag}

/-! ### What the settings hold -/

/-- If every option adds the pairs of its value, all the pairs are collected in order. -/
theorem pairs_foldl {pairs : Settings → List (String × String)}
    (adds : ∀ option settings, pairs (Given.change option settings) = pairs settings ++
      (valuesOf flag [option]).flatMap fun value => (parseRename value).toOption.toList) :
    pairs (given.foldl (fun settings option => option.change settings) settings) =
      pairs settings ++
        (valuesOf flag given).flatMap fun value => (parseRename value).toOption.toList := by
  induction given generalizing settings with
  | nil => exact (List.append_nil _).symm
  | cons first rest ih =>
      have both : valuesOf flag [first] ++ valuesOf flag rest = valuesOf flag (first :: rest) :=
        List.filterMap_append.symm
      rw [List.foldl_cons, ih, adds, List.append_assoc, ← List.flatMap_append, both]

theorem renameDecl_settingsOf :
    (settingsOf given).renameDecl =
      (valuesOf .renameDecl given).flatMap fun value => (parseRename value).toOption.toList := by
  refine (pairs_foldl fun option settings => ?_).trans (List.nil_append _)
  obtain ⟨flag, value⟩ := option
  cases flag <;> cases value <;> simp [Given.change, valuesOf]

theorem rename_settingsOf :
    (settingsOf given).rename =
      (valuesOf .rename given).flatMap fun value => (parseRename value).toOption.toList := by
  refine (pairs_foldl fun option settings => ?_).trans (List.nil_append _)
  obtain ⟨flag, value⟩ := option
  cases flag <;> cases value <;> simp [Given.change, valuesOf]

theorem rules_foldl :
    (given.foldl (fun settings option => option.change settings) settings).rules =
      (valuesOf .rules given).getLast?.or settings.rules := by
  induction given generalizing settings with
  | nil => rfl
  | cons first rest ih =>
      have both : valuesOf .rules [first] ++ valuesOf .rules rest = valuesOf .rules (first :: rest) :=
        List.filterMap_append.symm
      rw [List.foldl_cons, ih, ← both, List.getLast?_append, Option.or_assoc]
      refine congrArg _ ?_
      obtain ⟨flag, value⟩ := first
      cases flag <;> cases value <;> rfl

theorem mem_valuesOf {value : String} :
    value ∈ valuesOf flag given ↔ ⟨flag, some value⟩ ∈ given := by
  unfold valuesOf
  rw [List.mem_filterMap]
  constructor
  · rintro ⟨⟨other, found⟩, isIn, isValue⟩
    split at isValue
    · rename_i same
      obtain rfl : found = some value := isValue
      exact same ▸ isIn
    · exact nomatch isValue
  · intro isIn
    exact ⟨_, isIn, if_pos rfl⟩

theorem isPair_flatMap {values : List String}
    (pairs : ∀ value, value ∈ values → ∃ pair, IsPair value pair) :
    List.Forall₂ IsPair values
      (values.flatMap fun value => (parseRename value).toOption.toList) := by
  induction values with
  | nil => exact .nil
  | cons first rest ih =>
      obtain ⟨ofFirst, ofRest⟩ := List.forall_mem_cons.mp pairs
      obtain ⟨pair, isPair⟩ := ofFirst
      rw [List.flatMap_cons, parseRename_eq_ok_iff.mpr isPair]
      exact .cons isPair (ih ofRest)

/-! ### What is built -/

/-- Make what is asked for, up to the first that cannot be made. -/
def makeAll (requests : List Request) : Except BuildError Pipeline :=
  requests.mapM fun request =>
    match request.make with
    | .ok rule => .ok (.rename rule)
    | .error cause => .error (.rename cause)

theorem renameRules_eq {reach : Reach} {pairs : List (String × String)} :
    renameRules reach pairs = makeAll (pairs.map (.ofPair reach)) := by
  unfold makeAll
  rw [List.mapM_map]
  rfl

theorem buildPipeline_eq {tree : FileTree} :
    buildPipeline tree settings = do
      let file ← fileRules tree settings.rules
      let others ← makeAll (requestsOf settings.renameDecl settings.rename)
      return file ++ others := by
  unfold buildPipeline
  rw [renameRules_eq, renameRules_eq]
  unfold requestsOf makeAll
  rw [List.mapM_append]
  simp only [bind_assoc, pure_bind, List.append_assoc]

theorem eq_rule_of_make {request : Request} {rule : Renaming} (made : request.make = .ok rule) :
    rule = request.rule := by
  unfold Request.make Renaming.make at made
  obtain ⟨_, _, made⟩ := bind_eq_ok_iff.mp made
  obtain ⟨_, _, made⟩ := bind_eq_ok_iff.mp made
  split at made
  · exact nomatch made
  · exact (Except.ok.inj made).symm

theorem makeAll_of_made {requests : List Request}
    (made : ∀ request, request ∈ requests → ∃ rule, request.make = .ok rule) :
    makeAll requests = .ok (requests.map fun request => .rename request.rule) := by
  induction requests with
  | nil => rfl
  | cons first rest ih =>
      obtain ⟨⟨rule, isMade⟩, ofRest⟩ := List.forall_mem_cons.mp made
      obtain rfl := eq_rule_of_make isMade
      have behind := ih ofRest
      unfold makeAll at behind ⊢
      rw [List.mapM_cons, isMade, behind]
      rfl

theorem makeAll_of_refused {front back : List Request} {request : Request} {cause : RuleError}
    (made : ∀ earlier, earlier ∈ front → ∃ rule, earlier.make = .ok rule)
    (refused : request.make = .error cause) :
    makeAll (front ++ request :: back) = .error (.rename cause) := by
  have inFront := makeAll_of_made made
  unfold makeAll at inFront ⊢
  rw [List.mapM_append, inFront, List.mapM_cons, refused]
  rfl

theorem fileRules_of_rulesFile {tree : FileTree} {entries : List RuleEntry}
    (file : RulesFile tree (valuesOf .rules given) entries) :
    ∃ rules, fileRules tree (settingsOf given).rules = .ok (rules.map Rule.rename) ∧
      List.Forall₂ RuleEntry.Asks entries rules := by
  have named : (settingsOf given).rules = (valuesOf .rules given).getLast? :=
    rules_foldl.trans (Option.or_none)
  rw [named]
  generalize valuesOf .rules given = values at file
  cases file with
  | absent => exact ⟨[], rfl, .nil⟩
  | accepted loaded =>
      rename_i path rules
      have noIssues : rules.issues = [] := by
        unfold RuleSet.loadFile at loaded
        split at loaded
        · exact nomatch loaded
        · exact issues_of_load loaded
      obtain ⟨renamings, built, asked⟩ := pipeline_of_issues_eq_nil noIssues
      refine ⟨renamings, ?_, asked⟩
      change (RuleSet.loadPipeline tree (Path.ofText path)).mapError BuildError.rules = _
      unfold RuleSet.loadPipeline
      rw [loaded]
      simp only [built]
      rfl

/-- Arguments that spell accepted options can be read. The pairs of names are those around the first
equals signs of the values. If the file of rules is accepted, or there is none, and all renamings can
be made, the pipeline has the rules of the file, those for declarations and those for all
identifiers, each in order. Otherwise the error is that of the first of these renamings that cannot
be made. Other arguments with the same values of these three options lead to the same pipeline or
error. -/
theorem pipeline_by_option {arguments : List String} (spelled : Spells arguments given)
    (accepted : Accepted given) :
    ∃ settings declared renamed, parse arguments = .ok settings ∧
      List.Forall₂ IsPair (valuesOf .renameDecl given) declared ∧
      List.Forall₂ IsPair (valuesOf .rename given) renamed ∧
      (∀ tree entries, RulesFile tree (valuesOf .rules given) entries →
        ((∀ request, request ∈ requestsOf declared renamed → ∃ rule, request.make = .ok rule) →
          ∃ rules, List.Forall₂ RuleEntry.Asks entries rules ∧
            buildPipeline tree settings =
              .ok ((rules ++ (requestsOf declared renamed).map Request.rule).map Rule.rename)) ∧
        ∀ front request back cause, requestsOf declared renamed = front ++ request :: back →
          (∀ earlier, earlier ∈ front → ∃ rule, earlier.make = .ok rule) →
          request.make = .error cause → buildPipeline tree settings = .error (.rename cause)) ∧
      ∀ otherArguments otherGiven, Spells otherArguments otherGiven → Accepted otherGiven →
        (∀ flag, flag ∈ [.rules, .renameDecl, .rename] →
          valuesOf flag otherGiven = valuesOf flag given) →
        ∃ otherSettings, parse otherArguments = .ok otherSettings ∧
          ∀ tree, buildPipeline tree otherSettings = buildPipeline tree settings := by
  refine ⟨settingsOf given, (settingsOf given).renameDecl, (settingsOf given).rename,
    parse_eq_ok_iff.mpr ⟨given, spelled, accepted, rfl⟩, ?_, ?_, ?_, ?_⟩
  · rw [renameDecl_settingsOf]
    exact isPair_flatMap fun value isIn => accepted.fit _ (mem_valuesOf.mp isIn)
  · rw [rename_settingsOf]
    exact isPair_flatMap fun value isIn => accepted.fit _ (mem_valuesOf.mp isIn)
  · intro tree entries file
    obtain ⟨rules, isRead, asked⟩ := fileRules_of_rulesFile file
    constructor
    · intro made
      refine ⟨rules, asked, ?_⟩
      rw [buildPipeline_eq, isRead, makeAll_of_made made, List.map_append, List.map_map]
      rfl
    · intro front request back cause parts made refused
      rw [buildPipeline_eq, isRead, parts, makeAll_of_refused made refused]
      rfl
  · intro otherArguments otherGiven otherSpelled otherAccepted same
    refine ⟨settingsOf otherGiven,
      parse_eq_ok_iff.mpr ⟨otherGiven, otherSpelled, otherAccepted, rfl⟩, fun tree => ?_⟩
    have sameFile : (settingsOf otherGiven).rules = (settingsOf given).rules := by
      unfold settingsOf
      rw [rules_foldl, rules_foldl, same .rules (by decide)]
    rw [buildPipeline_eq, buildPipeline_eq, renameDecl_settingsOf, renameDecl_settingsOf,
      rename_settingsOf, rename_settingsOf, same .renameDecl (by decide), same .rename (by decide),
      sameFile]

end

/-- Two renamings of all identifiers around one of declarations, with a letter between them. -/
theorem pipeline_by_option_interleaved :
    ∃ settings,
      parse ["--rename", "a=b", "-k", "--rename-decl", " c = d ", "--rename=e=f"] = .ok settings ∧
      ∀ tree, buildPipeline tree settings = .ok
        [.rename ⟨"rename-decl(c -> d)", "c", "d", .declarations none⟩,
          .rename ⟨"rename-ident(a -> b)", "a", "b", .everywhere⟩,
          .rename ⟨"rename-ident(e -> f)", "e", "f", .everywhere⟩] := by
  let given : List Given :=
    [⟨.rename, some "a=b"⟩, ⟨.keepGoing, none⟩, ⟨.renameDecl, some " c = d "⟩,
      ⟨.rename, some "e=f"⟩]
  have isRename : SpellsName (Flag.long .rename) [] (some .rename) := .apart rfl
  have isRenameDecl : SpellsName (Flag.long .renameDecl) [] (some .renameDecl) := .apart rfl
  have isAttached : SpellsName (Flag.long .rename ++ "=" ++ "e=f") [⟨.rename, some "e=f"⟩] none :=
    .equals "e=f" rfl
  have isLetter : SpellsWord "-k" [⟨.keepGoing, none⟩] none :=
    @SpellsWord.letters ['k'] _ _ nofun (by decide) (.bare rfl rfl .nothing)
  have spelled : Spells ["--rename", "a=b", "-k", "--rename-decl", " c = d ", "--rename=e=f"]
      given :=
    .apart (.name isRename) rfl (.word isLetter
      (.apart (.name isRenameDecl) rfl (.word (.name isAttached) .nothing)))
  have first : IsPair "a=b" ("a", "b") := parseRename_eq_ok_iff.mp rfl
  have second : IsPair " c = d " ("c", "d") := parseRename_eq_ok_iff.mp rfl
  have third : IsPair "e=f" ("e", "f") := parseRename_eq_ok_iff.mp rfl
  have accepted : Accepted given :=
    ⟨List.forall_mem_cons.mpr ⟨⟨_, first⟩, List.forall_mem_cons.mpr ⟨trivial,
      List.forall_mem_cons.mpr ⟨⟨_, second⟩, List.forall_mem_singleton.mpr ⟨_, third⟩⟩⟩⟩, by decide⟩
  obtain ⟨settings, declared, renamed, parsed, ofDeclared, ofRenamed, builds, _⟩ :=
    pipeline_by_option spelled accepted
  refine ⟨settings, parsed, fun tree => ?_⟩
  obtain rfl : declared = [("c", "d")] :=
    List.right_unique_forall₂' @IsPair.unique ofDeclared (.cons second .nil)
  obtain rfl : renamed = [("a", "b"), ("e", "f")] :=
    List.right_unique_forall₂' @IsPair.unique ofRenamed (.cons first (.cons third .nil))
  have isMade {old new : String} (reach : Reach) (oldIsName : Name.flaw? old = none)
      (newIsName : Name.flaw? new = none) (differ : old ≠ new) :
      ∃ rule, Request.make ⟨old, new, reach⟩ = .ok rule :=
    ⟨_, make_of_names oldIsName newIsName differ reach⟩
  have made : ∀ request, request ∈ requestsOf [("c", "d")] [("a", "b"), ("e", "f")] →
      ∃ rule, request.make = .ok rule :=
    List.forall_mem_cons.mpr
      ⟨isMade _ (by decide +kernel) (by decide +kernel) (by decide), List.forall_mem_cons.mpr
        ⟨isMade _ (by decide +kernel) (by decide +kernel) (by decide), List.forall_mem_singleton.mpr
          (isMade _ (by decide +kernel) (by decide +kernel) (by decide))⟩⟩
  obtain ⟨rules, ofNone, built⟩ := (builds tree [] .absent).1 made
  cases ofNone
  exact built

end Codemod.CommandLine
