import Mathlib.Data.Finset.Card
import Codemod.RuleSet.Load

/-!
What the issues of a rule set say.

An entry is checked for its id, its two names, whether these are the same, and its kind, in this
order. Each check finds at most one issue. Only the check of the id looks at other entries, at the ids
of those before it.

Main statement: the issues of a rule set are exactly what the checks of its entries find, in the order
of the entries and, for each entry, in that of the checks, behind the remark that there are no
entries where this is so.
-/

set_option autoImplicit false

namespace Codemod

open Codemod.Files (Path)
open Codemod.Tree (DeclKind)

/-! ### What the checks find -/

/-- What an entry is checked for. -/
inductive EntryCheck where
  | id
  | old
  | new
  | sameName
  | kind
deriving DecidableEq, Repr

/-- The place of a check among those of an entry. -/
def EntryCheck.rank : EntryCheck → Nat
  | id => 0
  | old => 1
  | new => 2
  | sameName => 3
  | kind => 4

def EntryCheck.all : List EntryCheck := [id, old, new, sameName, kind]

namespace RuleEntry

/-- A name of an entry is missing, or it is none. -/
inductive Misnames (entry : RuleEntry) (field : EntryField) (text : String) : Issue → Prop where
  | missing (blank : isBlank text = true) :
      entry.Misnames field text (.missing entry.label field)
  | invalid {error : RuleError} (given : isBlank text = false)
      (refused : Renaming.checkName text = .error error) :
      entry.Misnames field text (.misfit entry.label (.invalidName error))

/-- A check of an entry finds an issue, given the ids before it. -/
inductive Finds (entry : RuleEntry) (earlier : List String) : EntryCheck → Issue → Prop where
  | noId (blank : isBlank entry.id = true) : entry.Finds earlier .id (.missing none .id)
  | repeatedId (given : isBlank entry.id = false) (isEarlier : entry.id ∈ earlier) :
      entry.Finds earlier .id (.duplicateId entry.id)
  | old {issue : Issue} (misnames : entry.Misnames .old entry.old issue) :
      entry.Finds earlier .old issue
  | new {issue : Issue} (misnames : entry.Misnames .new entry.new issue) :
      entry.Finds earlier .new issue
  | sameName (given : entry.old ≠ "") (same : entry.old = entry.new) :
      entry.Finds earlier .sameName (.misfit entry.label (.sameName entry.old))
  | misplacedKind {text : String} (isType : entry.type = .renameIdent)
      (isKind : entry.kind = some text) :
      entry.Finds earlier .kind (.misfit entry.label .misplacedKind)
  | unknownKind {text : String} (isType : entry.type = .renameDecl)
      (isKind : entry.kind = some text) (unknown : DeclKind.ofName? text = none) :
      entry.Finds earlier .kind (.misfit entry.label (.unknownKind text))

/-- The issues of an entry that one check finds. -/
def issuesOf (entry : RuleEntry) (earlier : List String) : EntryCheck → List Issue
  | .id => entry.idIssues earlier
  | .old => entry.nameIssues .old entry.old
  | .new => entry.nameIssues .new entry.new
  | .sameName => entry.sameNameIssues
  | .kind => entry.kindIssues

variable {entry : RuleEntry} {earlier : List String} {issue : Issue}

theorem issues_eq_checks (entry : RuleEntry) (earlier : List String) :
    entry.issues earlier = EntryCheck.all.flatMap (entry.issuesOf earlier) := by
  unfold issues EntryCheck.all
  simp only [List.flatMap_cons, List.flatMap_nil, List.append_nil, List.append_assoc, issuesOf]

theorem mem_idIssues_iff : issue ∈ entry.idIssues earlier ↔ entry.Finds earlier .id issue := by
  unfold idIssues
  cases blank : isBlank entry.id with
  | true =>
      rw [if_pos rfl, List.mem_singleton]
      constructor
      · rintro rfl
        exact .noId blank
      · intro finds
        cases finds with
        | noId _ => rfl
        | repeatedId given _ => cases blank.symm.trans given
  | false =>
      rw [if_neg Bool.false_ne_true]
      by_cases isEarlier : entry.id ∈ earlier
      · rw [if_pos (List.contains_iff_mem.mpr isEarlier), List.mem_singleton]
        constructor
        · rintro rfl
          exact .repeatedId blank isEarlier
        · intro finds
          cases finds with
          | noId blank' => cases blank.symm.trans blank'
          | repeatedId _ _ => rfl
      · rw [if_neg (mt List.contains_iff_mem.mp isEarlier)]
        refine iff_of_false List.not_mem_nil fun finds => ?_
        cases finds with
        | noId blank' => cases blank.symm.trans blank'
        | repeatedId _ isEarlier' => exact isEarlier isEarlier'

theorem mem_nameIssues_iff {field : EntryField} {text : String} :
    issue ∈ entry.nameIssues field text ↔ entry.Misnames field text issue := by
  unfold nameIssues
  cases blank : isBlank text with
  | true =>
      rw [if_pos rfl, List.mem_singleton]
      constructor
      · rintro rfl
        exact .missing blank
      · intro misnames
        cases misnames with
        | missing _ => rfl
        | invalid given _ => cases blank.symm.trans given
  | false =>
      rw [if_neg Bool.false_ne_true]
      cases outcome : Renaming.checkName text with
      | ok _ =>
          refine iff_of_false List.not_mem_nil fun misnames => ?_
          cases misnames with
          | missing blank' => cases blank.symm.trans blank'
          | invalid _ refused => cases outcome.symm.trans refused
      | error error =>
          rw [List.mem_singleton]
          constructor
          · rintro rfl
            exact .invalid blank outcome
          · intro misnames
            cases misnames with
            | missing blank' => cases blank.symm.trans blank'
            | invalid _ refused => rw [Except.error.inj (outcome.symm.trans refused)]

theorem mem_sameNameIssues_iff :
    issue ∈ entry.sameNameIssues ↔ entry.Finds earlier .sameName issue := by
  unfold sameNameIssues
  split
  · rename_i both
    rw [List.mem_singleton]
    constructor
    · rintro rfl
      exact .sameName both.1 both.2
    · intro finds
      cases finds
      rfl
  · rename_i notBoth
    refine iff_of_false List.not_mem_nil fun finds => ?_
    cases finds with
    | sameName given same => exact notBoth ⟨given, same⟩

theorem mem_kindIssues_iff : issue ∈ entry.kindIssues ↔ entry.Finds earlier .kind issue := by
  unfold kindIssues
  split
  · rename_i isType isKind
    rw [List.mem_singleton]
    constructor
    · rintro rfl
      exact .misplacedKind isType isKind
    · intro finds
      cases finds with
      | misplacedKind _ _ => rfl
      | unknownKind isType' _ _ => cases isType.symm.trans isType'
  · rename_i text isType isKind
    cases read : DeclKind.ofName? text with
    | none =>
        rw [if_pos Option.isNone_none, List.mem_singleton]
        constructor
        · rintro rfl
          exact .unknownKind isType isKind read
        · intro finds
          cases finds with
          | misplacedKind isType' _ => cases isType.symm.trans isType'
          | unknownKind _ isKind' _ => rw [Option.some.inj (isKind.symm.trans isKind')]
    | some kind =>
        rw [if_neg (Bool.eq_false_iff.mp Option.isNone_some)]
        refine iff_of_false List.not_mem_nil fun finds => ?_
        cases finds with
        | misplacedKind isType' _ => cases isType.symm.trans isType'
        | unknownKind _ isKind' unknown =>
            obtain rfl := Option.some.inj (isKind.symm.trans isKind')
            cases read.symm.trans unknown
  · rename_i isKind
    refine iff_of_false List.not_mem_nil fun finds => ?_
    cases finds with
    | misplacedKind _ isKind' => cases isKind.symm.trans isKind'
    | unknownKind _ isKind' _ => cases isKind.symm.trans isKind'

theorem mem_issuesOf_iff {check : EntryCheck} :
    issue ∈ entry.issuesOf earlier check ↔ entry.Finds earlier check issue := by
  cases check with
  | id => exact mem_idIssues_iff
  | old =>
      refine mem_nameIssues_iff.trans ⟨.old, fun finds => ?_⟩
      cases finds
      assumption
  | new =>
      refine mem_nameIssues_iff.trans ⟨.new, fun finds => ?_⟩
      cases finds
      assumption
  | sameName => exact mem_sameNameIssues_iff
  | kind => exact mem_kindIssues_iff

/-- A check finds at most one issue. -/
theorem length_issuesOf_le (entry : RuleEntry) (earlier : List String) (check : EntryCheck) :
    (entry.issuesOf earlier check).length ≤ 1 := by
  cases check <;>
    simp only [issuesOf, idIssues, nameIssues, sameNameIssues, kindIssues] <;>
    repeat' split
  all_goals first | exact Nat.le_refl 1 | exact Nat.zero_le 1

end RuleEntry

/-! ### Findings -/

/-- An issue with the place of the entry and the check that it comes from. -/
structure Finding where
  index : Nat
  check : EntryCheck
  issue : Issue
deriving DecidableEq

/-- The order of the entries and, for one entry, that of the checks. -/
def Finding.Before (left right : Finding) : Prop :=
  left.index < right.index ∨ left.index = right.index ∧ left.check.rank < right.check.rank

/-- The issue is what the check finds of the entry, given the ids of the entries before it. -/
def RuleSet.Reports (rules : RuleSet) (finding : Finding) : Prop :=
  ∃ entry, rules.entries[finding.index]? = some entry ∧
    entry.Finds ((rules.entries.take finding.index).map RuleEntry.id) finding.check finding.issue

/-- The findings of the entry at an index. -/
def RuleEntry.findings (entry : RuleEntry) (earlier : List String) (index : Nat) : List Finding :=
  EntryCheck.all.flatMap fun check => (entry.issuesOf earlier check).map (Finding.mk index check)

def RuleSet.findings (rules : RuleSet) : List Finding :=
  rules.entries.zipIdx.flatMap fun place =>
    place.1.findings ((rules.entries.take place.2).map RuleEntry.id) place.2

theorem EntryCheck.mem_all (check : EntryCheck) : check ∈ EntryCheck.all := by
  cases check <;> decide

section

variable {entry : RuleEntry} {earlier : List String} {index : Nat} {finding : Finding}

theorem RuleEntry.mem_findings_iff :
    finding ∈ entry.findings earlier index ↔
      finding.index = index ∧ entry.Finds earlier finding.check finding.issue := by
  unfold RuleEntry.findings
  rw [List.mem_flatMap]
  constructor
  · rintro ⟨check, _, isIn⟩
    obtain ⟨issue, found, rfl⟩ := List.mem_map.mp isIn
    exact ⟨rfl, mem_issuesOf_iff.mp found⟩
  · rintro ⟨rfl, finds⟩
    exact ⟨finding.check, EntryCheck.mem_all _,
      List.mem_map.mpr ⟨finding.issue, mem_issuesOf_iff.mpr finds, rfl⟩⟩

theorem RuleEntry.map_issue_findings (entry : RuleEntry) (earlier : List String) (index : Nat) :
    (entry.findings earlier index).map Finding.issue = entry.issues earlier := by
  unfold RuleEntry.findings
  rw [issues_eq_checks, List.map_flatMap]
  refine congrArg (EntryCheck.all.flatMap ·) (funext fun check => ?_)
  rw [List.map_map]
  exact List.map_id _

theorem RuleEntry.pairwise_findings (entry : RuleEntry) (earlier : List String) (index : Nat) :
    (entry.findings earlier index).Pairwise Finding.Before := by
  unfold RuleEntry.findings
  refine List.pairwise_flatMap.mpr ⟨fun check _ => ?_, ?_⟩
  · have short := entry.length_issuesOf_le earlier check
    match entry.issuesOf earlier check, short with
    | [], _ => exact List.Pairwise.nil
    | [issue], _ => exact List.pairwise_singleton _ _
  · have ranks : EntryCheck.all.Pairwise fun left right => left.rank < right.rank := by decide
    refine ranks.imp fun less left isLeft right isRight => ?_
    obtain ⟨_, _, rfl⟩ := List.mem_map.mp isLeft
    obtain ⟨_, _, rfl⟩ := List.mem_map.mp isRight
    exact Or.inr ⟨rfl, less⟩

end

section

variable (rules : RuleSet)

theorem RuleSet.mem_findings_iff {finding : Finding} :
    finding ∈ rules.findings ↔ rules.Reports finding := by
  unfold RuleSet.findings RuleSet.Reports
  rw [List.mem_flatMap]
  constructor
  · rintro ⟨⟨entry, index⟩, isPlace, isIn⟩
    obtain ⟨rfl, finds⟩ := RuleEntry.mem_findings_iff.mp isIn
    exact ⟨entry, List.mk_mem_zipIdx_iff_getElem?.mp isPlace, finds⟩
  · rintro ⟨entry, isEntry, finds⟩
    exact ⟨(entry, finding.index), List.mk_mem_zipIdx_iff_getElem?.mpr isEntry,
      RuleEntry.mem_findings_iff.mpr ⟨rfl, finds⟩⟩

theorem RuleSet.pairwise_findings : rules.findings.Pairwise Finding.Before := by
  unfold RuleSet.findings
  refine List.pairwise_flatMap.mpr ⟨fun place _ => place.1.pairwise_findings _ place.2, ?_⟩
  have places : (rules.entries.zipIdx.map Prod.snd).Pairwise (· < ·) := by
    rw [List.zipIdx_map_snd]
    exact List.pairwise_lt_range'
  refine (List.pairwise_map.mp places).imp fun less left isLeft right isRight => ?_
  left
  rw [(RuleEntry.mem_findings_iff.mp isLeft).1, (RuleEntry.mem_findings_iff.mp isRight).1]
  exact less

theorem entryIssues_eq_flatMap (earlier : List String) (entries : List RuleEntry) :
    entryIssues earlier entries = entries.zipIdx.flatMap fun place =>
      place.1.issues (earlier ++ (entries.take place.2).map RuleEntry.id) := by
  induction entries generalizing earlier with
  | nil => rfl
  | cons entry rest ih =>
      rw [entryIssues, ih, List.zipIdx_cons, List.zipIdx_succ, List.flatMap_cons,
        List.flatMap_map, List.take_zero, List.map_nil, List.append_nil]
      simp only [List.take_succ_cons, List.map_cons, List.append_assoc, List.singleton_append]

theorem RuleSet.issues_eq_findings :
    rules.issues =
      (if rules.entries = [] then [.noEntries] else []) ++ rules.findings.map Finding.issue := by
  unfold RuleSet.issues RuleSet.findings
  simp only [List.isEmpty_iff]
  rw [entryIssues_eq_flatMap, List.map_flatMap]
  simp only [RuleEntry.map_issue_findings, List.nil_append]

end

/-! ### Issues of more entries -/

theorem entryIssues_append (earlier : List String) (entries more : List RuleEntry) :
    entryIssues earlier (entries ++ more) =
      entryIssues earlier entries ++ entryIssues (earlier ++ entries.map RuleEntry.id) more := by
  induction entries generalizing earlier with
  | nil => rw [List.nil_append, List.map_nil, List.append_nil, entryIssues, List.nil_append]
  | cons entry rest ih =>
      rw [List.cons_append, entryIssues, entryIssues, ih, List.map_cons, List.append_assoc,
        List.append_assoc, List.singleton_append]

theorem RuleSet.issues_append (rules : RuleSet) (some : rules.entries ≠ [])
    (more : List RuleEntry) :
    rules.issues <+: RuleSet.issues { rules with entries := rules.entries ++ more } := by
  unfold RuleSet.issues
  rw [if_neg (mt List.isEmpty_iff.mp some),
    if_neg (mt List.isEmpty_iff.mp (List.append_ne_nil_of_left_ne_nil some more)),
    List.nil_append, List.nil_append, entryIssues_append]
  exact List.prefix_append _ _

/-! ### Repeated ids -/

def Issue.isDuplicate : Issue → Bool
  | .duplicateId _ => true
  | _ => false

/-- The entry that an issue names. -/
def Issue.rule? : Issue → Option String
  | .noEntries => none
  | .missing rule _ => rule
  | .duplicateId rule => some rule
  | .misfit rule _ => rule

/-- The ids that are not blank, in order. -/
def RuleSet.labels (rules : RuleSet) : List String := rules.entries.filterMap RuleEntry.label

section

variable {entry : RuleEntry} {earlier : List String} {check : EntryCheck} {issue : Issue}

theorem RuleEntry.label_of_blank (blank : isBlank entry.id = true) : entry.label = none :=
  if_pos blank

theorem RuleEntry.label_of_given (given : isBlank entry.id = false) :
    entry.label = some entry.id :=
  if_neg (Bool.eq_false_iff.mp given)

theorem RuleEntry.Misnames.rule? {field : EntryField} {text : String}
    (misnames : entry.Misnames field text issue) : issue.rule? = entry.label := by
  cases misnames <;> rw [Issue.rule?]

/-- An issue of an entry names the entry, by its id unless it is blank. -/
theorem RuleEntry.Finds.rule? (finds : entry.Finds earlier check issue) :
    issue.rule? = entry.label := by
  cases finds with
  | noId blank => exact (label_of_blank blank).symm
  | repeatedId given _ => exact (label_of_given given).symm
  | old misnames => exact misnames.rule?
  | new misnames => exact misnames.rule?
  | sameName _ _ => rw [Issue.rule?]
  | misplacedKind _ _ => rw [Issue.rule?]
  | unknownKind _ _ _ => rw [Issue.rule?]

theorem RuleEntry.Finds.not_isDuplicate (finds : entry.Finds earlier check issue)
    (other : check ≠ .id) : issue.isDuplicate = false := by
  cases finds with
  | noId _ => rfl
  | repeatedId _ _ => exact absurd rfl other
  | old misnames => cases misnames <;> rfl
  | new misnames => cases misnames <;> rfl
  | sameName _ _ => rfl
  | misplacedKind _ _ => rfl
  | unknownKind _ _ _ => rfl

end

theorem RuleEntry.countP_issues (entry : RuleEntry) (earlier : List String) :
    (entry.issues earlier).countP Issue.isDuplicate =
      (entry.idIssues earlier).countP Issue.isDuplicate := by
  have noneElsewhere : (List.flatMap (entry.issuesOf earlier)
      [.old, .new, .sameName, .kind]).countP Issue.isDuplicate = 0 := by
    refine List.countP_eq_zero.mpr fun issue isIn => ?_
    obtain ⟨check, isOther, found⟩ := List.mem_flatMap.mp isIn
    have other : check ≠ .id := by
      rintro rfl
      exact absurd isOther (by decide)
    exact Bool.eq_false_iff.mp ((mem_issuesOf_iff.mp found).not_isDuplicate other)
  rw [issues_eq_checks, EntryCheck.all, List.flatMap_cons, List.countP_append, noneElsewhere,
    Nat.add_zero]
  rfl

/-- An id that is not blank is repeated exactly if it is among the labels before it. -/
theorem RuleEntry.countP_issues_of_given {entry : RuleEntry} (given : isBlank entry.id = false)
    (before : List RuleEntry) :
    (entry.issues (before.map RuleEntry.id)).countP Issue.isDuplicate =
      if entry.id ∈ before.filterMap RuleEntry.label then 1 else 0 := by
  have isLabel : entry.id ∈ before.filterMap RuleEntry.label ↔
      (before.map RuleEntry.id).contains entry.id = true := by
    rw [List.contains_iff_mem, List.mem_filterMap, List.mem_map]
    constructor
    · rintro ⟨other, isIn, labels⟩
      unfold RuleEntry.label at labels
      split at labels
      · cases labels
      · exact ⟨other, isIn, Option.some.inj labels⟩
    · rintro ⟨other, isIn, same⟩
      refine ⟨other, isIn, ?_⟩
      rw [← same] at given ⊢
      exact label_of_given given
  rw [countP_issues, idIssues, if_neg (Bool.eq_false_iff.mp given)]
  by_cases repeated : entry.id ∈ before.filterMap RuleEntry.label
  · rw [if_pos repeated, if_pos (isLabel.mp repeated)]
    rfl
  · rw [if_neg repeated, if_neg (mt isLabel.mpr repeated)]
    rfl

theorem RuleEntry.countP_issues_of_blank {entry : RuleEntry} (blank : isBlank entry.id = true)
    (earlier : List String) : (entry.issues earlier).countP Issue.isDuplicate = 0 := by
  rw [countP_issues, idIssues, if_pos blank]
  rfl

theorem countP_entryIssues (entries : List RuleEntry) :
    (entryIssues [] entries).countP Issue.isDuplicate +
      (entries.filterMap RuleEntry.label).toFinset.card =
        (entries.filterMap RuleEntry.label).length := by
  -- By induction from the end, since the last entry is judged with the ids of all others.
  induction entries using List.reverseRecOn with
  | nil => rfl
  | append_singleton before entry ih =>
      rw [entryIssues_append, List.nil_append, List.countP_append, List.filterMap_append]
      simp only [entryIssues, List.append_nil]
      cases blank : isBlank entry.id with
      | true =>
          rw [RuleEntry.countP_issues_of_blank blank, List.filterMap_cons_none
            (RuleEntry.label_of_blank blank), List.filterMap_nil, List.append_nil, Nat.add_zero]
          exact ih
      | false =>
          rw [RuleEntry.countP_issues_of_given blank, List.filterMap_cons_some
            (RuleEntry.label_of_given blank), List.filterMap_nil, List.length_append,
            List.length_singleton, List.toFinset_append, List.toFinset_cons, List.toFinset_nil,
            insert_empty_eq, Finset.union_singleton]
          by_cases repeated : entry.id ∈ before.filterMap RuleEntry.label
          · rw [if_pos repeated, Finset.insert_eq_of_mem (List.mem_toFinset.mpr repeated)]
            omega
          · rw [if_neg repeated, Finset.card_insert_of_notMem (mt List.mem_toFinset.mp repeated)]
            omega

/-! ### Rule sets without issues -/

theorem RuleSet.issues_eq_nil_iff (rules : RuleSet) :
    rules.issues = [] ↔ rules.entries ≠ [] ∧ ∀ finding, ¬ rules.Reports finding := by
  rw [issues_eq_findings, List.append_eq_nil_iff, List.map_eq_nil_iff]
  have noFinding : rules.findings = [] ↔ ∀ finding, ¬ rules.Reports finding :=
    List.eq_nil_iff_forall_not_mem.trans
      (forall_congr' fun _ => not_congr rules.mem_findings_iff)
  refine and_congr ?_ noFinding
  split
  · rename_i none
    exact iff_of_false (List.cons_ne_nil _ _) (not_not_intro none)
  · rename_i some
    exact iff_of_true rfl some

theorem RuleSet.load_of_ofToml {rules : RuleSet} {source : String}
    (reads : RuleSet.ofToml source = .ok rules) (path : Option Path) :
    RuleSet.load path source =
      if rules.issues = [] then .ok rules else .error (.invalid path rules.issues) := by
  simp only [RuleSet.load, reads]
  cases rules.issues with
  | nil => rfl
  | cons first rest => rfl

/-- The issues of a rule set are the remark that it has no entries, if it has none, and what the
checks of its entries find, each once, in the order of the entries and of the checks. An issue names
its entry by the id unless this is blank.

So the issues of repeated ids are as many as the ids that are not blank, less the different ones among
these; more entries only add issues at the end; and a rule set that can be read is loaded if and only
if it has entries and no check finds anything. -/
theorem issues_exact (rules : RuleSet) :
    (∃ found : List Finding,
      rules.issues =
        (if rules.entries = [] then [.noEntries] else []) ++ found.map Finding.issue ∧
      found.Pairwise Finding.Before ∧
      ∀ finding, finding ∈ found ↔ rules.Reports finding) ∧
    (∀ finding entry, rules.Reports finding → rules.entries[finding.index]? = some entry →
      finding.issue.rule? = if isBlank entry.id then none else some entry.id) ∧
    rules.issues.countP Issue.isDuplicate + rules.labels.toFinset.card = rules.labels.length ∧
    (∀ more, rules.entries ≠ [] →
      rules.issues <+: RuleSet.issues { rules with entries := rules.entries ++ more }) ∧
    (rules.issues = [] ↔ rules.entries ≠ [] ∧ ∀ finding, ¬ rules.Reports finding) ∧
    ∀ path source, RuleSet.ofToml source = .ok rules →
      RuleSet.load path source =
        if rules.issues = [] then .ok rules else .error (.invalid path rules.issues) := by
  refine ⟨⟨rules.findings, rules.issues_eq_findings, rules.pairwise_findings,
    fun _ => rules.mem_findings_iff⟩, ?_, ?_, fun more some => rules.issues_append some more,
    rules.issues_eq_nil_iff, fun path _ reads => RuleSet.load_of_ofToml reads path⟩
  · rintro finding entry ⟨entry', isEntry', finds⟩ isEntry
    obtain rfl := Option.some.inj (isEntry'.symm.trans isEntry)
    exact finds.rule?
  · have noneInFront : (if rules.entries.isEmpty then [Issue.noEntries] else []).countP
        Issue.isDuplicate = 0 := by
      split <;> rfl
    unfold RuleSet.issues RuleSet.labels
    rw [List.countP_append, noneInFront, Nat.zero_add]
    exact countP_entryIssues rules.entries

end Codemod
