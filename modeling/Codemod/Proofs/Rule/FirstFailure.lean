import Codemod.Proofs.Rule.Collision
import Codemod.Proofs.Rule.Pipeline

/-!
Where a pipeline stops.

Each rule is applied once, to the tree that the rules before it have left. A run of some rules is
the run of the first of them, and if these succeed, a run of the others from the tree they leave,
where the others count their positions from there on.

Main statement: a run succeeds if and only if every rule succeeds on the tree handed on to it.
Otherwise the rule with the least position that does not is told, and the rules behind it have no
part in what is left. A renaming that stops a run leaves the tree that was handed on to it.
-/

set_option autoImplicit false

namespace Codemod

open Codemod.Files (Path)
open Codemod.Tree (SyntaxTree)

/-- The same result where `count` more rules stand in front. -/
def PipelineResult.behind (count : Nat) (result : PipelineResult) : PipelineResult :=
  { result with
    error := result.error.map fun error => { error with position := error.position + count } }

namespace Pipeline

/-- The tree that the first `count` rules leave, each applied once to what the one before it has
left. -/
def handedOn (pipeline : Pipeline) (tree : SyntaxTree) (count : Nat) : SyntaxTree :=
  (pipeline.take count).foldl (fun before rule => (rule.apply before).tree) tree

/-- Every rule among the first `count` succeeds on the tree handed on to it. -/
def SucceedsUpTo (pipeline : Pipeline) (tree : SyntaxTree) (count : Nat) : Prop :=
  ∀ position rule, position < count → pipeline[position]? = some rule →
    (rule.apply (pipeline.handedOn tree position)).error = none

/-- The rule at a position is the first that fails on the tree handed on to it. -/
structure StopsAt (pipeline : Pipeline) (tree : SyntaxTree) (position : Nat) (rule : Rule)
    (cause : RuleError) : Prop where
  isThere : pipeline[position]? = some rule
  fails : (rule.apply (pipeline.handedOn tree position)).error = some cause
  first : pipeline.SucceedsUpTo tree position

section

variable {rule : Rule} {rest : Pipeline} {tree : SyntaxTree} {position : Nat}

/-! ### Behind the first rule -/

theorem handedOn_cons (rule : Rule) (rest : Pipeline) (tree : SyntaxTree) (count : Nat) :
    handedOn (rule :: rest) tree (count + 1) = handedOn rest (rule.apply tree).tree count := rfl

theorem succeedsUpTo_cons (succeeds : (rule.apply tree).error = none) {count : Nat}
    (later : SucceedsUpTo rest (rule.apply tree).tree count) :
    SucceedsUpTo (rule :: rest) tree (count + 1) := by
  intro position other before isThere
  cases position with
  | zero =>
      obtain rfl := Option.some.inj isThere
      exact succeeds
  | succ position => exact later position other (Nat.lt_of_succ_lt_succ before) isThere

theorem StopsAt.cons {other : Rule} {cause : RuleError}
    (succeeds : (rule.apply tree).error = none)
    (stops : StopsAt rest (rule.apply tree).tree position other cause) :
    StopsAt (rule :: rest) tree (position + 1) other cause :=
  ⟨stops.isThere, stops.fails, succeedsUpTo_cons succeeds stops.first⟩

/-! ### Runs -/

/-- A run goes through if every rule succeeds, and else stops at the first that fails. -/
theorem applyFrom_cases (file : Path) (pipeline : Pipeline) (start : Nat) (tree : SyntaxTree) :
    (pipeline.SucceedsUpTo tree pipeline.length ∧
        pipeline.applyFrom file start tree = ⟨pipeline.handedOn tree pipeline.length, none⟩) ∨
      ∃ position rule cause, pipeline.StopsAt tree position rule cause ∧
        pipeline.applyFrom file start tree =
          ⟨(rule.apply (pipeline.handedOn tree position)).tree,
            some ⟨rule.name, start + position, file, cause⟩⟩ := by
  induction pipeline generalizing start tree with
  | nil => exact Or.inl ⟨nofun, rfl⟩
  | cons rule rest ih =>
      rw [applyFrom_cons]
      cases outcome : (rule.apply tree).error with
      | some cause =>
          exact Or.inr ⟨0, rule, cause, ⟨rfl, outcome, nofun⟩, rfl⟩
      | none =>
          rcases ih (start + 1) (rule.apply tree).tree with
            ⟨later, applied⟩ | ⟨position, other, cause, stops, applied⟩
          · exact Or.inl ⟨succeedsUpTo_cons outcome later, applied⟩
          · refine Or.inr ⟨position + 1, other, cause, stops.cons outcome, applied.trans ?_⟩
            rw [handedOn_cons, Nat.add_assoc, Nat.add_comm 1]

theorem applyFrom_add (file : Path) (pipeline : Pipeline) (start count : Nat)
    (tree : SyntaxTree) :
    pipeline.applyFrom file (start + count) tree =
      (pipeline.applyFrom file start tree).behind count := by
  induction pipeline generalizing start tree with
  | nil => rfl
  | cons rule rest ih =>
      rw [applyFrom_cons, applyFrom_cons]
      cases (rule.apply tree).error with
      | some cause => rfl
      | none =>
          rw [← ih (start + 1) (rule.apply tree).tree, Nat.add_right_comm]

/-- The rules in front stop the run, or hand their tree on to the others. -/
theorem applyFrom_append (file : Path) (front back : Pipeline) (start : Nat)
    (tree : SyntaxTree) :
    (front ++ back).applyFrom file start tree =
      match (front.applyFrom file start tree).error with
      | none =>
          back.applyFrom file (start + front.length) (front.applyFrom file start tree).tree
      | some _ => front.applyFrom file start tree := by
  induction front generalizing start tree with
  | nil => rfl
  | cons rule rest ih =>
      rw [List.cons_append, applyFrom_cons, applyFrom_cons]
      cases (rule.apply tree).error with
      | some cause => rfl
      | none =>
          rw [List.length_cons, Nat.add_comm rest.length 1, ← Nat.add_assoc]
          exact ih (start + 1) (rule.apply tree).tree

theorem applyAll_append (file : Path) (front back : Pipeline) (tree : SyntaxTree) :
    (front ++ back).applyAll file tree =
      match (front.applyAll file tree).error with
      | none => (back.applyAll file (front.applyAll file tree).tree).behind front.length
      | some _ => front.applyAll file tree := by
  unfold applyAll
  rw [applyFrom_append, applyFrom_add]

/-! ### Where a run stops -/

theorem StopsAt.position_lt {pipeline : Pipeline} {cause : RuleError}
    (stops : pipeline.StopsAt tree position rule cause) : position < pipeline.length :=
  (List.getElem?_eq_some_iff.mp stops.isThere).1

/-- A run that a rule stops does not go through. -/
theorem StopsAt.not_succeeds {pipeline : Pipeline} {cause : RuleError}
    (stops : pipeline.StopsAt tree position rule cause) :
    ¬ pipeline.SucceedsUpTo tree pipeline.length := by
  intro succeeds
  exact nomatch stops.fails.symm.trans (succeeds position rule stops.position_lt stops.isThere)

theorem stopsAt_of_error {pipeline : Pipeline} {file : Path} {error : PipelineError}
    (fails : (pipeline.applyAll file tree).error = some error) :
    ∃ rule, pipeline.StopsAt tree error.position rule error.cause ∧ error.rule = rule.name ∧
      error.file = file ∧
      (pipeline.applyAll file tree).tree =
        (rule.apply (pipeline.handedOn tree error.position)).tree := by
  unfold applyAll at fails ⊢
  rcases applyFrom_cases file pipeline 0 tree with
    ⟨_, applied⟩ | ⟨position, rule, cause, stops, applied⟩
  · rw [applied] at fails
    exact nomatch fails
  · rw [applied, Nat.zero_add] at fails
    obtain rfl := Option.some.inj fails
    exact ⟨rule, stops, rfl, rfl, congrArg PipelineResult.tree applied⟩

/-- The rules behind the one that stops a run have no part in what it leaves. -/
theorem applyAll_take_append {pipeline : Pipeline} {file : Path} {error : PipelineError}
    (fails : (pipeline.applyAll file tree).error = some error) (later : Pipeline) :
    applyAll (pipeline.take (error.position + 1) ++ later) file tree =
      pipeline.applyAll file tree := by
  obtain ⟨_, stops, _⟩ := stopsAt_of_error fails
  have divided := applyAll_append file (pipeline.take (error.position + 1))
    (pipeline.drop (error.position + 1)) tree
  rw [List.take_append_drop] at divided
  rw [applyAll_append]
  cases outcome : (applyAll (pipeline.take (error.position + 1)) file tree).error with
  | some first =>
      rw [outcome] at divided
      exact divided.symm
  | none =>
      -- The error would stand behind the rules that are taken.
      rw [outcome] at divided
      rw [divided, PipelineResult.behind, List.length_take_of_le stops.position_lt] at fails
      obtain ⟨behind, _, isError⟩ := Option.map_eq_some_iff.mp fails
      have position := congrArg PipelineError.position isError
      exact absurd position (by dsimp only; omega)

theorem tree_of_rename_fails {renames : Renaming} {cause : RuleError}
    (fails : (Rule.apply (.rename renames) tree).error = some cause) :
    (Rule.apply (.rename renames) tree).tree = tree := by
  change (renames.apply tree).error = some cause at fails
  change (renames.apply tree).tree = tree
  rcases apply_cases renames tree with ⟨existing, _, applied⟩ | ⟨_, applied | applied⟩
  · rw [applied]
  · exact nomatch fails.symm.trans (congrArg RuleResult.error applied)
  · exact nomatch fails.symm.trans (congrArg RuleResult.error applied)

/-- A run succeeds if and only if every rule succeeds on the tree that the rules before it have
left; it then leaves what they leave together. Otherwise the error tells the least position whose
rule fails there, with the name and the error of the rule and the file, and the tree left is what
this rule has made of the tree handed on to it, which is that tree itself if the rule is a renaming;
whatever other rules stood behind it, the result would be the same. Where a pipeline is divided, the
run is that of the front, and if the front succeeds, that of the back on the tree it leaves, with
positions counted from the whole. -/
theorem pipeline_stops_at_first_failure (pipeline : Pipeline) (file : Path)
    (tree : SyntaxTree) :
    let result := pipeline.applyAll file tree
    (result.error = none ↔ pipeline.SucceedsUpTo tree pipeline.length) ∧
      (result.error = none → result.tree = pipeline.handedOn tree pipeline.length) ∧
      (∀ error, result.error = some error →
        ∃ rule, pipeline.StopsAt tree error.position rule error.cause ∧ error.rule = rule.name ∧
          error.file = file ∧
          result.tree = (rule.apply (pipeline.handedOn tree error.position)).tree ∧
          (∀ renames, rule = .rename renames →
            result.tree = pipeline.handedOn tree error.position) ∧
          ∀ later, applyAll (pipeline.take (error.position + 1) ++ later) file tree = result) ∧
      ∀ front back, pipeline = front ++ back →
        result =
          match (front.applyAll file tree).error with
          | none => (back.applyAll file (front.applyAll file tree).tree).behind front.length
          | some _ => front.applyAll file tree := by
  have whole := applyFrom_cases file pipeline 0 tree
  refine ⟨?_, ?_, ?_, ?_⟩
  · rcases whole with ⟨succeeds, applied⟩ | ⟨_, _, _, stops, applied⟩
    · exact iff_of_true (congrArg PipelineResult.error applied) succeeds
    · refine iff_of_false ?_ stops.not_succeeds
      exact fun none => nomatch none.symm.trans (congrArg PipelineResult.error applied)
  · intro succeeds
    rcases whole with ⟨_, applied⟩ | ⟨_, _, _, _, applied⟩
    · exact congrArg PipelineResult.tree applied
    · exact nomatch succeeds.symm.trans (congrArg PipelineResult.error applied)
  · intro error fails
    obtain ⟨rule, stops, isName, isFile, left⟩ := stopsAt_of_error fails
    refine ⟨rule, stops, isName, isFile, left, ?_, applyAll_take_append fails⟩
    rintro renames rfl
    exact left.trans (tree_of_rename_fails stops.fails)
  · rintro front back rfl
    exact applyAll_append file front back tree

end

end Pipeline

end Codemod
