import Codemod.Rule.Pipeline

/-!
Runs of a pipeline.

What every rule keeps, whether it succeeds or fails, a run keeps; and the error of a run is the
error of one of its rules.
-/

set_option autoImplicit false

namespace Codemod.Pipeline

open Codemod.Files (Path)
open Codemod.Tree (SyntaxTree)

variable {pipeline : Pipeline} (file : Path)

theorem applyFrom_cons (position : Nat) (rule : Rule) (rest : Pipeline) (tree : SyntaxTree) :
    applyFrom file position (rule :: rest) tree =
      match (rule.apply tree).error with
      | none => applyFrom file (position + 1) rest (rule.apply tree).tree
      | some cause => ⟨(rule.apply tree).tree, some ⟨rule.name, position, file, cause⟩⟩ := by
  rw [applyFrom]
  generalize rule.apply tree = result
  obtain ⟨after, error⟩ := result
  cases error <;> rfl

theorem applyFrom_keeps {kept : SyntaxTree → Prop}
    (keeps : ∀ rule, rule ∈ pipeline → ∀ tree, kept tree → kept (rule.apply tree).tree)
    (position : Nat) {tree : SyntaxTree} (start : kept tree) :
    kept (pipeline.applyFrom file position tree).tree := by
  induction pipeline generalizing position tree with
  | nil => exact start
  | cons rule rest ih =>
      have afterFirst := keeps rule List.mem_cons_self tree start
      rw [applyFrom]
      split
      · rename_i after succeeded
        rw [succeeded] at afterFirst
        exact ih (fun later isIn => keeps later (List.mem_cons_of_mem _ isIn)) _ afterFirst
      · rename_i after cause failed
        rw [failed] at afterFirst
        exact afterFirst

theorem cause_of_applyFrom (position : Nat) {tree : SyntaxTree} {error : PipelineError}
    (fails : (pipeline.applyFrom file position tree).error = some error) :
    ∃ rule, rule ∈ pipeline ∧ ∃ before, (rule.apply before).error = some error.cause := by
  induction pipeline generalizing position tree with
  | nil => exact nomatch fails
  | cons rule rest ih =>
      rw [applyFrom] at fails
      split at fails
      · obtain ⟨failing, isIn, before, failed⟩ := ih _ fails
        exact ⟨failing, List.mem_cons_of_mem _ isIn, before, failed⟩
      · rename_i after cause failed
        obtain rfl := Option.some.inj fails
        refine ⟨rule, List.mem_cons_self, tree, ?_⟩
        rw [failed]

end Codemod.Pipeline
