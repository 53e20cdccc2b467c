import Codemod.Proofs.Name.Spelling
import Codemod.Proofs.Patch.Source
import Codemod.Proofs.Rule.Leaf

/-!
The names of accepted renamings.

A renaming keeps its names as they were given, blanks and comments included. Where there are none, the
names are spelled as identifiers are in a file, and renaming keeps the number of lines.
-/

set_option autoImplicit false

namespace Codemod

open Codemod.Diff (SameBreaks Unbroken linesOf)
open Codemod.Name (Framed flaw? flaw?_eq_none_iff isSpelled not_mem_of_endsWord
  startsWord_of_isSpelled)
open Codemod.Tree

theorem isAccepted_iff_framed (rule : Renaming) :
    rule.IsAccepted ↔ rule.old ≠ rule.new ∧ ∀ name, name ∈ [rule.old, rule.new] →
      ∃ front letters back, Framed name.toList front letters back := by
  rw [isAccepted_iff, flaw?_eq_none_iff, flaw?_eq_none_iff]
  constructor
  · intro ⟨oldFramed, newFramed, differ⟩
    refine ⟨differ, ?_⟩
    intro name isName
    simp only [List.mem_cons, List.not_mem_nil, or_false] at isName
    rcases isName with rfl | rfl
    · exact oldFramed
    · exact newFramed
  · intro ⟨differ, framed⟩
    exact ⟨framed _ (by simp), framed _ (by simp), differ⟩

theorem unbroken_of_isSpelled {name : List Char} (spelled : isSpelled name = true) :
    Unbroken name := by
  intro c isIn
  constructor
  · rintro rfl
    exact not_mem_of_endsWord spelled (by decide +kernel) isIn
  · rintro rfl
    exact not_mem_of_endsWord spelled (by decide +kernel) isIn

theorem sameBreaks_of_isSpelled {old new : List Char} (oldSpelled : isSpelled old = true)
    (newSpelled : isSpelled new = true) : SameBreaks old new := by
  have some {name : List Char} (spelled : isSpelled name = true) : name ≠ [] := by
    obtain ⟨c, rest, rfl, _⟩ := startsWord_of_isSpelled spelled
    exact List.cons_ne_nil c rest
  have words := SameBreaks.word (some oldSpelled) (some newSpelled)
    (unbroken_of_isSpelled oldSpelled) (unbroken_of_isSpelled newSpelled) .nil
  rwa [List.append_nil, List.append_nil] at words

/-- A text is accepted as a name exactly if it is a name with blanks and comments around it, and it is
spelled as an identifier exactly if there are none. A renaming is accepted between two different such
texts. If both are spelled as identifiers, it keeps the number of line feeds, that of carriage returns,
and that of lines. -/
theorem accepted_names_framed (name : String) (rule : Renaming) (tree : SyntaxTree) :
    (flaw? name = none ↔ ∃ front letters back, Framed name.toList front letters back) ∧
    (∀ front letters back, Framed name.toList front letters back →
      (isSpelled name.toList = true ↔ front = [] ∧ back = [])) ∧
    (rule.IsAccepted ↔
      rule.old ≠ rule.new ∧ ∀ text, text ∈ [rule.old, rule.new] →
        ∃ front letters back, Framed text.toList front letters back) ∧
    (isSpelled rule.old.toList = true → isSpelled rule.new.toList = true →
      (rule.apply tree).tree.toSource.toList.count '\n' = tree.toSource.toList.count '\n' ∧
      (rule.apply tree).tree.toSource.toList.count '\r' = tree.toSource.toList.count '\r' ∧
      (linesOf (rule.apply tree).tree.toSource).size = (linesOf tree.toSource).size) := by
  refine ⟨flaw?_eq_none_iff name, ?_, isAccepted_iff_framed rule, ?_⟩
  · intro front letters back framed
    exact framed.isSpelled_iff
  · intro oldSpelled newSpelled
    have same : SameBreaks tree.toSource.toList (rule.apply tree).tree.toSource.toList :=
      sameBreaks_apply (sameBreaks_of_isSpelled oldSpelled newSpelled)
    exact ⟨(same.count_eq (.inl rfl)).symm, (same.count_eq (.inr rfl)).symm, same.size_linesOf.symm⟩

/-- A comment behind a name, and a renaming between names without one. -/
theorem accepted_names_framed_comment :
    (∃ front letters back, Framed "g/**/".toList front letters back ∧ ¬ (front = [] ∧ back = [])) ∧
      ∃ rule tree, rule = ⟨"f to g", "f", "g", .everywhere⟩ ∧ rule.IsAccepted ∧
        parse "mod f;\r\n\n" = .ok tree ∧
        (linesOf (Renaming.apply rule tree).tree.toSource).size = 2 := by
  obtain ⟨cst, isTree, twoLines⟩ : ∃ cst, concreteTree? "mod f;\r\n\n" = some cst ∧
      (linesOf (convert "mod f;\r\n\n" cst).toSource).size = 2 :=
    ⟨(concreteTree? "mod f;\r\n\n").get (by decide +kernel), (Option.some_get _).symm,
      by decide +kernel⟩
  obtain ⟨acceptedIff, spelledIff, ruleIff, sameLines⟩ := accepted_names_framed "g/**/"
    ⟨"f to g", "f", "g", .everywhere⟩ (convert "mod f;\r\n\n" cst)
  constructor
  · obtain ⟨front, letters, back, framed⟩ := acceptedIff.mp (by decide +kernel)
    refine ⟨front, letters, back, framed, ?_⟩
    rw [← spelledIff front letters back framed]
    decide +kernel
  · refine ⟨_, _, rfl, ?_, (parse_eq_ok_iff _ _).mpr ⟨cst, isTree, rfl⟩, ?_⟩
    · refine ruleIff.mpr ⟨by decide, ?_⟩
      intro text isText
      refine (flaw?_eq_none_iff text).mp ?_
      simp only [List.mem_cons, List.not_mem_nil, or_false] at isText
      rcases isText with rfl | rfl
      all_goals decide +kernel
    · rw [(sameLines (by decide +kernel) (by decide +kernel)).2.2]
      exact twoLines

/-- A line feed behind the new name is kept. The name is then no other declaration's, so nothing is in
the way, and the file has one line more. -/
theorem feed_behind_name_accepted :
    isSpelled "g\n".toList = false ∧
      Renaming.IsAccepted ⟨"", "f", "g\n", .everywhere⟩ ∧
      ∃ tree, parse "mod f;mod g;" = .ok tree ∧
        (Renaming.apply ⟨"", "f", "g", .everywhere⟩ tree).error ≠ none ∧
        (Renaming.apply ⟨"", "f", "g\n", .everywhere⟩ tree).error = none ∧
        (Renaming.apply ⟨"", "f", "g\n", .everywhere⟩ tree).tree.toSource = "mod g\n;mod g;" := by
  refine ⟨by decide +kernel, ?_, ?_⟩
  · exact isAccepted_iff.mpr ⟨by decide +kernel, by decide +kernel, by decide⟩
  · obtain ⟨cst, isTree, collides, succeeds, text⟩ : ∃ cst, concreteTree? "mod f;mod g;" = some cst ∧
        (Renaming.apply ⟨"", "f", "g", .everywhere⟩ (convert "mod f;mod g;" cst)).error ≠ none ∧
        (Renaming.apply ⟨"", "f", "g\n", .everywhere⟩ (convert "mod f;mod g;" cst)).error = none ∧
        (Renaming.apply ⟨"", "f", "g\n", .everywhere⟩ (convert "mod f;mod g;" cst)).tree.toSource =
          "mod g\n;mod g;" :=
      ⟨(concreteTree? "mod f;mod g;").get (by decide +kernel), (Option.some_get _).symm,
        by decide +kernel, by decide +kernel, by decide +kernel⟩
    exact ⟨_, (parse_eq_ok_iff _ _).mpr ⟨cst, isTree, rfl⟩, collides, succeeds, text⟩

end Codemod
