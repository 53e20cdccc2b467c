import Codemod.Proofs.Rule.ItemName

/-!
Renaming everywhere and renaming declarations, where only declarations read the old name.

The first looks at every identifier and changes all that read the old name; the second looks at the
scopes and changes the names of declarations outside all blocks. Where every identifier that reads
the old name is such a name, both find something to rename in the same trees, meet the same
declarations in their way, and change the same places.

Main statement: in such a tree the two have the same outcome.
-/

set_option autoImplicit false

namespace Codemod

open Codemod.Tree

/-- Every identifier that reads the name is the name of a declaration outside all blocks. -/
def Tree.SyntaxTree.OnlyDeclares (tree : SyntaxTree) (name : String) : Prop :=
  ∀ path leaf, tree.root.at? path = some (.ident leaf) → leaf.text = name →
    ∃ declaration, tree.root.NamesAt path declaration leaf

section

variable {tree : SyntaxTree} {old new : String} (first second : String)

/-- Without a kind asked for, both look for the same declarations, so they meet the same in their
way. -/
theorem collision?_everywhere (tree : SyntaxTree) :
    Renaming.collision? ⟨first, old, new, .everywhere⟩ tree =
      Renaming.collision? ⟨second, old, new, .declarations none⟩ tree := rfl

theorem seeks_of_onlyDeclares (only : tree.OnlyDeclares old) {path : List Nat} {leaf : Token}
    (isThere : tree.root.at? path = some (.ident leaf)) (reads : leaf.text = old) :
    Renaming.Seeks ⟨second, old, new, .declarations none⟩ tree path leaf := by
  obtain ⟨declaration, names⟩ := only path leaf isThere reads
  exact ⟨declaration, names, nofun, reads⟩

/-- The scopes hold a declaration of the old name exactly if some identifier reads it. -/
theorem isIdle_everywhere (inPlace : tree.declaresInPlace = true) (only : tree.OnlyDeclares old) :
    Renaming.isIdle ⟨first, old, new, .everywhere⟩ tree =
      Renaming.isIdle ⟨second, old, new, .declarations none⟩ tree := by
  cases idle : Renaming.isIdle ⟨second, old, new, .declarations none⟩ tree with
  | true =>
      refine beq_iff_eq.mpr (List.countP_eq_zero.mpr fun leaf isIn => ?_)
      rw [beq_iff_eq]
      intro reads
      obtain ⟨path, isThere⟩ := mem_identifiers_iff.mp isIn
      exact not_seeks_of_isIdle rfl inPlace idle path leaf
        (seeks_of_onlyDeclares second only isThere reads)
  | false =>
      obtain ⟨scope, isScope, source, isIn, isSource⟩ := exists_source_of_not_isIdle rfl idle
      obtain ⟨container, index, declares⟩ := declares_of_mem isScope isIn
      obtain ⟨leaf, isName, reads⟩ := Option.map_eq_some_iff.mp (isSource_iff.mp isSource).2
      refine beq_eq_false_iff_ne.mpr fun none => ?_
      exact List.countP_eq_zero.mp none leaf (name_mem_identifiers declares isName)
        (beq_iff_eq.mpr reads)

theorem at?_of_faceAt? {node : Node} {path : List Nat} {leaf : Token}
    (shows : node.faceAt? path = some (.ident leaf)) : node.at? path = some (.ident leaf) := by
  obtain ⟨found, isThere, isFace⟩ := Option.map_eq_some_iff.mp shows
  cases found with
  | ident leaf' =>
      obtain rfl := Face.ident.inj isFace
      exact isThere
  | token leaf' => exact nomatch isFace
  | branch construct label children => exact nomatch isFace

theorem rename_everywhere (only : tree.OnlyDeclares old) :
    Renaming.rename ⟨first, old, new, .everywhere⟩ tree =
      Renaming.rename ⟨second, old, new, .declarations none⟩ tree := by
  have sameRoot : tree.root.edit (Renaming.everywhereEdit ⟨first, old, new, .everywhere⟩) =
      Renaming.renameNames ⟨second, old, new, .declarations none⟩ tree.root := by
    refine eq_of_faceAt? _ _ fun path => ?_
    rw [faceAt?_edit (entersAll_everywhereEdit _), ofFace_everywhereEdit]
    by_cases seeks :
        ∃ leaf, Renaming.Seeks ⟨second, old, new, .declarations none⟩ tree path leaf
    · obtain ⟨leaf, seeks⟩ := seeks
      obtain ⟨declaration, names, _, reads⟩ := id seeks
      rw [faceAt?_of_seeks seeks, faceAt?_of_namesAt names, Option.map_some, Face.renamed,
        if_pos reads]
    · rw [faceAt?_of_not_seeks fun leaf isSought => seeks ⟨leaf, isSought⟩]
      cases shown : tree.root.faceAt? path with
      | none => rfl
      | some face =>
          cases face with
          | ident leaf =>
              have other : leaf.text ≠ old := by
                intro reads
                exact seeks ⟨leaf, seeks_of_onlyDeclares second only (at?_of_faceAt? shown) reads⟩
              rw [Option.map_some, Face.renamed, if_neg other]
          | token leaf => rfl
          | branch construct label size => rfl
  unfold Renaming.rename SyntaxTree.edit
  rw [sameRoot]

/-- The places where the name is read can be held against those where declarations have it. -/
theorem onlyDeclares_iff {name : String} :
    tree.OnlyDeclares name ↔ ∀ met, met ∈ Node.visited (fun _ => true) tree.root →
      met.2.ident?.map Token.text = some name →
        met.1 ∈ Renaming.namePlaces ⟨first, name, second, .declarations none⟩ tree := by
  constructor
  · rintro only ⟨path, node⟩ met nodeReads
    obtain ⟨leaf, isIdent, reads⟩ := Option.map_eq_some_iff.mp nodeReads
    obtain rfl := ident?_eq_some_iff.mp isIdent
    have isThere := at?_of_reaches ((mem_visited _ _ _).mp met)
    exact mem_namePlaces_iff.mpr ⟨leaf, seeks_of_onlyDeclares first only isThere reads⟩
  · intro places path leaf isThere reads
    have met := (mem_visited _ _ _).mpr (reaches_of_at? (fun _ => rfl) isThere)
    obtain ⟨leaf', declaration, names, _⟩ :=
      mem_namePlaces_iff.mp (places (path, .ident leaf) met (congrArg some reads))
    obtain rfl : leaf' = leaf := by
      have sameNode := (at?_of_faceAt? (faceAt?_of_namesAt names)).symm.trans isThere
      exact Node.ident.inj (Option.some.inj sameNode)
    exact ⟨declaration, names⟩

instance (name : String) : Decidable (tree.OnlyDeclares name) :=
  decidable_of_iff _ (onlyDeclares_iff "" "").symm

/-- Where every declaration is in place and every identifier that reads the old name is the name of a
declaration outside all blocks, renaming everywhere and renaming declarations of every kind do the
same: both leave the same tree, or both fail on a declaration of the same kind at the same line and
leave the tree as it was. -/
theorem renamings_agree_on_declarations (tree : SyntaxTree) (old new first second : String)
    (inPlace : tree.declaresInPlace = true) (only : tree.OnlyDeclares old) :
    (∃ after, Renaming.apply ⟨first, old, new, .everywhere⟩ tree = ⟨after, none⟩ ∧
        Renaming.apply ⟨second, old, new, .declarations none⟩ tree = ⟨after, none⟩) ∨
      ∃ kind line,
        Renaming.apply ⟨first, old, new, .everywhere⟩ tree =
          ⟨tree, some (.nameCollision old new kind line)⟩ ∧
        Renaming.apply ⟨second, old, new, .declarations none⟩ tree =
          ⟨tree, some (.nameCollision old new kind line)⟩ := by
  have same : Renaming.apply ⟨first, old, new, .everywhere⟩ tree =
      Renaming.apply ⟨second, old, new, .declarations none⟩ tree := by
    unfold Renaming.apply
    rw [isIdle_everywhere first second inPlace only, collision?_everywhere first second,
      rename_everywhere first second only]
    rfl
  rw [same]
  rcases apply_cases ⟨second, old, new, .declarations none⟩ tree with
    ⟨existing, _, applied⟩ | ⟨_, applied | applied⟩
  · exact Or.inr ⟨existing.kind, existing.line, applied, applied⟩
  · exact Or.inl ⟨_, applied, applied⟩
  · exact Or.inl ⟨_, applied, applied⟩

/-- A module, a function in another one, and a call of something else. -/
theorem renamings_agree_on_declarations_nested :
    ∃ tree after, parse "mod f;mod m\x7bfn f()\x7b\x7d\x7dfn h()\x7bk()\x7d" = .ok tree ∧
      tree.declaresInPlace = true ∧ tree.OnlyDeclares "f" ∧
      Renaming.apply ⟨"f to g", "f", "g", .everywhere⟩ tree = ⟨after, none⟩ ∧
      Renaming.apply ⟨"f to g", "f", "g", .declarations none⟩ tree = ⟨after, none⟩ ∧
      after.toSource = "mod g;mod m\x7bfn g()\x7b\x7d\x7dfn h()\x7bk()\x7d" := by
  obtain ⟨source, cst, isSource, isTree, inPlace, only, succeeds, text⟩ :
      ∃ source cst, source = "mod f;mod m\x7bfn f()\x7b\x7d\x7dfn h()\x7bk()\x7d" ∧
        concreteTree? source = some cst ∧ (convert source cst).declaresInPlace = true ∧
        (convert source cst).OnlyDeclares "f" ∧
        (Renaming.apply ⟨"f to g", "f", "g", .everywhere⟩ (convert source cst)).error = none ∧
        (Renaming.apply ⟨"f to g", "f", "g", .everywhere⟩ (convert source cst)).tree.toSource =
          "mod g;mod m\x7bfn g()\x7b\x7d\x7dfn h()\x7bk()\x7d" :=
    ⟨_, (concreteTree? "mod f;mod m\x7bfn f()\x7b\x7d\x7dfn h()\x7bk()\x7d").get (by decide +kernel),
      rfl, (Option.some_get _).symm, by decide +kernel, by decide +kernel, by decide +kernel,
      by decide +kernel⟩
  obtain ⟨after, everywhere, declarations⟩ | ⟨kind, line, everywhere, _⟩ :=
    renamings_agree_on_declarations (convert source cst) "f" "g" "f to g" "f to g" inPlace only
  · rw [everywhere] at text
    exact ⟨_, after, (parse_eq_ok_iff _ _).mpr ⟨cst, isSource ▸ isTree, isSource ▸ rfl⟩, inPlace,
      only, everywhere, declarations, text⟩
  · rw [everywhere] at succeeds
    exact nomatch succeeds

end

end Codemod
