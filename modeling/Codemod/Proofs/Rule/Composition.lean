import Codemod.Proofs.Rule.Image

/-!
Renaming in two steps.

A name that no identifier reads is a stop on the way from one name to another: at the stop nothing
is in the way, and the identifiers that read the name of the stop are those that have read the old
name. So the second step meets the declarations that a direct renaming would have met, and changes
the leaves that it would have changed.

Main statement: a renaming to a name that no identifier reads succeeds, and from there the way back
restores the tree and any other way ends as the direct one does.
-/

set_option autoImplicit false

namespace Codemod

open Codemod.Tree

/-! ### Names that no identifier reads -/

section

variable {tree : SyntaxTree} {name : String}

theorem nameText?_ne_of_unread (unread : tree.countIdentifier name = 0)
    {scope : List Declaration} (isScope : scope ∈ tree.scopes) {declaration : Declaration}
    (isIn : declaration ∈ scope) : declaration.nameText? ≠ some name := by
  intro reads
  obtain ⟨container, index, declares⟩ := declares_of_mem isScope isIn
  obtain ⟨leaf, isName, rfl⟩ := Option.map_eq_some_iff.mp reads
  have isIdentifier := name_mem_identifiers declares isName
  exact List.countP_eq_zero.mp unread leaf isIdentifier (beq_self_eq_true leaf.text)

theorem collision?_of_unread {rule : Renaming} (unread : tree.countIdentifier rule.new = 0) :
    rule.collision? tree = none := by
  apply Classical.byContradiction
  intro found
  obtain ⟨scope, isScope, _, _, existing, isIn, inTheWay⟩ := collision?_ne_none_iff.mp found
  exact nameText?_ne_of_unread unread isScope isIn inTheWay.taken

/-- Without a collision, a renaming that reaches everywhere changes every identifier that reads the
old name, also if there is none. -/
theorem apply_everywhere_of_free {rule : Renaming} (everywhere : rule.reach = .everywhere)
    (free : rule.collision? tree = none) :
    rule.apply tree = ⟨tree.edit rule.everywhereEdit, none⟩ := by
  refine apply_everywhere everywhere ?_
  rw [error_eq, free]
  rfl

end

/-! ### By way of a name that no identifier reads -/

section

variable {tree : SyntaxTree} {old between new : String} (first second direct : String)

/-- A leaf that does not read the name of the stop is changed in two steps as in one. -/
theorem renameLeaf_renameLeaf {leaf : Token} (other : leaf.text ≠ between) :
    Renaming.renameLeaf ⟨second, between, new, .everywhere⟩
        (Renaming.renameLeaf ⟨first, old, between, .everywhere⟩ leaf) =
      Renaming.renameLeaf ⟨direct, old, new, .everywhere⟩ leaf := by
  unfold Renaming.renameLeaf
  by_cases reads : leaf.text = old
  · rw [if_pos reads, if_pos rfl, if_pos reads]
  · rw [if_neg reads, if_neg reads, if_neg other]

theorem edit_edit_everywhere (unread : tree.countIdentifier between = 0) :
    (tree.edit (Renaming.everywhereEdit ⟨first, old, between, .everywhere⟩)).edit
        (Renaming.everywhereEdit ⟨second, between, new, .everywhere⟩) =
      tree.edit (Renaming.everywhereEdit ⟨direct, old, new, .everywhere⟩) := by
  have sameRoot : (tree.root.edit (Renaming.everywhereEdit ⟨first, old, between, .everywhere⟩)).edit
      (Renaming.everywhereEdit ⟨second, between, new, .everywhere⟩) =
        tree.root.edit (Renaming.everywhereEdit ⟨direct, old, new, .everywhere⟩) := by
    rw [edit_edit (entersAll_everywhereEdit _) (entersAll_everywhereEdit _)]
    refine edit_congr (entersAll_andThen (entersAll_everywhereEdit _) (entersAll_everywhereEdit _))
      (entersAll_everywhereEdit _) tree.root ?_
    rintro ⟨isIdent, leaf⟩ isIn
    cases isIdent with
    | false => rfl
    | true =>
        have isIdentifier : leaf ∈ tree.identifiers := by
          change leaf ∈ tree.root.identifiers
          rw [identifiers_eq_marked]
          exact List.mem_map.mpr ⟨(true, leaf), List.mem_filter.mpr ⟨isIn, rfl⟩, rfl⟩
        have other : leaf.text ≠ between := by
          intro reads
          exact List.countP_eq_zero.mp unread leaf isIdentifier (beq_iff_eq.mpr reads)
        exact congrArg (Prod.mk true) (renameLeaf_renameLeaf first second direct other)
  unfold SyntaxTree.edit
  rw [sameRoot]

theorem edit_same_name (name : String) (tree : SyntaxTree) :
    tree.edit (Renaming.everywhereEdit ⟨direct, name, name, .everywhere⟩) = tree := by
  have sameRoot :
      tree.root.edit (Renaming.everywhereEdit ⟨direct, name, name, .everywhere⟩) = tree.root := by
    refine edit_eq_self (entersAll_everywhereEdit _) tree.root ?_
    rintro ⟨isIdent, leaf⟩ _
    cases isIdent with
    | false => rfl
    | true =>
        refine congrArg (Prod.mk true) ?_
        change (if leaf.text = name then { leaf with text := name } else leaf) = leaf
        split
        · rename_i reads
          rw [← reads]
        · rfl
  unfold SyntaxTree.edit
  rw [sameRoot]

/-- The second step looks for the declarations that the direct renaming looks for. -/
theorem follows_of_unread (differ : between ≠ new) (notBack : new ≠ old)
    (unread : tree.countIdentifier between = 0) :
    Renaming.Follows ⟨first, old, between, .everywhere⟩ ⟨direct, old, new, .everywhere⟩
      ⟨second, between, new, .everywhere⟩ tree where
  source scope isScope declaration isIn := by
    have other := nameText?_ne_of_unread unread isScope isIn
    unfold Renaming.isSource
    rw [(redeclares_redeclare _ declaration).nameText]
    unfold Renaming.isSource
    simp only [Reach.admits, Bool.true_and, beq_iff_eq]
    split
    · rename_i reads
      rw [reads, beq_self_eq_true, beq_self_eq_true]
    · rename_i notSource
      rw [beq_eq_false_iff_ne.mpr other, beq_eq_false_iff_ne.mpr notSource]
  taken scope isScope declaration isIn := reads_redeclare _ notBack differ.symm declaration

/-- From `old` to `between`, which no identifier reads, a renaming succeeds. From there the way back
to `old` restores the tree. Any other way to `new` ends as the renaming from `old` to `new` does:
both leave the same tree, or both fail on a declaration of the same kind at the same line. -/
theorem renamings_compose (tree : SyntaxTree) (old between new first second direct : String)
    (differ : old ≠ between) (differ' : between ≠ new) (unread : tree.countIdentifier between = 0) :
    let middle := (Renaming.apply ⟨first, old, between, .everywhere⟩ tree).tree
    (Renaming.apply ⟨first, old, between, .everywhere⟩ tree).error = none ∧
      (new = old → Renaming.apply ⟨second, between, new, .everywhere⟩ middle = ⟨tree, none⟩) ∧
      (new ≠ old →
        (∃ after, Renaming.apply ⟨direct, old, new, .everywhere⟩ tree = ⟨after, none⟩ ∧
          Renaming.apply ⟨second, between, new, .everywhere⟩ middle = ⟨after, none⟩) ∨
        ∃ kind line,
          Renaming.apply ⟨direct, old, new, .everywhere⟩ tree =
            ⟨tree, some (.nameCollision old new kind line)⟩ ∧
          Renaming.apply ⟨second, between, new, .everywhere⟩ middle =
            ⟨middle, some (.nameCollision between new kind line)⟩) := by
  have applied : Renaming.apply ⟨first, old, between, .everywhere⟩ tree =
      ⟨tree.edit (Renaming.everywhereEdit ⟨first, old, between, .everywhere⟩), none⟩ :=
    apply_everywhere_of_free rfl (collision?_of_unread unread)
  have composed : (tree.edit (Renaming.everywhereEdit ⟨first, old, between, .everywhere⟩)).edit
        (Renaming.everywhereEdit ⟨second, between, new, .everywhere⟩) =
      tree.edit (Renaming.everywhereEdit ⟨direct, old, new, .everywhere⟩) :=
    edit_edit_everywhere first second direct unread
  rw [applied]
  refine ⟨rfl, ?_, fun notBack => ?_⟩
  · rintro rfl
    -- The first step has taken the old name away, so nothing is in the way back.
    have gone : (tree.edit (Renaming.everywhereEdit
        ⟨first, new, between, .everywhere⟩)).countIdentifier new = 0 :=
      count_old_edit tree differ
    have back : Renaming.apply ⟨second, between, new, .everywhere⟩
        (tree.edit (Renaming.everywhereEdit ⟨first, new, between, .everywhere⟩)) = ⟨_, none⟩ :=
      apply_everywhere_of_free rfl (collision?_of_unread gone)
    rw [back, composed, edit_same_name]
  · have image : Renaming.collision? ⟨second, between, new, .everywhere⟩
        (tree.edit (Renaming.everywhereEdit ⟨first, old, between, .everywhere⟩)) = _ :=
      collision?_rename (follows_of_unread first second direct differ' notBack unread)
    cases found : Renaming.collision? ⟨direct, old, new, .everywhere⟩ tree with
    | some existing =>
        rw [found] at image
        refine Or.inr ⟨existing.kind, existing.line, apply_of_collision? found, ?_⟩
        rw [apply_of_collision? image, collisionError_redeclare]
        rfl
    | none =>
        rw [found] at image
        refine Or.inl ⟨_, apply_everywhere_of_free rfl found, ?_⟩
        rw [apply_everywhere_of_free rfl image, composed]

/-- On the way back the tree is restored. On the way to `h` both renamings meet the module `h`, and
not the function before it, which is in no namespace of a module. -/
theorem renamings_compose_modules :
    ∃ tree, parse "mod f;fn h()\x7bf()\x7d\nmod h;" = .ok tree ∧ tree.countIdentifier "g" = 0 ∧
      (Renaming.apply ⟨"f to g", "f", "g", .everywhere⟩ tree).tree.countIdentifier "g" = 2 ∧
      Renaming.apply ⟨"g to f", "g", "f", .everywhere⟩
        (Renaming.apply ⟨"f to g", "f", "g", .everywhere⟩ tree).tree = ⟨tree, none⟩ ∧
      ∃ kind line,
        Renaming.apply ⟨"f to h", "f", "h", .everywhere⟩ tree =
          ⟨tree, some (.nameCollision "f" "h" kind line)⟩ ∧
        Renaming.apply ⟨"g to h", "g", "h", .everywhere⟩
            (Renaming.apply ⟨"f to g", "f", "g", .everywhere⟩ tree).tree =
          ⟨(Renaming.apply ⟨"f to g", "f", "g", .everywhere⟩ tree).tree,
            some (.nameCollision "g" "h" kind line)⟩ := by
  obtain ⟨cst, isTree, unread, two, fails⟩ :
      ∃ cst, concreteTree? "mod f;fn h()\x7bf()\x7d\nmod h;" = some cst ∧
        (convert "mod f;fn h()\x7bf()\x7d\nmod h;" cst).countIdentifier "g" = 0 ∧
        (Renaming.apply ⟨"f to g", "f", "g", .everywhere⟩
          (convert "mod f;fn h()\x7bf()\x7d\nmod h;" cst)).tree.countIdentifier "g" = 2 ∧
        (Renaming.apply ⟨"f to h", "f", "h", .everywhere⟩
          (convert "mod f;fn h()\x7bf()\x7d\nmod h;" cst)).error ≠ none :=
    ⟨(concreteTree? "mod f;fn h()\x7bf()\x7d\nmod h;").get (by decide +kernel),
      (Option.some_get _).symm, by decide +kernel, by decide +kernel, by decide +kernel⟩
  have back := renamings_compose _ "f" "g" "f" "f to g" "g to f" "f to f" (by decide) (by decide)
    unread
  have onward := renamings_compose _ "f" "g" "h" "f to g" "g to h" "f to h" (by decide) (by decide)
    unread
  refine ⟨_, (parse_eq_ok_iff _ _).mpr ⟨cst, isTree, rfl⟩, unread, two, back.2.1 rfl, ?_⟩
  rcases onward.2.2 (by decide) with ⟨after, succeeds, _⟩ | collides
  · rw [succeeds] at fails
    exact absurd rfl fails
  · exact collides

end

end Codemod
