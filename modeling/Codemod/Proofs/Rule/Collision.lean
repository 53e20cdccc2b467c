import Codemod.Proofs.Tree.Convert
import Codemod.Proofs.Tree.Scope
import Codemod.Rule.Renaming

/-!
Renaming fails exactly where names would collide.

A collision is a pair of declarations of one scope: one that is about to be renamed, and one of the
new name that shares a namespace with it.

Main statement: a renaming fails if and only if there is a collision. It then names the first
declaration in the way of the first one about to be renamed, in the first scope that has a collision,
and leaves the tree as it was.
-/

set_option autoImplicit false

namespace Codemod

open Codemod.Tree

/-- A declaration about to be renamed, and one of the new name that shares a namespace with it. -/
structure Renaming.InTheWay (rule : Renaming) (source existing : Declaration) : Prop where
  ofKind : ∀ kind, rule.reach = .declarations (some kind) → source.kind = kind
  reads : source.nameText? = some rule.old
  taken : existing.nameText? = some rule.new
  shared : ∃ space, space ∈ source.namespaces ∧ space ∈ existing.namespaces

/-- Two children of the container at a place collide. -/
def Renaming.CollidesAt (rule : Renaming) (tree : SyntaxTree) (container : List Nat)
    (source existing : Nat) : Prop :=
  ∃ renamed inTheWay, tree.Declares container source renamed ∧
    tree.Declares container existing inTheWay ∧ rule.InTheWay renamed inTheWay

section

variable {rule : Renaming} {tree : SyntaxTree}

theorem admits_iff {reach : Reach} {kind : DeclKind} :
    reach.admits kind = true ↔ ∀ only, reach = .declarations (some only) → kind = only := by
  cases reach with
  | everywhere => exact iff_of_true rfl nofun
  | declarations only? =>
      cases only? with
      | none => exact iff_of_true rfl nofun
      | some only =>
          constructor
          · rintro admitted _ ⟨rfl⟩
            exact (beq_iff_eq.mp admitted).symm
          · intro same
            exact beq_iff_eq.mpr (same only rfl).symm

theorem sharesNamespace_iff {left right : Declaration} :
    left.sharesNamespace right = true ↔
      ∃ space, space ∈ left.namespaces ∧ space ∈ right.namespaces := by
  unfold Declaration.sharesNamespace
  simp only [List.any_eq_true, List.contains_iff_mem]

theorem isSource_iff {declaration : Declaration} :
    rule.isSource declaration = true ↔
      (∀ kind, rule.reach = .declarations (some kind) → declaration.kind = kind) ∧
        declaration.nameText? = some rule.old := by
  unfold Renaming.isSource
  rw [Bool.and_eq_true, admits_iff, beq_iff_eq]

theorem inTheWay_iff {source existing : Declaration} :
    rule.InTheWay source existing ↔
      rule.isSource source = true ∧ rule.isInTheWay source existing = true := by
  unfold Renaming.isInTheWay
  rw [isSource_iff, Bool.and_eq_true, sharesNamespace_iff, beq_iff_eq]
  constructor
  · rintro ⟨ofKind, reads, taken, space, inSource, inExisting⟩
    exact ⟨⟨ofKind, reads⟩, taken, space, inExisting, inSource⟩
  · rintro ⟨⟨ofKind, reads⟩, taken, space, inExisting, inSource⟩
    exact ⟨ofKind, reads, taken, space, inSource, inExisting⟩

/-! ### Inside one scope -/

/-- A scope has a declaration in the way exactly if two of its declarations collide. -/
theorem collisionIn?_ne_none_iff {scope : List Declaration} :
    rule.collisionIn? scope ≠ none ↔
      ∃ source, source ∈ scope ∧ ∃ existing, existing ∈ scope ∧ rule.InTheWay source existing := by
  unfold Renaming.collisionIn?
  rw [Option.ne_none_iff_isSome, List.findSome?_isSome_iff]
  constructor
  · rintro ⟨source, isIn, found⟩
    obtain ⟨isScope, isSource⟩ := List.mem_filter.mp isIn
    obtain ⟨existing, existingIn, isInTheWay⟩ := List.find?_isSome.mp found
    exact ⟨source, isScope, existing, existingIn, inTheWay_iff.mpr ⟨isSource, isInTheWay⟩⟩
  · rintro ⟨source, isScope, existing, existingIn, collides⟩
    obtain ⟨isSource, isInTheWay⟩ := inTheWay_iff.mp collides
    exact ⟨source, List.mem_filter.mpr ⟨isScope, isSource⟩,
      List.find?_isSome.mpr ⟨existing, existingIn, isInTheWay⟩⟩

/-- The declaration found in a scope is the first one in the way of the first one that has one in
its way. -/
theorem first_of_collisionIn? {children : List Node} {existing : Declaration}
    (found : rule.collisionIn? (children.filterMap Node.declaration?) = some existing) :
    ∃ i j source, (i, source) ∈ declared children ∧ (j, existing) ∈ declared children ∧
      rule.InTheWay source existing ∧
      (∀ i' j' source' existing', (i', source') ∈ declared children →
        (j', existing') ∈ declared children → rule.InTheWay source' existing' → i ≤ i') ∧
      (∀ j' existing', (j', existing') ∈ declared children → rule.InTheWay source existing' →
        j ≤ j') := by
  have ordered : (declared children).Pairwise fun earlier later => earlier.1 ≤ later.1 :=
    (declared_ordered children).imp Nat.le_of_lt
  have reflexive (item : Nat × Declaration) : item.1 ≤ item.1 := Nat.le_refl _
  unfold Renaming.collisionIn? at found
  rw [← map_declared, List.filter_map, List.findSome?_map] at found
  obtain ⟨⟨i, source⟩, isIn, foundWay, firstSource⟩ :=
    first_of_findSome? reflexive (ordered.filter _) found
  obtain ⟨sourceIn, isSource⟩ := List.mem_filter.mp isIn
  rw [Function.comp_apply, List.find?_map, List.find?_eq_findSome?_guard,
    Option.map_eq_some_iff] at foundWay
  obtain ⟨⟨j, _⟩, foundAt, rfl⟩ := foundWay
  obtain ⟨item, existingIn, guarded, firstWay⟩ := first_of_findSome? reflexive ordered foundAt
  obtain ⟨rfl, isInTheWay⟩ := Option.guard_eq_some_iff.mp guarded
  refine ⟨i, j, source, sourceIn, existingIn, inTheWay_iff.mpr ⟨isSource, isInTheWay⟩, ?_, ?_⟩
  · intro i' j' source' existing' sourceIn' existingIn' collides
    obtain ⟨isSource', isInTheWay'⟩ := inTheWay_iff.mp collides
    have passes : ((declared children).map (·.2)).find? (rule.isInTheWay source') ≠ none :=
      Option.ne_none_iff_isSome.mpr
        (List.find?_isSome.mpr ⟨existing', List.mem_map.mpr ⟨_, existingIn', rfl⟩, isInTheWay'⟩)
    exact firstSource (i', source') (List.mem_filter.mpr ⟨sourceIn', isSource'⟩) passes
  · intro j' existing' existingIn' collides
    have passes : Option.guard (rule.isInTheWay source ∘ (·.2)) (j', existing') ≠ none := by
      rw [Option.guard_pos]
      · exact nofun
      · exact (inTheWay_iff.mp collides).2
    exact firstWay (j', existing') existingIn' passes

/-! ### In the whole tree -/

theorem collision?_ne_none_iff :
    rule.collision? tree ≠ none ↔
      ∃ scope, scope ∈ tree.scopes ∧ ∃ source, source ∈ scope ∧ ∃ existing, existing ∈ scope ∧
        rule.InTheWay source existing := by
  unfold Renaming.collision?
  rw [Option.ne_none_iff_isSome, List.findSome?_isSome_iff]
  simp only [← Option.ne_none_iff_isSome, collisionIn?_ne_none_iff]

theorem collision?_eq_visited (rule : Renaming) (tree : SyntaxTree) :
    rule.collision? tree =
      (tree.root.visited outsideBlocks).findSome? fun met => met.2.scope?.bind rule.collisionIn? := by
  change tree.root.scopes.findSome? rule.collisionIn? = _
  rw [scopes_eq_visited, findSome?_filterMap]

/-- Where two children of a container collide, the search of its scope finds a declaration. -/
theorem collisionIn?_of_collidesAt {container : List Nat} {i j : Nat}
    (collides : rule.CollidesAt tree container i j) :
    ∃ children, tree.Opens container children ∧
      rule.collisionIn? (children.filterMap Node.declaration?) ≠ none := by
  obtain ⟨source, existing, ⟨children, opens, sourceThere⟩, ⟨children', opens', existingThere⟩,
    inTheWay⟩ := collides
  obtain rfl := opens_unique opens opens'
  have inScope {index : Nat} {declaration : Declaration}
      (isThere : children[index]?.bind Node.declaration? = some declaration) :
      declaration ∈ children.filterMap Node.declaration? := by
    rw [← map_declared]
    exact List.mem_map.mpr ⟨_, mem_declared.mpr isThere, rfl⟩
  exact ⟨children, opens, collisionIn?_ne_none_iff.mpr
    ⟨source, inScope sourceThere, existing, inScope existingThere, inTheWay⟩⟩

theorem collision?_of_collidesAt {container : List Nat} {i j : Nat}
    (collides : rule.CollidesAt tree container i j) : rule.collision? tree ≠ none := by
  obtain ⟨children, opens, found⟩ := collisionIn?_of_collidesAt collides
  exact collision?_ne_none_iff.mpr
    ⟨_, mem_scopes_iff.mpr ⟨container, children, opens, rfl⟩, collisionIn?_ne_none_iff.mp found⟩

theorem first_of_collision? {existing : Declaration} (found : rule.collision? tree = some existing) :
    ∃ container i j source, tree.Declares container i source ∧ tree.Declares container j existing ∧
      rule.InTheWay source existing ∧
      (∀ container' i' j', rule.CollidesAt tree container' i' j' → container ≤ container') ∧
      (∀ i' j', rule.CollidesAt tree container i' j' → i ≤ i') ∧
      (∀ j', rule.CollidesAt tree container i j' → j ≤ j') := by
  rw [collision?_eq_visited] at found
  obtain ⟨container, node, reached, passes, leastPlace⟩ :=
    least_place (fun node => node.scope?.bind rule.collisionIn?) found
  obtain ⟨scope, isScope, foundHere⟩ := Option.bind_eq_some_iff.mp passes
  obtain ⟨construct, label, children, isOpen, rfl, rfl⟩ := scope?_eq_some_iff.mp isScope
  have opens : tree.Opens container children := ⟨construct, label, isOpen, reached⟩
  -- A container has only one list of children, so all that is declared in it is among them.
  have among {index : Nat} {declaration : Declaration}
      (declares : tree.Declares container index declaration) :
      (index, declaration) ∈ declared children := by
    obtain ⟨children', opens', isThere⟩ := declares
    rw [opens_unique opens opens']
    exact mem_declared.mpr isThere
  obtain ⟨i, j, source, sourceIn, existingIn, collides, firstSource, firstWay⟩ :=
    first_of_collisionIn? foundHere
  refine ⟨container, i, j, source, ⟨children, opens, mem_declared.mp sourceIn⟩,
    ⟨children, opens, mem_declared.mp existingIn⟩, collides, ?_, ?_, ?_⟩
  · intro container' i' j' collides'
    obtain ⟨children', ⟨construct', label', isOpen', reached'⟩, foundThere⟩ :=
      collisionIn?_of_collidesAt collides'
    refine leastPlace container' _ reached' ?_
    rw [scope?_eq_some_iff.mpr ⟨construct', label', children', isOpen', rfl, rfl⟩]
    exact foundThere
  · rintro i' j' ⟨source', existing', declares, declares', collides'⟩
    exact firstSource i' j' source' existing' (among declares) (among declares') collides'
  · rintro j' ⟨source', existing', declares, declares', collides'⟩
    have sameSource : source' = source :=
      Option.some.inj ((mem_declared.mp (among declares)).symm.trans (mem_declared.mp sourceIn))
    exact firstWay j' existing' (among declares') (sameSource ▸ collides')

/-! ### What a renaming does -/

/-- A rule that finds nothing to rename does not overlook a collision. -/
theorem collision?_of_isIdle (idle : rule.isIdle tree = true) : rule.collision? tree = none := by
  cases found : rule.collision? tree with
  | none => rfl
  | some existing =>
      exfalso
      obtain ⟨container, i, j, source, declares, _, inTheWay, _⟩ := first_of_collision? found
      unfold Renaming.isIdle at idle
      split at idle
      · obtain ⟨leaf, isName, reads⟩ := Option.map_eq_some_iff.mp inTheWay.reads
        have none := List.countP_eq_zero.mp (beq_iff_eq.mp idle)
        exact none leaf (name_mem_identifiers declares isName) (beq_iff_eq.mpr reads)
      · obtain ⟨scope, isScope, isIn⟩ := exists_scope_of_declares declares
        have isSource := (inTheWay_iff.mp inTheWay).1
        have some : (tree.scopes.any fun scope => scope.any rule.isSource) = true :=
          List.any_eq_true.mpr ⟨scope, isScope, List.any_eq_true.mpr ⟨source, isIn, isSource⟩⟩
        rw [some] at idle
        exact nomatch idle

/-- A renaming fails on a collision and leaves the tree alone. Without one it succeeds, and renames
unless there is nothing to rename. -/
theorem apply_cases (rule : Renaming) (tree : SyntaxTree) :
    (∃ existing, rule.collision? tree = some existing ∧
        rule.apply tree = ⟨tree, some (rule.collisionError existing)⟩) ∨
      (rule.collision? tree = none ∧
        (rule.apply tree = ⟨tree, none⟩ ∨ rule.apply tree = ⟨rule.rename tree, none⟩)) := by
  unfold Renaming.apply
  split
  · rename_i idle
    exact Or.inr ⟨collision?_of_isIdle idle, Or.inl rfl⟩
  · split
    · rename_i existing found
      exact Or.inl ⟨existing, found, rfl⟩
    · rename_i found
      exact Or.inr ⟨found, Or.inr rfl⟩

theorem tree_apply (rule : Renaming) (tree : SyntaxTree) :
    (rule.apply tree).tree = tree ∨
      (rule.collision? tree = none ∧ (rule.apply tree).tree = rule.rename tree) := by
  rcases apply_cases rule tree with ⟨existing, _, applied⟩ | ⟨found, applied | applied⟩
  · exact Or.inl (congrArg RuleResult.tree applied)
  · exact Or.inl (congrArg RuleResult.tree applied)
  · exact Or.inr ⟨found, congrArg RuleResult.tree applied⟩

theorem error_eq (rule : Renaming) (tree : SyntaxTree) :
    (rule.apply tree).error = (rule.collision? tree).map rule.collisionError := by
  rcases apply_cases rule tree with ⟨existing, found, applied⟩ | ⟨found, applied | applied⟩
  · rw [applied, found]
    rfl
  · rw [applied, found]
    rfl
  · rw [applied, found]
    rfl

theorem apply_of_collision? {existing : Declaration} (found : rule.collision? tree = some existing) :
    rule.apply tree = ⟨tree, some (rule.collisionError existing)⟩ := by
  rcases apply_cases rule tree with ⟨_, found', applied⟩ | ⟨free, _⟩
  · obtain rfl := Option.some.inj (found.symm.trans found')
    exact applied
  · exact nomatch free.symm.trans found

/-- A renaming fails exactly if some scope holds a declaration about to be renamed and one of the new
name that shares a namespace with it. The only error is a collision; the tree stays as it was. The
error tells the kind of a declaration in the way and the line of its name: the first one in the way of
the first one about to be renamed, in the first container with a collision. A container stands outside
all blocks, and both declarations are children of it. -/
theorem collision_errors_exact (rule : Renaming) (tree : SyntaxTree) :
    ((rule.apply tree).error ≠ none ↔
      ∃ scope, scope ∈ tree.scopes ∧ ∃ source, source ∈ scope ∧ ∃ existing, existing ∈ scope ∧
        rule.InTheWay source existing) ∧
      ∀ error, (rule.apply tree).error = some error →
        (rule.apply tree).tree = tree ∧
        ∃ container i j source existing leaf,
          tree.Declares container i source ∧ tree.Declares container j existing ∧
          rule.InTheWay source existing ∧
          (∀ container' i' j', rule.CollidesAt tree container' i' j' → container ≤ container') ∧
          (∀ i' j', rule.CollidesAt tree container i' j' → i ≤ i') ∧
          (∀ j', rule.CollidesAt tree container i j' → j ≤ j') ∧
          existing.name? = some leaf ∧
          error = .nameCollision rule.old rule.new existing.kind leaf.span.line := by
  refine ⟨?_, ?_⟩
  · rw [error_eq, ne_eq, Option.map_eq_none_iff]
    exact collision?_ne_none_iff
  intro error fails
  rcases apply_cases rule tree with ⟨existing, found, applied⟩ | ⟨_, applied | applied⟩
  · rw [applied] at fails ⊢
    obtain ⟨container, i, j, source, declares, declares', inTheWay, firstContainer, firstSource,
      firstWay⟩ := first_of_collision? found
    obtain ⟨leaf, isName, _⟩ := Option.map_eq_some_iff.mp inTheWay.taken
    refine ⟨rfl, container, i, j, source, existing, leaf, declares, declares', inTheWay,
      firstContainer, firstSource, firstWay, isName, ?_⟩
    rw [← Option.some.inj fails, Renaming.collisionError, Declaration.line, isName]
  · rw [applied] at fails
    exact nomatch fails
  · rw [applied] at fails
    exact nomatch fails

/-- A module with a function `g`, and with modules `g` and `f` on the next line; behind it a function
`f` whose block holds a module `g`. -/
def nestedSource : String :=
  "mod m\x7bfn g()\x7b\x7d\nmod g;mod f;\x7dfn f()\x7bmod g;\x7d"

/-- Neither the function `g` is in the way, which is in no namespace of a module, nor the module `g`
of the block, which is no scope. -/
theorem collision_errors_exact_nested :
    ∃ tree, parse nestedSource = .ok tree ∧
      (Renaming.apply ⟨"f to g", "f", "g", .everywhere⟩ tree).tree = tree ∧
      (Renaming.apply ⟨"f to g", "f", "g", .everywhere⟩ tree).error =
        some (.nameCollision "f" "g" .module 2) ∧
      ∃ scope, scope ∈ tree.scopes ∧ ∃ source, source ∈ scope ∧ ∃ existing, existing ∈ scope ∧
        Renaming.InTheWay ⟨"f to g", "f", "g", .everywhere⟩ source existing := by
  obtain ⟨cst, isTree, fails⟩ :
      ∃ cst, concreteTree? nestedSource = some cst ∧
        (Renaming.apply ⟨"f to g", "f", "g", .everywhere⟩ (convert nestedSource cst)).error =
          some (.nameCollision "f" "g" .module 2) :=
    ⟨(concreteTree? nestedSource).get (by decide +kernel), (Option.some_get _).symm,
      by decide +kernel⟩
  have isParsed := (parse_eq_ok_iff nestedSource _).mpr ⟨cst, isTree, rfl⟩
  obtain ⟨failsIff, onFailure⟩ :=
    collision_errors_exact ⟨"f to g", "f", "g", .everywhere⟩ (convert nestedSource cst)
  refine ⟨_, isParsed, (onFailure _ fails).1, fails, failsIff.mp ?_⟩
  rw [fails]
  exact nofun

end

end Codemod
