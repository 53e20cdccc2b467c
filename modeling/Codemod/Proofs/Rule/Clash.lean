import Mathlib.Data.List.Pairwise
import Codemod.Proofs.Rule.Collision
import Codemod.Proofs.Rule.Pipeline
import Codemod.Proofs.Rule.Redeclaration

/-!
Renaming makes no declarations clash.

Two declarations of a scope that read the same after a renaming have read the same before, or one of
them has had the new name already. Then they collide if they share a namespace, and the renaming
fails.

Main statement: what clashes after a run of renamings has clashed before it.
-/

set_option autoImplicit false

namespace Codemod

open Codemod.Files (Path)
open Codemod.Tree

/-- Two children of the container at a place are declarations of the same name that share a
namespace. -/
def Tree.SyntaxTree.Clash (tree : SyntaxTree) (container : List Nat) (left right : Nat) : Prop :=
  left ≠ right ∧ ∃ first second name space,
    tree.Declares container left first ∧ tree.Declares container right second ∧
    first.nameText? = some name ∧ second.nameText? = some name ∧
    space ∈ first.namespaces ∧ space ∈ second.namespaces

/-- No two declarations of a scope have both a name and a namespace in common. -/
def Tree.SyntaxTree.ClashFree (tree : SyntaxTree) : Prop :=
  ∀ container left right, ¬ tree.Clash container left right

section

variable {rule : Renaming} {tree : SyntaxTree} {container : List Nat} {left right : Nat}

/-! ### Clashes inside the scopes -/

/-- Two declarations have a name and a namespace in common. -/
def Tree.Declaration.clashes (first second : Declaration) : Bool :=
  first.nameText?.isSome && first.nameText? == second.nameText? && first.sharesNamespace second

theorem clashes_iff {first second : Declaration} :
    first.clashes second = true ↔ ∃ name space, first.nameText? = some name ∧
      second.nameText? = some name ∧ space ∈ first.namespaces ∧ space ∈ second.namespaces := by
  unfold Declaration.clashes
  rw [Bool.and_eq_true, Bool.and_eq_true, beq_iff_eq, Option.isSome_iff_exists,
    sharesNamespace_iff]
  constructor
  · rintro ⟨⟨⟨name, reads⟩, same⟩, space, shared⟩
    exact ⟨name, space, reads, same ▸ reads, shared⟩
  · rintro ⟨name, space, reads, reads', shared⟩
    exact ⟨⟨⟨name, reads⟩, reads.trans reads'.symm⟩, space, shared⟩

theorem clashes_symm {first second : Declaration} (apart : ¬ first.clashes second = true) :
    ¬ second.clashes first = true := by
  intro clash
  obtain ⟨name, space, reads, reads', inFirst, inSecond⟩ := clashes_iff.mp clash
  exact apart (clashes_iff.mpr ⟨name, space, reads', reads, inSecond, inFirst⟩)

theorem clashFree_iff_scopes :
    tree.ClashFree ↔
      ∀ scope, scope ∈ tree.scopes → scope.Pairwise fun first second =>
        ¬ first.clashes second = true := by
  constructor
  · intro free scope isScope
    obtain ⟨container, children, opens, rfl⟩ := mem_scopes_iff.mp isScope
    rw [← map_declared, List.pairwise_map]
    refine (declared_ordered children).imp_of_mem fun isIn isIn' before clash => ?_
    obtain ⟨name, space, reads, reads', inFirst, inSecond⟩ := clashes_iff.mp clash
    exact free container _ _ ⟨Nat.ne_of_lt before, _, _, name, space,
      ⟨children, opens, mem_declared.mp isIn⟩, ⟨children, opens, mem_declared.mp isIn'⟩, reads,
      reads', inFirst, inSecond⟩
  · rintro apart container left right ⟨differ, first, second, name, space, ⟨children, opens, isFirst⟩,
      ⟨children', opens', isSecond⟩, reads, reads', inFirst, inSecond⟩
    obtain rfl := opens_unique opens opens'
    have pairwise := apart _ (mem_scopes_iff.mpr ⟨container, children, opens, rfl⟩)
    rw [← map_declared, List.pairwise_map] at pairwise
    have differ' : (left, first) ≠ (right, second) := fun same => differ (Prod.mk.inj same).1
    have symm : Std.Symm fun one other : Nat × Declaration => ¬ one.2.clashes other.2 = true :=
      ⟨fun _ _ => clashes_symm⟩
    exact pairwise.forall (mem_declared.mpr isFirst) (mem_declared.mpr isSecond) differ'
      (clashes_iff.mpr ⟨name, space, reads, reads', inFirst, inSecond⟩)

theorem Tree.SyntaxTree.ClashFree.apart (free : tree.ClashFree) {scope : List Declaration}
    (isScope : scope ∈ tree.scopes) {first second : Declaration} (isFirst : first ∈ scope)
    (isSecond : second ∈ scope) (differ : first ≠ second) : ¬ first.clashes second = true := by
  have symm : Std.Symm fun one other : Declaration => ¬ one.clashes other = true :=
    ⟨fun _ _ => clashes_symm⟩
  exact (clashFree_iff_scopes.mp free scope isScope).forall isFirst isSecond differ

instance (tree : SyntaxTree) : Decidable tree.ClashFree :=
  decidable_of_iff _ clashFree_iff_scopes.symm

/-! ### Clashes behind a renaming -/

theorem clash_of_rename (free : rule.collision? tree = none)
    (clash : (rule.rename tree).Clash container left right) :
    tree.Clash container left right := by
  obtain ⟨differ, first', second', name, space, declares, declares', reads, reads', inFirst,
    inSecond⟩ := clash
  obtain ⟨first, isFirst, redeclares⟩ := declares_rename declares
  obtain ⟨second, isSecond, redeclares'⟩ := declares_rename declares'
  rw [redeclares.nameText] at reads
  rw [redeclares'.nameText] at reads'
  rw [redeclares.namespaces_eq] at inFirst
  rw [redeclares'.namespaces_eq] at inSecond
  -- A declaration that has been renamed and one that has had the new name before collide.
  have apart {i j : Nat} {source existing : Declaration} (isSource : rule.isSource source = true)
      (declaresSource : tree.Declares container i source)
      (declaresExisting : tree.Declares container j existing)
      (inSource : space ∈ source.namespaces) (inExisting : space ∈ existing.namespaces) :
      existing.nameText? ≠ some rule.new := by
    intro taken
    obtain ⟨ofKind, readsOld⟩ := isSource_iff.mp isSource
    exact collision?_of_collidesAt ⟨source, existing, declaresSource, declaresExisting, ofKind,
      readsOld, taken, space, inSource, inExisting⟩ free
  cases isSource : rule.isSource first with
  | true =>
      rw [isSource] at reads
      obtain rfl := Option.some.inj reads
      cases isSource' : rule.isSource second with
      | true =>
          exact ⟨differ, first, second, rule.old, space, isFirst, isSecond,
            (isSource_iff.mp isSource).2, (isSource_iff.mp isSource').2, inFirst, inSecond⟩
      | false =>
          rw [isSource'] at reads'
          exact absurd reads' (apart isSource isFirst isSecond inFirst inSecond)
  | false =>
      rw [isSource] at reads
      cases isSource' : rule.isSource second with
      | true =>
          rw [isSource'] at reads'
          obtain rfl := Option.some.inj reads'
          exact absurd reads (apart isSource' isSecond isFirst inSecond inFirst)
      | false =>
          rw [isSource'] at reads'
          exact ⟨differ, first, second, name, space, isFirst, isSecond, reads, reads', inFirst,
            inSecond⟩

theorem clash_of_apply (clash : (rule.apply tree).tree.Clash container left right) :
    tree.Clash container left right := by
  rcases tree_apply rule tree with same | ⟨free, renamed⟩
  · rw [same] at clash
    exact clash
  · rw [renamed] at clash
    exact clash_of_rename free clash

/-- Declarations that clash in the tree that a run of renamings leaves behind, whether it has
succeeded or stopped at a renaming that fails, have clashed before the run. -/
theorem renamings_add_no_clash (rules : List Renaming) (file : Path) (tree : SyntaxTree)
    (container : List Nat) (left right : Nat)
    (clash : (Pipeline.applyAll (rules.map .rename) file tree).tree.Clash container left right) :
    tree.Clash container left right := by
  have keeps (rule : Rule) (isIn : rule ∈ rules.map Rule.rename) (before : SyntaxTree)
      (noneNew : before.Clash container left right → tree.Clash container left right) :
      (rule.apply before).tree.Clash container left right → tree.Clash container left right := by
    intro clashAfter
    obtain ⟨made, _, rfl⟩ := List.mem_map.mp isIn
    exact noneNew (clash_of_apply clashAfter)
  exact Pipeline.applyFrom_keeps file keeps 0 id clash

/-- A file of modules without bodies. -/
def moduleFile (names : List String) : SyntaxTree :=
  ⟨.branch .file ⟨"source_file", none, ⟨0, 0, 1, 1⟩⟩ (names.map fun name =>
    .branch (.declaration .module) ⟨"mod_item", none, ⟨0, 0, 1, 1⟩⟩
      [.ident ⟨"identifier", some "name", ⟨0, 0, 1, 1⟩, " ", name⟩]), ""⟩

/-- The second renaming fails. The modules that the first has renamed clash as before. -/
theorem renamings_add_no_clash_stopped :
    ∃ rules, rules = [⟨"f to g", "f", "g", .everywhere⟩, ⟨"g to h", "g", "h", .declarations none⟩] ∧
      Pipeline.applyAll (rules.map .rename) (.ofText "a.rs") (moduleFile ["f", "f", "h"]) =
        ⟨moduleFile ["g", "g", "h"], some ⟨"g to h", 1, (.ofText "a.rs"), .nameCollision "g" "h" .module 1⟩⟩ ∧
      (moduleFile ["g", "g", "h"]).Clash [] 0 1 ∧ (moduleFile ["f", "f", "h"]).Clash [] 0 1 := by
  obtain ⟨rules, isRules, stopped⟩ : ∃ rules,
      rules = [⟨"f to g", "f", "g", .everywhere⟩, ⟨"g to h", "g", "h", .declarations none⟩] ∧
      Pipeline.applyAll (rules.map .rename) (.ofText "a.rs") (moduleFile ["f", "f", "h"]) =
        ⟨moduleFile ["g", "g", "h"], some ⟨"g to h", 1, (.ofText "a.rs"), .nameCollision "g" "h" .module 1⟩⟩ :=
    ⟨_, rfl, rfl⟩
  have opens : (moduleFile ["g", "g", "h"]).Opens [] (moduleFile ["g", "g", "h"]).items :=
    ⟨.file, _, rfl, .here _⟩
  have clash : (moduleFile ["g", "g", "h"]).Clash [] 0 1 :=
    ⟨by decide, _, _, "g", .type, ⟨_, opens, rfl⟩, ⟨_, opens, rfl⟩, rfl, rfl, List.mem_cons_self,
      List.mem_cons_self⟩
  refine ⟨rules, isRules, stopped, clash, renamings_add_no_clash rules (.ofText "a.rs") _ [] 0 1 ?_⟩
  rw [stopped]
  exact clash

end

end Codemod
