import Codemod.Proofs.Rule.Clash
import Codemod.Proofs.Rule.Independence

/-!
Renaming declarations kind by kind.

A renaming of declarations can be divided into one for each kind. The parts see each other's work: a
declaration that one of them has renamed has the new name when the next looks for collisions. It is
not in the way there, as it would have had the old name, and a namespace, in common with the
declaration about to be renamed from the start.

Main statement: where every declaration is in place and no two declarations of a scope clash, the
parts succeed in any order exactly if the whole renaming does, and leave the same tree.
-/

set_option autoImplicit false

namespace Codemod

open Codemod.Files (Path)
open Codemod.Tree
open Codemod.Tree.Node

/-- The same renaming, of declarations of one kind alone. -/
def Renaming.ofKind (rule : Renaming) (kind : DeclKind) : Renaming :=
  ⟨defaultName rule.old rule.new (.declarations (some kind)), rule.old, rule.new,
    .declarations (some kind)⟩

section

variable {rule : Renaming} {kind other : DeclKind} {tree : SyntaxTree}

/-! ### Renaming in place -/

section

variable {only : Option DeclKind}

mutual

theorem holdsInPlace_renameNames (declarations : rule.reach = .declarations only) :
    (node : Node) → node.holdsInPlace = true → (rule.renameNames node).holdsInPlace = true
  | .ident _, _ => rfl
  | .token _, _ => rfl
  | .branch construct label children, holds => by
      by_cases isBlock : construct = .block
      · subst isBlock
        exact holds
      · obtain ⟨inPlace, below⟩ := holdsInPlace_branch_iff.mp holds
        rw [renameNames_branch rule isBlock]
        refine holdsInPlace_branch_iff.mpr
          ⟨?_, holdInPlace_renameNamesOf declarations _ children below⟩
        refine inPlace.imp_right fun either => either.imp_right fun noneBelow => ?_
        rw [declarations_renameNamesOf rule declarations, noneBelow]
        rfl

theorem holdInPlace_renameNamesOf (declarations : rule.reach = .declarations only)
    (ownName : Bool) : (nodes : List Node) → holdInPlace nodes = true →
    holdInPlace (rule.renameNamesOf ownName nodes) = true
  | [], _ => rfl
  | node :: rest, hold => by
      rw [holdInPlace, Bool.and_eq_true] at hold
      unfold Renaming.renameNamesOf
      split
      · exact holdInPlace_renameNamesOf declarations false rest hold.2
      · rw [holdInPlace, Bool.and_eq_true]
        exact ⟨holdsInPlace_renameNames declarations node hold.1,
          holdInPlace_renameNamesOf declarations _ rest hold.2⟩

end

theorem declaresInPlace_rename (declarations : rule.reach = .declarations only)
    (inPlace : tree.declaresInPlace = true) : (rule.rename tree).declaresInPlace = true := by
  unfold Renaming.rename
  rw [declarations]
  unfold SyntaxTree.declaresInPlace at inPlace ⊢
  rw [Bool.and_eq_true, Option.isNone_iff_eq_none] at inPlace ⊢
  refine ⟨?_, holdsInPlace_renameNames declarations tree.root inPlace.2⟩
  rw [declaration?_renameNames rule declarations, inPlace.1]
  rfl

/-- Where every declaration is in place, nothing is renamed if the scopes hold nothing to rename. -/
theorem rename_of_isIdle (declarations : rule.reach = .declarations only)
    (inPlace : tree.declaresInPlace = true) (idle : rule.isIdle tree = true) :
    rule.rename tree = tree := by
  have rootSame : rule.renameNames tree.root = tree.root :=
    eq_of_faceAt? _ _ fun path =>
      faceAt?_of_not_seeks (not_seeks_of_isIdle declarations inPlace idle path)
  unfold Renaming.rename
  rw [declarations, rootSame]

theorem apply_in_place (declarations : rule.reach = .declarations only)
    (inPlace : tree.declaresInPlace = true) (free : rule.collision? tree = none) :
    rule.apply tree = ⟨rule.rename tree, none⟩ := by
  rw [apply_of_free free]
  split
  · rename_i idle
    rw [rename_of_isIdle declarations inPlace idle]
  · rfl

theorem isIdle_declarations_iff (declarations : rule.reach = .declarations only) :
    rule.isIdle tree = true ↔
      ∀ scope, scope ∈ tree.scopes → ∀ declaration, declaration ∈ scope →
        ¬ rule.isSource declaration = true := by
  unfold Renaming.isIdle
  rw [declarations]
  simp

end

/-! ### The whole renaming behind a part -/

theorem renameLeaf_again (rule : Renaming) (leaf : Token) :
    rule.renameLeaf (rule.renameLeaf leaf) = rule.renameLeaf leaf := by
  unfold Renaming.renameLeaf
  by_cases reads : leaf.text = rule.old
  · rw [if_pos reads]
    split <;> rfl
  · rw [if_neg reads, if_neg reads]

theorem ownName_of_ofKind (unfiltered : rule.reach = .declarations none) {construct : Construct}
    (own : (rule.ofKind kind).ownName construct = true) : rule.ownName construct = true := by
  cases construct with
  | declaration _ =>
      unfold Renaming.ownName
      rw [unfiltered]
      rfl
  | file => exact own
  | block => exact own
  | call => exact own
  | other => exact own

mutual

theorem renameNames_ofKind (unfiltered : rule.reach = .declarations none) : (node : Node) →
    rule.renameNames ((rule.ofKind kind).renameNames node) = rule.renameNames node
  | .ident _ => rfl
  | .token _ => rfl
  | .branch construct label children => by
      by_cases isBlock : construct = .block
      · subst isBlock
        rfl
      · rw [renameNames_branch _ isBlock, renameNames_branch rule isBlock,
          renameNames_branch rule isBlock,
          renameNamesOf_ofKind unfiltered _ _ (ownName_of_ofKind unfiltered) children]

theorem renameNamesOf_ofKind (unfiltered : rule.reach = .declarations none) (own part : Bool)
    (within : part = true → own = true) : (nodes : List Node) →
    rule.renameNamesOf own ((rule.ofKind kind).renameNamesOf part nodes) =
      rule.renameNamesOf own nodes
  | [] => rfl
  | node :: rest => by
      cases isName : node.nameLeaf? with
      | none =>
          have noName : ((rule.ofKind kind).renameNames node).nameLeaf? = none := by
            rw [nameLeaf?_renameNames, isName]
          rw [renameNamesOf_noName _ part isName, renameNamesOf_noName rule own noName,
            renameNamesOf_noName rule own isName, renameNames_ofKind unfiltered node,
            renameNamesOf_ofKind unfiltered own part within rest]
      | some leaf =>
          obtain ⟨rfl, isField⟩ := nameLeaf?_eq_some_iff.mp isName
          have isField' :
              (if part then (rule.ofKind kind).renameLeaf leaf else leaf).field = some "name" := by
            split
            · exact (renameLeaf_field _ leaf).trans isField
            · exact isField
          have sameLeaf : (if own then
              rule.renameLeaf (if part then (rule.ofKind kind).renameLeaf leaf else leaf)
              else if part then (rule.ofKind kind).renameLeaf leaf else leaf) =
                if own then rule.renameLeaf leaf else leaf := by
            cases part with
            | false => rfl
            | true =>
                rw [within rfl]
                exact renameLeaf_again rule leaf
          rw [renameNamesOf_nameLeaf _ part isField, renameNamesOf_nameLeaf rule own isField',
            renameNamesOf_nameLeaf rule own isField, sameLeaf,
            renameNamesOf_ofKind unfiltered false false id rest]

end

theorem rename_ofKind (unfiltered : rule.reach = .declarations none) (tree : SyntaxTree) :
    rule.rename ((rule.ofKind kind).rename tree) = rule.rename tree := by
  unfold Renaming.rename
  rw [unfiltered]
  exact congrArg (SyntaxTree.mk · tree.trailing) (renameNames_ofKind unfiltered tree.root)

/-! ### Collisions of the parts -/

theorem isSource_ofKind_iff {declaration : Declaration} :
    (rule.ofKind kind).isSource declaration = true ↔
      declaration.kind = kind ∧ declaration.nameText? = some rule.old := by
  rw [isSource_iff]
  refine and_congr_left fun _ => ⟨fun ofKind => ofKind kind rfl, ?_⟩
  rintro isKind _ ⟨rfl⟩
  exact isKind

/-- The whole renaming looks for a declaration exactly if the part of its kind does. -/
theorem isSource_iff_ofKind (unfiltered : rule.reach = .declarations none)
    {declaration : Declaration} :
    rule.isSource declaration = true ↔
      (rule.ofKind declaration.kind).isSource declaration = true := by
  rw [isSource_ofKind_iff, isSource_iff, unfiltered]
  exact and_congr_left fun _ => iff_of_true nofun rfl

theorem inTheWay_iff_ofKind (unfiltered : rule.reach = .declarations none)
    {source existing : Declaration} :
    rule.InTheWay source existing ↔ (rule.ofKind source.kind).InTheWay source existing := by
  rw [inTheWay_iff, inTheWay_iff, isSource_iff_ofKind unfiltered]
  exact Iff.rfl

/-- A collision of the whole renaming is one of the part that renames its source. -/
theorem collision?_iff_ofKind (unfiltered : rule.reach = .declarations none) :
    rule.collision? tree = none ↔ ∀ kind, (rule.ofKind kind).collision? tree = none := by
  constructor
  · intro free kind
    apply Classical.byContradiction
    intro found
    obtain ⟨scope, isScope, source, sourceIn, existing, existingIn, inTheWay⟩ :=
      collision?_ne_none_iff.mp found
    obtain rfl := inTheWay.ofKind kind rfl
    exact (collision?_ne_none_iff.mpr ⟨scope, isScope, source, sourceIn, existing, existingIn,
      (inTheWay_iff_ofKind unfiltered).mpr inTheWay⟩) free
  · intro free
    apply Classical.byContradiction
    intro found
    obtain ⟨scope, isScope, source, sourceIn, existing, existingIn, inTheWay⟩ :=
      collision?_ne_none_iff.mp found
    exact collision?_ne_none_iff.mpr ⟨scope, isScope, source, sourceIn, existing, existingIn,
      (inTheWay_iff_ofKind unfiltered).mp inTheWay⟩ (free source.kind)

section

variable (differ : rule.old ≠ rule.new)

include differ

/-- A part finds behind another one what it would have found before it in its way. -/
theorem inTheWay_redeclare (free : tree.ClashFree) (isOther : other ≠ kind)
    {scope : List Declaration} (isScope : scope ∈ tree.scopes) {source existing : Declaration}
    (sourceIn : source ∈ scope) (existingIn : existing ∈ scope) :
    (rule.ofKind other).InTheWay ((rule.ofKind kind).redeclare source)
        ((rule.ofKind kind).redeclare existing) ↔
      (rule.ofKind other).InTheWay source existing := by
  have ofSource := redeclares_redeclare (rule.ofKind kind) source
  have ofExisting := redeclares_redeclare (rule.ofKind kind) existing
  -- The part of one kind does not rename declarations of the other.
  have kept (isKind : source.kind = other) :
      ((rule.ofKind kind).redeclare source).nameText? = source.nameText? := by
    rw [ofSource.nameText, if_neg]
    intro isSource
    exact isOther (isKind.symm.trans (isSource_ofKind_iff.mp isSource).1)
  constructor
  · rintro ⟨ofKind, reads, taken, shared⟩
    have isKind : source.kind = other := ofSource.kind.symm.trans (ofKind other rfl)
    rw [kept isKind] at reads
    rw [ofSource.namespaces_eq, ofExisting.namespaces_eq] at shared
    rw [ofExisting.nameText] at taken
    split at taken
    · -- What has been renamed before would have clashed from the start.
      rename_i isRenamed
      obtain ⟨isKind', reads'⟩ := isSource_ofKind_iff.mp isRenamed
      obtain ⟨space, inSource, inExisting⟩ := shared
      have apart : source ≠ existing := by
        rintro rfl
        exact isOther (isKind.symm.trans isKind')
      exact absurd (clashes_iff.mpr ⟨rule.old, space, reads, reads', inSource, inExisting⟩)
        (free.apart isScope sourceIn existingIn apart)
    · exact ⟨fun _ same => isKind.trans (Option.some.inj (Reach.declarations.inj same)), reads,
        taken, shared⟩
  · rintro ⟨ofKind, reads, taken, shared⟩
    have isKind : source.kind = other := ofKind other rfl
    have notSource : ¬ (rule.ofKind kind).isSource existing = true := by
      intro isSource
      have reads' := (isSource_ofKind_iff.mp isSource).2
      exact differ (Option.some.inj (reads'.symm.trans taken))
    refine ⟨fun only same => ofSource.kind.trans (ofKind only same), (kept isKind).trans reads, ?_, ?_⟩
    · rw [ofExisting.nameText, if_neg notSource]
      exact taken
    · rw [ofSource.namespaces_eq, ofExisting.namespaces_eq]
      exact shared

theorem collision?_behind (free : tree.ClashFree) (isOther : other ≠ kind) :
    (rule.ofKind other).collision? ((rule.ofKind kind).rename tree) = none ↔
      (rule.ofKind other).collision? tree = none := by
  have found : (rule.ofKind other).collision? ((rule.ofKind kind).rename tree) ≠ none ↔
      (rule.ofKind other).collision? tree ≠ none := by
    rw [collision?_ne_none_iff, collision?_ne_none_iff, scopes_rename]
    constructor
    · rintro ⟨_, scopeImage, _, sourceImage, _, existingImage, inTheWay⟩
      obtain ⟨scope, isScope, rfl⟩ := List.mem_map.mp scopeImage
      obtain ⟨source, sourceIn, rfl⟩ := List.mem_map.mp sourceImage
      obtain ⟨existing, existingIn, rfl⟩ := List.mem_map.mp existingImage
      exact ⟨scope, isScope, source, sourceIn, existing, existingIn,
        (inTheWay_redeclare differ free isOther isScope sourceIn existingIn).mp inTheWay⟩
    · rintro ⟨scope, isScope, source, sourceIn, existing, existingIn, inTheWay⟩
      exact ⟨_, List.mem_map.mpr ⟨scope, isScope, rfl⟩, _, List.mem_map.mpr ⟨source, sourceIn, rfl⟩,
        _, List.mem_map.mpr ⟨existing, existingIn, rfl⟩,
        (inTheWay_redeclare differ free isOther isScope sourceIn existingIn).mpr inTheWay⟩
  exact not_iff_not.mp found

/-- No declaration gets the old name, so a part that has nothing to rename will have nothing. -/
theorem isIdle_behind (idle : (rule.ofKind other).isIdle tree = true) :
    (rule.ofKind other).isIdle ((rule.ofKind kind).rename tree) = true := by
  rw [isIdle_declarations_iff rfl] at idle ⊢
  rw [scopes_rename]
  intro _ scopeImage _ image isSource
  obtain ⟨scope, isScope, rfl⟩ := List.mem_map.mp scopeImage
  obtain ⟨declaration, isIn, rfl⟩ := List.mem_map.mp image
  have redeclares := redeclares_redeclare (rule.ofKind kind) declaration
  obtain ⟨isKind, reads⟩ := isSource_ofKind_iff.mp isSource
  rw [redeclares.nameText] at reads
  split at reads
  · exact differ (Option.some.inj reads).symm
  · exact idle scope isScope declaration isIn
      (isSource_ofKind_iff.mpr ⟨redeclares.kind.symm.trans isKind, reads⟩)

end

/-! ### The parts one after the other -/

/-- What is left of a tree once the parts of some kinds have been applied: these have nothing more to
rename, the others find in their way what they would have found at the start, and the whole
renaming ends as it would have ended there. -/
structure Renaming.Partway (rule : Renaming) (start : SyntaxTree) (done : List DeclKind)
    (tree : SyntaxTree) : Prop where
  inPlace : tree.declaresInPlace = true
  clashFree : tree.ClashFree
  sameEnd : rule.rename tree = rule.rename start
  spent : ∀ kind, kind ∈ done → (rule.ofKind kind).isIdle tree = true
  ahead : ∀ kind, kind ∉ done →
    ((rule.ofKind kind).collision? tree = none ↔ (rule.ofKind kind).collision? start = none)

section

variable {start : SyntaxTree} {done : List DeclKind}
  (unfiltered : rule.reach = .declarations none) (differ : rule.old ≠ rule.new)

include unfiltered differ

theorem Renaming.Partway.step (partway : rule.Partway start done tree)
    (free : (rule.ofKind kind).collision? tree = none) :
    rule.Partway start (kind :: done) ((rule.ofKind kind).rename tree) where
  inPlace := declaresInPlace_rename rfl partway.inPlace
  clashFree container left right clash :=
    partway.clashFree container left right (clash_of_rename free clash)
  sameEnd := (rename_ofKind unfiltered tree).trans partway.sameEnd
  spent other isDone := by
    rcases List.mem_cons.mp isDone with rfl | isDone
    · exact isIdle_rename tree rfl differ
    · exact isIdle_behind differ (partway.spent other isDone)
  ahead other notDone := by
    rw [List.mem_cons, not_or] at notDone
    exact (collision?_behind differ partway.clashFree notDone.1).trans
      (partway.ahead other notDone.2)

/-- The parts of the kinds ahead succeed exactly if none of them had a collision at the start. -/
theorem Renaming.Partway.run (partway : rule.Partway start done tree) (file : Path)
    (position : Nat) {kinds : List DeclKind} (nodup : kinds.Nodup)
    (ahead : ∀ kind, kind ∈ kinds → kind ∉ done) :
    let result := Pipeline.applyFrom file position (kinds.map fun kind => .rename (rule.ofKind kind))
      tree
    (result.error = none ↔ ∀ kind, kind ∈ kinds → (rule.ofKind kind).collision? start = none) ∧
      (result.error = none → rule.Partway start (kinds.reverse ++ done) result.tree) := by
  induction kinds generalizing tree done position with
  | nil =>
      exact ⟨iff_of_true rfl fun _ isIn => absurd isIn List.not_mem_nil, fun _ => partway⟩
  | cons kind rest ih =>
      obtain ⟨notInRest, restNodup⟩ := List.nodup_cons.mp nodup
      have kindAhead := partway.ahead kind (ahead kind List.mem_cons_self)
      rw [List.map_cons, Pipeline.applyFrom_cons]
      simp only [Rule.apply]
      cases found : (rule.ofKind kind).collision? tree with
      | some existing =>
          rw [apply_of_collision? found]
          refine ⟨iff_of_false (Option.some_ne_none _) fun free => ?_,
            fun none => absurd none (Option.some_ne_none _)⟩
          exact Option.some_ne_none existing
            (found.symm.trans (kindAhead.mpr (free kind List.mem_cons_self)))
      | none =>
          rw [apply_in_place rfl partway.inPlace found]
          have restAhead (other : DeclKind) (isIn : other ∈ rest) : other ∉ kind :: done := by
            rw [List.mem_cons, not_or]
            refine ⟨?_, ahead other (List.mem_cons_of_mem _ isIn)⟩
            rintro rfl
            exact notInRest isIn
          obtain ⟨succeedsIff, left⟩ :=
            ih (partway.step unfiltered differ found) (position + 1) restNodup restAhead
          rw [List.forall_mem_cons, and_iff_right (kindAhead.mp found), List.reverse_cons,
            List.append_assoc]
          exact ⟨succeedsIff, left⟩

end

theorem Renaming.Partway.start (inPlace : tree.declaresInPlace = true)
    (clashFree : tree.ClashFree) : rule.Partway tree [] tree :=
  ⟨inPlace, clashFree, rfl, nofun, fun _ _ => Iff.rfl⟩

/-- Once the parts of all kinds have been applied, the whole renaming has been. -/
theorem Renaming.Partway.done (unfiltered : rule.reach = .declarations none)
    {start : SyntaxTree} {done : List DeclKind} (all : ∀ kind, kind ∈ done)
    (partway : rule.Partway start done tree) : tree = rule.rename start := by
  have idle : rule.isIdle tree = true := by
    refine (isIdle_declarations_iff unfiltered).mpr fun scope isScope declaration isIn isSource => ?_
    have spent := (isIdle_declarations_iff rfl).mp (partway.spent declaration.kind (all _))
    exact spent scope isScope declaration isIn ((isSource_iff_ofKind unfiltered).mp isSource)
  exact (rename_of_isIdle unfiltered partway.inPlace idle).symm.trans partway.sameEnd

/-- Where every declaration is in place and no two declarations of a scope have both a name and a
namespace in common, a renaming of declarations may be divided by kinds. The renamings of the ten
kinds, one after the other in any order, all succeed if and only if the undivided renaming does, and
they leave the tree that it leaves. -/
theorem kind_filters_split (rule : Renaming) (tree : SyntaxTree) (file : Path)
    (kinds : List DeclKind) (unfiltered : rule.reach = .declarations none)
    (differ : rule.old ≠ rule.new) (inPlace : tree.declaresInPlace = true)
    (clashFree : tree.ClashFree) (everyKind : kinds.Perm DeclKind.all) :
    let parts := Pipeline.applyAll (kinds.map fun kind => .rename (rule.ofKind kind)) file tree
    (parts.error = none ↔ (rule.apply tree).error = none) ∧
      (parts.error = none → parts.tree = (rule.apply tree).tree) := by
  have isKind (kind : DeclKind) : kind ∈ kinds := everyKind.mem_iff.mpr (DeclKind.mem_all kind)
  have nodup : kinds.Nodup := everyKind.nodup_iff.mpr (by decide)
  obtain ⟨succeedsIff, left⟩ := (Renaming.Partway.start inPlace clashFree).run unfiltered differ
    file 0 nodup fun _ _ => List.not_mem_nil
  have bothSucceed := succeedsIff.trans ((forall_congr' fun kind => forall_prop_of_true
    (isKind kind)).trans (collision?_iff_ofKind unfiltered).symm)
  refine ⟨bothSucceed.trans ?_, fun succeeds => ?_⟩
  · rw [error_eq, Option.map_eq_none_iff]
  · have finished := (left succeeds).done unfiltered fun kind =>
      List.mem_append_left _ (List.mem_reverse.mpr (isKind kind))
    rw [apply_in_place unfiltered inPlace (bothSucceed.mp succeeds)]
    exact finished

/-- A module and a function of the same name, which are in different namespaces, and the kinds taken
from the last to the first. -/
theorem kind_filters_split_two :
    ∃ (rule : Renaming) (tree : SyntaxTree), rule = ⟨"f to g", "f", "g", .declarations none⟩ ∧
      parse "mod f;fn f()\x7b\x7d" = .ok tree ∧ tree.declaresInPlace = true ∧ tree.ClashFree ∧
      (Pipeline.applyAll (DeclKind.all.reverse.map fun kind => .rename (rule.ofKind kind)) (.ofText "a.rs")
        tree).error = none ∧
      (Pipeline.applyAll (DeclKind.all.reverse.map fun kind => .rename (rule.ofKind kind)) (.ofText "a.rs")
        tree).tree.toSource = "mod g;fn g()\x7b\x7d" := by
  obtain ⟨rule, source, cst, isRule, isSource, isTree, differ, inPlace, clashFree, succeeds, text⟩ :
      ∃ (rule : Renaming) (source : String) (cst : Grammar.Cst),
        rule = ⟨"f to g", "f", "g", .declarations none⟩ ∧
        source = "mod f;fn f()\x7b\x7d" ∧ concreteTree? source = some cst ∧ rule.old ≠ rule.new ∧
        (convert source cst).declaresInPlace = true ∧ (convert source cst).ClashFree ∧
        (Renaming.apply rule (convert source cst)).error = none ∧
        (Renaming.apply rule (convert source cst)).tree.toSource = "mod g;fn g()\x7b\x7d" :=
    ⟨_, _, (concreteTree? "mod f;fn f()\x7b\x7d").get (by decide +kernel), rfl, rfl,
      (Option.some_get _).symm, by decide, by decide +kernel, by decide +kernel, by decide +kernel,
      by decide +kernel⟩
  obtain ⟨bothSucceed, sameTree⟩ := kind_filters_split rule (convert source cst) (.ofText "a.rs")
    DeclKind.all.reverse (congrArg Renaming.reach isRule) differ inPlace clashFree
    (List.reverse_perm _)
  have partsSucceed := bothSucceed.mpr succeeds
  exact ⟨rule, _, isRule, (parse_eq_ok_iff _ _).mpr ⟨cst, isSource ▸ isTree, isSource ▸ rfl⟩,
    inPlace, clashFree, partsSucceed, sameTree partsSucceed ▸ text⟩

end

end Codemod
