import Codemod.Proofs.Grammar.SourceFile
import Codemod.Proofs.Patch.Source
import Codemod.Proofs.Rule.Leaf

/-!
Names behind quotes.

The names of lifetimes and labels are out of reach of renaming. Token trees have neither: a quote and
the name behind it are tokens of their own there, and a renaming that reaches everything renames the
name.
-/

set_option autoImplicit false

namespace Codemod

open Codemod.Grammar (Follows quiet_concreteTree quoteHolders tokenTreeKinds)
open Codemod.Tree

/-- The kinds of a leaf and of the node that holds it. -/
def Tree.HeldLeaf.kinds (held : HeldLeaf) : String × String := (held.label.kind, held.leaf.kind)

theorem Tree.HeldLeaf.Shows.kinds_eq {held : HeldLeaf} {kinds : String × String}
    (shown : held.Shows kinds) : kinds = held.kinds :=
  Prod.ext shown.holder.symm shown.kind.symm

theorem text_renameHeld_ne_iff {rule : Renaming} (differ : rule.old ≠ rule.new) (held : HeldLeaf) :
    (rule.renameHeld held).leaf.text ≠ held.leaf.text ↔
      held.isIdent = true ∧ held.leaf.text = rule.old := by
  unfold Renaming.renameHeld Renaming.renameLeaf
  by_cases isIdent : held.isIdent = true
  · rw [if_pos isIdent]
    by_cases reads : held.leaf.text = rule.old
    · rw [if_pos reads, reads]
      exact ⟨fun _ => ⟨isIdent, rfl⟩, fun _ => differ.symm⟩
    · rw [if_neg reads]
      exact ⟨fun changed => absurd rfl changed, fun given => absurd given.2 reads⟩
  · rw [if_neg isIdent]
    exact ⟨fun changed => absurd rfl changed, fun given => absurd given.1 isIdent⟩

/-- An identifier that no declaration holds changes only under a renaming that reaches everything. -/
theorem text_ne_iff_of_rewrites {rule : Renaming} (differ : rule.old ≠ rule.new)
    {before after : HeldLeaf} (rewrites : rule.Rewrites before after)
    (undeclared : before.isIdent = true → before.construct = .other) :
    after.leaf.text ≠ before.leaf.text ↔
      rule.reach = .everywhere ∧ before.isIdent = true ∧ before.leaf.text = rule.old := by
  unfold Renaming.Rewrites at rewrites
  split at rewrites
  · rename_i isReach
    rw [rewrites, text_renameHeld_ne_iff differ]
    exact ⟨fun given => ⟨isReach, given⟩, fun given => given.2⟩
  · rename_i only isReach
    have kept : after.leaf.text = before.leaf.text := by
      rcases rewrites with same | ⟨⟨kind, isDeclaration⟩, renamed⟩
      · rw [same]
      · by_contra changed
        rw [renamed] at changed
        have isOther := undeclared ((text_renameHeld_ne_iff differ before).mp changed).1
        exact nomatch isDeclaration.symm.trans isOther
    rw [kept, isReach]
    exact ⟨fun changed => absurd rfl changed, fun given => nomatch given.1⟩

theorem ofGrammarKind_of_isHolder {kind : String} (isHolder : kind ∈ quoteHolders) :
    Construct.ofGrammarKind kind = .other := by
  have allOther : ∀ kind, kind ∈ quoteHolders → Construct.ofGrammarKind kind = .other := by
    decide +kernel
  exact allOther kind isHolder

theorem mem_tokenTreeKinds_iff {kind : String} (isHolder : kind ∈ quoteHolders) :
    kind ∈ tokenTreeKinds ↔ quotedKinds.contains kind = false := by
  have allOther : ∀ kind, kind ∈ quoteHolders →
      (kind ∈ tokenTreeKinds ↔ quotedKinds.contains kind = false) := by
    decide
  exact allOther kind isHolder

section

variable {source : String} {tree : SyntaxTree} {index : Nat} {quote name : HeldLeaf}

theorem follows_of_parse (isParsed : parse source = .ok tree)
    (isQuote : tree.heldLeaves[index]? = some quote)
    (isName : tree.heldLeaves[index + 1]? = some name) :
    Follows quote.kinds name.kinds ∧ name.Shows name.kinds := by
  obtain ⟨cst, isTree, rfl⟩ := (parse_eq_ok_iff source tree).mp isParsed
  obtain ⟨sameLength, shown⟩ := List.forall₂_iff_get.mp (shows_convert source cst)
  obtain ⟨quoteInside, rfl⟩ := List.getElem?_eq_some_iff.mp isQuote
  obtain ⟨nameInside, rfl⟩ := List.getElem?_eq_some_iff.mp isName
  have quoteShown := shown index quoteInside (sameLength ▸ quoteInside)
  have nameShown := shown (index + 1) nameInside (sameLength ▸ nameInside)
  have follows := List.isChain_iff_getElem.mp (quiet_concreteTree isTree).chain index
    (sameLength ▸ nameInside)
  constructor
  · exact quoteShown.kinds_eq ▸ nameShown.kinds_eq ▸ follows
  · exact nameShown.kinds_eq ▸ nameShown

/-- An identifier right behind a quote is held by a lifetime, a label or a token tree. A renaming that
succeeds changes what stands behind a quote exactly if it is an identifier that a token tree holds, it
reads the old name, and the renaming reaches everything. So the names of lifetimes and labels never
change, and no quoted name does under a renaming of declarations. -/
theorem quoted_names_kept_outside_token_trees {rule : Renaming} (accepted : rule.IsAccepted)
    (isParsed : parse source = .ok tree) (succeeds : (rule.apply tree).error = none)
    (isQuote : tree.heldLeaves[index]? = some quote) (quotes : quote.leaf.kind = "'")
    (isName : tree.heldLeaves[index + 1]? = some name) :
    (name.leaf.kind ∈ identifierKinds → name.label.kind ∈ quotedKinds ++ tokenTreeKinds) ∧
      ∃ after, (rule.apply tree).tree.heldLeaves[index + 1]? = some after ∧
        (after.leaf.text ≠ name.leaf.text ↔
          rule.reach = .everywhere ∧ (name.leaf.kind ∈ identifierKinds ∧
            name.label.kind ∈ tokenTreeKinds) ∧ name.leaf.text = rule.old) := by
  obtain ⟨-, -, differ⟩ := isAccepted_iff.mp accepted
  obtain ⟨follows, shown⟩ := follows_of_parse isParsed isQuote isName
  have isHolder (names : name.leaf.kind ∈ identifierKinds) : name.label.kind ∈ quoteHolders :=
    follows quotes (List.contains_iff_mem.mpr names)
  have isIdent : name.isIdent = true ↔
      name.leaf.kind ∈ identifierKinds ∧ name.label.kind ∈ tokenTreeKinds := by
    rw [shown.isIdent, Bool.and_eq_true, Bool.not_eq_true', List.contains_iff_mem]
    exact and_congr_right fun names => (mem_tokenTreeKinds_iff (isHolder names)).symm
  have isOther (reached : name.isIdent = true) : name.construct = .other :=
    shown.construct.trans (ofGrammarKind_of_isHolder (isHolder (isIdent.mp reached).1))
  obtain ⟨sameLength, rewritten⟩ := List.forall₂_iff_get.mp (heldLeaves_apply succeeds)
  obtain ⟨inside, rfl⟩ := List.getElem?_eq_some_iff.mp isName
  have rewrites := rewritten (index + 1) inside (sameLength ▸ inside)
  refine ⟨isHolder, _, List.getElem?_eq_getElem (sameLength ▸ inside), ?_⟩
  rw [← isIdent]
  exact text_ne_iff_of_rewrites differ rewrites isOther

end

/-- A type, its lifetime and the type it stands for read alike, and the lifetime is kept. -/
theorem quoted_names_kept_outside_token_trees_lifetime :
    ∃ rule tree name after, rule = ⟨"", "f", "g", .everywhere⟩ ∧ rule.IsAccepted ∧
      parse "type f<'f>=f;" = .ok tree ∧ (Renaming.apply rule tree).error = none ∧
      tree.heldLeaves[4]? = some name ∧ name.label.kind = "lifetime" ∧ name.leaf.text = "f" ∧
      (Renaming.apply rule tree).tree.heldLeaves[4]? = some after ∧ after.leaf.text = "f" := by
  obtain ⟨cst, isTree, succeeds, isQuote, isName⟩ :
      ∃ cst, concreteTree? "type f<'f>=f;" = some cst ∧
        (Renaming.apply ⟨"", "f", "g", .everywhere⟩ (convert "type f<'f>=f;" cst)).error = none ∧
        (convert "type f<'f>=f;" cst).heldLeaves[3]?.map (·.leaf.kind) = some "'" ∧
        (convert "type f<'f>=f;" cst).heldLeaves[4]?.map (fun held => (held.label.kind, held.leaf.text))
          = some ("lifetime", "f") :=
    ⟨(concreteTree? "type f<'f>=f;").get (by decide +kernel), (Option.some_get _).symm,
      by decide +kernel, by decide +kernel, by decide +kernel⟩
  obtain ⟨quote, isQuote, quotes⟩ := Option.map_eq_some_iff.mp isQuote
  obtain ⟨name, isName, reads⟩ := Option.map_eq_some_iff.mp isName
  obtain ⟨holder, text⟩ := Prod.mk.inj reads
  have accepted : Renaming.IsAccepted ⟨"", "f", "g", .everywhere⟩ :=
    isAccepted_iff.mpr ⟨by decide +kernel, by decide +kernel, by decide⟩
  have isParsed := (parse_eq_ok_iff "type f<'f>=f;" _).mpr ⟨cst, isTree, rfl⟩
  obtain ⟨-, after, isAfter, changes⟩ := quoted_names_kept_outside_token_trees accepted isParsed
    succeeds isQuote quotes isName
  refine ⟨_, _, name, after, rfl, accepted, isParsed, succeeds, isName, holder, text, isAfter, ?_⟩
  by_contra changed
  rw [← text] at changed
  have isTokenTree := (changes.mp changed).2.1.2
  rw [holder] at isTokenTree
  exact absurd isTokenTree (by decide)

/-- In the token tree of a macro call, the name right behind a quote is renamed. -/
theorem quoted_name_in_macro_renamed :
    Renaming.IsAccepted ⟨"", "a", "b", .everywhere⟩ ∧
      ∃ tree, parse "m!('a);" = .ok tree ∧
        (Renaming.apply ⟨"", "a", "b", .everywhere⟩ tree).error = none ∧
        tree.heldLeaves[3]?.map (·.leaf.kind) = some "'" ∧
        tree.heldLeaves[4]?.map (fun held => (held.leaf.kind, held.leaf.leading, held.leaf.text)) =
          some ("identifier", "", "a") ∧
        (Renaming.apply ⟨"", "a", "b", .everywhere⟩ tree).tree.heldLeaves[4]?.map (·.leaf.text) =
          some "b" := by
  refine ⟨isAccepted_iff.mpr ⟨by decide +kernel, by decide +kernel, by decide⟩, ?_⟩
  obtain ⟨cst, isTree, succeeds, isQuote, isName, renamed⟩ :
      ∃ cst, concreteTree? "m!('a);" = some cst ∧
        (Renaming.apply ⟨"", "a", "b", .everywhere⟩ (convert "m!('a);" cst)).error = none ∧
        (convert "m!('a);" cst).heldLeaves[3]?.map (·.leaf.kind) = some "'" ∧
        (convert "m!('a);" cst).heldLeaves[4]?.map
          (fun held => (held.leaf.kind, held.leaf.leading, held.leaf.text)) =
          some ("identifier", "", "a") ∧
        (Renaming.apply ⟨"", "a", "b", .everywhere⟩
          (convert "m!('a);" cst)).tree.heldLeaves[4]?.map (·.leaf.text) = some "b" :=
    ⟨(concreteTree? "m!('a);").get (by decide +kernel), (Option.some_get _).symm,
      by decide +kernel, by decide +kernel, by decide +kernel, by decide +kernel⟩
  exact ⟨_, (parse_eq_ok_iff _ _).mpr ⟨cst, isTree, rfl⟩, succeeds, isQuote, isName, renamed⟩

end Codemod
