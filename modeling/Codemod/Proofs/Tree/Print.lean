import Codemod.Proofs.Tree.Convert
import Codemod.Proofs.Tree.Place
import Codemod.Tree.Print

/-!
Printing is checked, and what has been printed prints again as it is.

The walk of the printer writes what the leaves spell, and it keeps the first identifier without a
text in mind.

Main statement: a tree is printed exactly if no identifier is empty and its text is a source file;
then its text is printed, and the tree that is read from it prints the same. Otherwise the first empty
identifier in document order is named, if there is one.
-/

set_option autoImplicit false

namespace Codemod.Tree

open Codemod.Grammar (Cst)
open Codemod.Text
open Node

/-! ### What the walk writes and notes -/

mutual

theorem text_draft : (node : Node) → (written : Draft) →
    (node.draft written).text.toList = written.text.toList ++ node.leaves.flatMap Token.written
  | .ident leaf, written => by
      have noted : (written.note leaf).text = written.text := by
        unfold Draft.note
        split <;> rfl
      rw [draft, Draft.write, noted]
      simp only [String.toList_append, leaves, List.flatMap_singleton, Token.written,
        List.append_assoc]
  | .token leaf, written => by
      rw [draft, Draft.write]
      simp only [String.toList_append, leaves, List.flatMap_singleton, Token.written,
        List.append_assoc]
  | .branch _ _ children, written => text_draftAll children written

theorem text_draftAll : (nodes : List Node) → (written : Draft) →
    (draftAll nodes written).text.toList =
      written.text.toList ++ (leavesOf nodes).flatMap Token.written
  | [], written => (List.append_nil _).symm
  | node :: nodes, written => by
      rw [draftAll, text_draftAll nodes, text_draft node, leavesOf, List.flatMap_append,
        List.append_assoc]

end

mutual

theorem empty?_draft : (node : Node) → (written : Draft) →
    (node.draft written).empty? =
      written.empty?.or (node.identifiers.find? fun leaf => leaf.text.isEmpty)
  | .ident leaf, ⟨text, empty?⟩ => by
      change (Draft.note ⟨text, empty?⟩ leaf).empty? = _
      unfold Draft.note
      rw [identifiers, List.find?_singleton]
      cases leaf.text.isEmpty with
      | false => cases empty? <;> rfl
      | true => cases empty? <;> rfl
  | .token leaf, written => Option.or_none.symm
  | .branch _ _ children, written => empty?_draftAll children written

theorem empty?_draftAll : (nodes : List Node) → (written : Draft) →
    (draftAll nodes written).empty? =
      written.empty?.or ((identifiersOf nodes).find? fun leaf => leaf.text.isEmpty)
  | [], written => Option.or_none.symm
  | node :: nodes, written => by
      rw [draftAll, empty?_draftAll nodes, empty?_draft node, identifiersOf, List.find?_append,
        Option.or_assoc]

end

theorem text_draft_toSource (tree : SyntaxTree) :
    (tree.root.draft .blank).text ++ tree.trailing = tree.toSource := by
  rw [← String.toList_inj, SyntaxTree.toSource, String.toList_append, String.toList_append,
    toList_leafText, text_draft]
  rfl

theorem print_eq (tree : SyntaxTree) :
    print tree =
      match tree.identifiers.find? fun leaf => leaf.text.isEmpty with
      | some leaf => .error (.emptyIdentifier leaf.kind leaf.span.line leaf.span.column)
      | none =>
          match validate tree.toSource with
          | .ok () => .ok tree.toSource
          | .error cause => .error (.invalidOutput cause) := by
  have noted : (tree.root.draft .blank).empty? =
      tree.identifiers.find? fun leaf => leaf.text.isEmpty := empty?_draft tree.root .blank
  rw [← noted, ← text_draft_toSource]
  rfl

/-! ### Empty identifiers -/

/-- No identifier of a tree is without a text. -/
def SyntaxTree.NamesKept (tree : SyntaxTree) : Prop :=
  ∀ path leaf, tree.root.at? path = some (.ident leaf) → leaf.text ≠ ""

theorem namesKept_iff {tree : SyntaxTree} :
    tree.NamesKept ↔ ∀ leaf, leaf ∈ tree.identifiers → leaf.text ≠ "" := by
  constructor
  · intro kept leaf isIn
    obtain ⟨path, isThere⟩ := mem_identifiers_iff.mp isIn
    exact kept path leaf isThere
  · intro kept path leaf isThere
    exact kept leaf (mem_identifiers_iff.mpr ⟨path, isThere⟩)

theorem find?_empty_eq_none_iff {tree : SyntaxTree} :
    (tree.identifiers.find? fun leaf => leaf.text.isEmpty) = none ↔ tree.NamesKept := by
  rw [namesKept_iff, List.find?_eq_none]
  simp only [String.isEmpty_iff, ne_eq]

/-- The first empty identifier is the one at the least place. -/
theorem first_empty {tree : SyntaxTree} {leaf : Token}
    (found : (tree.identifiers.find? fun leaf => leaf.text.isEmpty) = some leaf) :
    ∃ path, tree.root.at? path = some (.ident leaf) ∧ leaf.text = "" ∧
      ∀ path' leaf', tree.root.at? path' = some (.ident leaf') → leaf'.text = "" → path ≤ path' := by
  have entersAll (hook : Hook) : (fun _ => true) hook = true := rfl
  change tree.root.identifiers.find? _ = _ at found
  rw [identifiers_eq_visited entersAll, List.find?_eq_findSome?_guard, findSome?_filterMap] at found
  obtain ⟨path, node, reached, passes, least⟩ := least_place
    (fun node => node.ident?.bind (Option.guard fun leaf => leaf.text.isEmpty)) found
  obtain ⟨leaf', isLeaf, guarded⟩ := Option.bind_eq_some_iff.mp passes
  obtain ⟨rfl, isEmpty⟩ := Option.guard_eq_some_iff.mp guarded
  obtain rfl := ident?_eq_some_iff.mp isLeaf
  refine ⟨path, at?_of_reaches reached, String.isEmpty_iff.mp isEmpty, ?_⟩
  intro path' leaf' isThere isEmpty'
  refine least path' _ (reaches_of_at? entersAll isThere) ?_
  have guarded' : Option.guard (fun leaf : Token => leaf.text.isEmpty) leaf' = some leaf' :=
    Option.guard_eq_some_iff.mpr ⟨rfl, String.isEmpty_iff.mpr isEmpty'⟩
  rw [ident?_eq_some_iff.mpr rfl, Option.bind_some, guarded']
  exact nofun

theorem print_eq_ok_iff {tree : SyntaxTree} {text : String} :
    print tree = .ok text ↔
      tree.NamesKept ∧ validate tree.toSource = .ok () ∧ text = tree.toSource := by
  rw [print_eq, ← find?_empty_eq_none_iff]
  cases tree.identifiers.find? fun leaf => leaf.text.isEmpty with
  | some leaf => exact iff_of_false nofun nofun
  | none =>
      cases validate tree.toSource with
      | error cause => exact iff_of_false nofun nofun
      | ok isValid =>
          constructor
          · intro same
            exact ⟨rfl, rfl, (Except.ok.inj same).symm⟩
          · rintro ⟨_, _, rfl⟩
            rfl

theorem print_of_empty {tree : SyntaxTree} {leaf : Token}
    (found : (tree.identifiers.find? fun leaf => leaf.text.isEmpty) = some leaf) :
    print tree = .error (.emptyIdentifier leaf.kind leaf.span.line leaf.span.column) := by
  rw [print_eq, found]

/-- Where no identifier is empty, only the text can be to blame. -/
theorem invalidOutput_of_namesKept {tree : SyntaxTree} {error : PrintError} (kept : tree.NamesKept)
    (fails : print tree = .error error) : ∃ cause, error = .invalidOutput cause := by
  rw [print_eq, find?_empty_eq_none_iff.mpr kept] at fails
  cases isValid : validate tree.toSource with
  | ok _ =>
      rw [isValid] at fails
      exact nomatch fails
  | error cause =>
      rw [isValid] at fails
      exact ⟨cause, (Except.error.inj fails).symm⟩

/-! ### Parsed trees -/

theorem validate_eq_ok_iff {source : String} :
    validate source = .ok () ↔ ∃ parsed, parse source = .ok parsed := by
  unfold validate parse
  cases Grammar.readFile source with
  | done forest input stop => exact iff_of_true rfl ⟨_, rfl⟩
  | stuck stop => exact iff_of_false nofun nofun

/-- What is relied on of the concrete tree of a text: its leaves follow each other, they start and end
at boundaries, and those that are identifiers are not empty. -/
structure Orderly (source : String) (tree : Cst) : Prop where
  onBoundaries : OnBoundaries source tree
  inOrder : InOrder 0 (forestTokens tree.children)
  named : ∀ token, token ∈ forestTokens tree.children → identifierKinds.contains token.kind = true →
    token.start < token.stop

instance (source : String) (tree : Cst) : Decidable (Orderly source tree) :=
  decidable_of_iff
    (OnBoundaries source tree ∧ InOrder 0 (forestTokens tree.children) ∧
      ∀ token, token ∈ forestTokens tree.children → identifierKinds.contains token.kind = true →
        token.start < token.stop)
    ⟨fun ⟨onBoundaries, inOrder, named⟩ => ⟨onBoundaries, inOrder, named⟩,
      fun orderly => ⟨orderly.onBoundaries, orderly.inOrder, orderly.named⟩⟩

theorem identifiers_asPlain {node : Node} {leaf : Token} (isIn : leaf ∈ node.asPlain.identifiers) :
    leaf ∈ node.identifiers := by
  cases node with
  | ident _ => exact nomatch isIn
  | token _ => exact isIn
  | branch _ _ _ => exact isIn

mutual

theorem kind_of_mem_ofCst (index : LineIndex) (leaf : Token) : (tree : Cst) → (cursor : Cursor) →
    leaf ∈ (ofCst index tree cursor).1.identifiers → identifierKinds.contains leaf.kind = true
  | .node kind field start stop [], cursor, isIn => by
      rw [ofCst] at isIn
      change leaf ∈ (nodeOfToken _).identifiers at isIn
      unfold nodeOfToken at isIn
      split at isIn
      · rename_i isKind
        rw [List.mem_singleton.mp isIn]
        exact isKind
      · exact nomatch isIn
  | .node kind field start stop (child :: rest), cursor, isIn => by
      rw [ofCst] at isIn
      exact kind_of_mem_ofForest index leaf _ (child :: rest) cursor isIn

theorem kind_of_mem_ofForest (index : LineIndex) (leaf : Token) (quoted : Bool) :
    (forest : List Cst) → (cursor : Cursor) →
    leaf ∈ identifiersOf (ofForest index quoted forest cursor).1 →
      identifierKinds.contains leaf.kind = true
  | [], cursor, isIn => nomatch isIn
  | tree :: rest, cursor, isIn => by
      rw [ofForest] at isIn
      rcases List.mem_append.mp isIn with isFirst | isLater
      · cases quoted with
        | true => exact kind_of_mem_ofCst index leaf tree cursor (identifiers_asPlain isFirst)
        | false => exact kind_of_mem_ofCst index leaf tree cursor isFirst
      · exact kind_of_mem_ofForest index leaf quoted rest _ isLater

end

theorem mem_leaves_of_mem_identifiers {node : Node} {leaf : Token}
    (isIn : leaf ∈ node.identifiers) : leaf ∈ node.leaves := by
  rw [identifiers_eq_marked] at isIn
  obtain ⟨marked, isMarked, rfl⟩ := List.mem_map.mp isIn
  rw [leaves_eq_marked]
  exact List.mem_map.mpr ⟨marked, (List.mem_filter.mp isMarked).1, rfl⟩

theorem token_of_mem_cutLeaves (index : LineIndex) {tokens : List Cst} {cursor : Cursor}
    {leaf : Token} (isIn : leaf ∈ (cutLeaves index tokens cursor).1) :
    ∃ token, token ∈ tokens ∧ leaf.kind = token.kind ∧ leaf.span = spanOf index token := by
  induction tokens generalizing cursor with
  | nil => exact nomatch isIn
  | cons token rest ih =>
      rcases List.mem_cons.mp isIn with rfl | later
      · exact ⟨token, List.mem_cons_self, rfl, rfl⟩
      · obtain ⟨found, isFound, described⟩ := ih later
        exact ⟨found, List.mem_cons_of_mem _ isFound, described⟩

theorem text_of_covers {text trailing : List Char} {leaves : List Token} {behind : Nat}
    (covers : Covers text behind leaves trailing) {leaf : Token} (isIn : leaf ∈ leaves) :
    leaf.text.toList = sliceBytes text leaf.span.start leaf.span.stop := by
  induction leaves generalizing behind with
  | nil => exact nomatch isIn
  | cons first rest ih =>
      obtain ⟨_, body, restCovers⟩ := covers
      rcases List.mem_cons.mp isIn with rfl | later
      · exact body
      · exact ih restCovers later

theorem namesKept_convert {source : String} {tree : Cst} (orderly : Orderly source tree) :
    (convert source tree).NamesKept := by
  refine namesKept_iff.mpr fun leaf isIn isEmpty => ?_
  have isKind := kind_of_mem_ofForest _ leaf _ _ _ isIn
  have isLeaf := mem_leaves_of_mem_identifiers isIn
  have covered := text_of_covers (convert_covers orderly.onBoundaries orderly.inOrder) isLeaf
  rw [(Prod.mk.inj (convert_leaves source tree)).1] at isLeaf
  obtain ⟨token, isToken, kindEq, spanEq⟩ := token_of_mem_cutLeaves _ isLeaf
  have before := orderly.named token isToken (kindEq ▸ isKind)
  obtain ⟨startBoundary, stopBoundary⟩ := orderly.onBoundaries token isToken
  rw [isEmpty, spanEq] at covered
  exact sliceBytes_ne_nil startBoundary stopBoundary before covered.symm

theorem print_parsed {source : String} {parsed : SyntaxTree} (isParsed : parse source = .ok parsed)
    (orderly : ∀ tree, concreteTree? source = some tree → Orderly source tree) :
    print parsed = .ok source := by
  obtain ⟨tree, isTree, rfl⟩ := (parse_eq_ok_iff source parsed).mp isParsed
  have spells := toSource_convert (orderly tree isTree).onBoundaries
  refine print_eq_ok_iff.mpr ⟨namesKept_convert (orderly tree isTree), ?_, spells.symm⟩
  rw [spells]
  exact validate_eq_ok_iff.mpr ⟨_, isParsed⟩

/-- A tree is printed exactly if no identifier is empty and its text is a source file, and then its
text is printed. What is printed can be read, and the tree that is read from it prints the same. If an
identifier is empty, the first one in document order is named, whether or not the text is a source
file. -/
theorem printing_checked (tree : SyntaxTree) :
    (∀ text, print tree = .ok text ↔
      tree.NamesKept ∧ validate tree.toSource = .ok () ∧ text = tree.toSource) ∧
    (∀ text, print tree = .ok text →
      ∃ again, parse text = .ok again ∧
        ((∀ cst, concreteTree? text = some cst → Orderly text cst) → print again = .ok text)) ∧
    (¬ tree.NamesKept →
      ∃ path leaf, tree.root.at? path = some (.ident leaf) ∧ leaf.text = "" ∧
        (∀ path' leaf', tree.root.at? path' = some (.ident leaf') → leaf'.text = "" →
          path ≤ path') ∧
        print tree = .error (.emptyIdentifier leaf.kind leaf.span.line leaf.span.column)) := by
  refine ⟨fun text => print_eq_ok_iff, ?_, ?_⟩
  · intro text isPrinted
    obtain ⟨_, isValid, rfl⟩ := print_eq_ok_iff.mp isPrinted
    obtain ⟨again, isParsed⟩ := validate_eq_ok_iff.mp isValid
    exact ⟨again, isParsed, print_parsed isParsed⟩
  · intro lost
    obtain ⟨leaf, found⟩ := Option.ne_none_iff_exists'.mp (mt find?_empty_eq_none_iff.mp lost)
    obtain ⟨path, isThere, isEmpty, least⟩ := first_empty found
    exact ⟨path, leaf, isThere, isEmpty, least, print_of_empty found⟩

/-- The only identifier of a tree is replaced. What the tree prints then prints again. -/
theorem printing_checked_replaced :
    ∃ tree replaced cst again, parse "/*f*/mod f;" = .ok tree ∧
      replaced = tree.edit ⟨fun leaf => { leaf with text := "é" }, id, fun _ => true⟩ ∧
      print replaced = .ok "/*f*/mod é;" ∧
      concreteTree? "/*f*/mod é;" = some cst ∧ Orderly "/*f*/mod é;" cst ∧
      parse "/*f*/mod é;" = .ok again ∧ print again = .ok "/*f*/mod é;" := by
  obtain ⟨tree, replaced, isParsed, isReplaced, noneEmpty, spells⟩ : ∃ tree replaced,
      parse "/*f*/mod f;" = .ok tree ∧
      replaced = tree.edit ⟨fun leaf => { leaf with text := "é" }, id, fun _ => true⟩ ∧
      (replaced.identifiers.find? fun leaf => leaf.text.isEmpty) = none ∧
      replaced.toSource = "/*f*/mod é;" :=
    ⟨convert "/*f*/mod f;" ((concreteTree? "/*f*/mod f;").get (by decide +kernel)), _,
      (parse_eq_ok_iff _ _).mpr ⟨_, (Option.some_get _).symm, rfl⟩, rfl, by decide +kernel,
      by decide +kernel⟩
  obtain ⟨cst, isTree, orderly⟩ : ∃ cst, concreteTree? "/*f*/mod é;" = some cst ∧
      Orderly "/*f*/mod é;" cst :=
    ⟨(concreteTree? "/*f*/mod é;").get (by decide +kernel), (Option.some_get _).symm,
      by decide +kernel⟩
  have isValid := validate_eq_ok_iff.mpr ⟨_, (parse_eq_ok_iff _ _).mpr ⟨cst, isTree, rfl⟩⟩
  obtain ⟨printedIff, readAgain, _⟩ := printing_checked replaced
  have isPrinted := (printedIff "/*f*/mod é;").mpr
    ⟨find?_empty_eq_none_iff.mp noneEmpty, spells ▸ isValid, spells.symm⟩
  obtain ⟨again, isAgain, printsAgain⟩ := readAgain _ isPrinted
  refine ⟨tree, replaced, cst, again, isParsed, isReplaced, isPrinted, isTree, orderly, isAgain,
    printsAgain fun other isOther => ?_⟩
  rw [Option.some.inj (isOther.symm.trans isTree)]
  exact orderly

end Codemod.Tree
