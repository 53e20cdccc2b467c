import Codemod.Proofs.Text.Slice
import Codemod.Tree.Parse

/-!
Conversion keeps every character.

Conversion walks a concrete tree with a cursor, and what it does comes down to cutting the leaves of
the tree from the text one after the other. As long as they start and end at boundaries, what has
been cut so far and what is left make up the text.
-/

set_option autoImplicit false

namespace Codemod.Tree

open Codemod.Grammar (Cst)
open Codemod.Text

mutual

def tokensOf : Cst → List Cst
  | .node kind field start stop [] => [.node kind field start stop []]
  | .node _ _ _ _ (child :: rest) => forestTokens (child :: rest)

def forestTokens : List Cst → List Cst
  | [] => []
  | tree :: rest => tokensOf tree ++ forestTokens rest

end

/-- Cut leaves from the text, one after the other. -/
def cutLeaves (index : LineIndex) : List Cst → Cursor → List Token × Cursor
  | [], cursor => ([], cursor)
  | token :: rest, cursor =>
      let cut := cutLeaf index token cursor
      let more := cutLeaves index rest cut.2
      (cut.1 :: more.1, more.2)

theorem cutLeaves_append (index : LineIndex) (front back : List Cst) (cursor : Cursor) :
    cutLeaves index (front ++ back) cursor =
      ((cutLeaves index front cursor).1 ++
          (cutLeaves index back (cutLeaves index front cursor).2).1,
        (cutLeaves index back (cutLeaves index front cursor).2).2) := by
  induction front generalizing cursor with
  | nil => rfl
  | cons token front ih =>
      rw [List.cons_append, cutLeaves, ih]
      rfl

theorem leaves_asPlain (node : Node) : node.asPlain.leaves = node.leaves := by
  cases node <;> rfl

theorem leaves_nodeOfToken (leaf : Token) : (nodeOfToken leaf).leaves = [leaf] := by
  unfold nodeOfToken
  split <;> rfl

mutual

theorem leaves_ofCst (index : LineIndex) : (tree : Cst) → (cursor : Cursor) →
    ((ofCst index tree cursor).1.leaves, (ofCst index tree cursor).2) =
      cutLeaves index (tokensOf tree) cursor
  | .node kind field start stop [], cursor => by
      rw [ofCst, tokensOf, leaves_nodeOfToken]
      rfl
  | .node kind field start stop (child :: rest), cursor => by
      rw [ofCst, tokensOf, ← leaves_ofForest index (quotedKinds.contains kind)]
      rfl

theorem leaves_ofForest (index : LineIndex) (quoted : Bool) : (forest : List Cst) →
    (cursor : Cursor) →
    (Node.leavesOf (ofForest index quoted forest cursor).1, (ofForest index quoted forest cursor).2) =
      cutLeaves index (forestTokens forest) cursor
  | [], cursor => rfl
  | tree :: rest, cursor => by
      have treeEq := leaves_ofCst index tree cursor
      have restEq := leaves_ofForest index quoted rest (ofCst index tree cursor).2
      rw [forestTokens, cutLeaves_append, ← treeEq, ← restEq, ofForest]
      simp only [Node.leavesOf]
      split
      · rw [leaves_asPlain]
      · rfl

end

/-! ### Cutting at boundaries -/

/-- A cursor at a boundary, with what has been cut so far in front of it. -/
structure Cursor.Reads (text written : List Char) (cursor : Cursor) : Prop where
  spells : text = written ++ cursor.rest
  counts : byteCount written = cursor.offset
  aligned : cursor.place = cursor.offset

/-- What a leaf is written as: the text in front of it, and its own. -/
def Token.written (leaf : Token) : List Char := leaf.leading.toList ++ leaf.text.toList

/-- A leaf of the concrete tree that starts and ends at boundaries. -/
def OnBoundary (text : List Char) (token : Cst) : Prop :=
  Boundary text token.start ∧ Boundary text token.stop

section

variable {text written : List Char} {cursor : Cursor}

theorem boundary_of_reads (reads : cursor.Reads text written) : Boundary text cursor.offset :=
  ⟨written, cursor.rest, reads.spells, reads.counts⟩

/-- A cut at a boundary is the slice up to there, and the text is still spelled. -/
theorem cut_reads (reads : cursor.Reads text written) {stop : Nat} (boundary : Boundary text stop)
    (behind : cursor.offset ≤ stop) :
    (cursor.cut stop).1.toList = sliceBytes text cursor.offset stop ∧
      (cursor.cut stop).2.offset = stop ∧
      (cursor.cut stop).2.Reads text (written ++ (cursor.cut stop).1.toList) := by
  obtain ⟨spells, counts, aligned⟩ := reads
  rw [spells] at boundary
  obtain ⟨part, back, restEq, stopEq⟩ := boundary_behind boundary (counts ▸ behind)
  rw [counts] at stopEq
  have split : splitBytes (stop - cursor.place) cursor.rest = (part, back) := by
    rw [aligned, ← stopEq, Nat.add_sub_cancel_left, restEq, splitBytes_byteCount]
  have cutEq : cursor.cut stop = (String.ofList part, ⟨stop, stop, back⟩) := by
    unfold Cursor.cut Cursor.isAligned
    rw [split]
    simp only [aligned, stopEq, beq_self_eq_true, Bool.and_self, if_true]
  rw [cutEq, String.toList_ofList]
  refine ⟨?_, rfl, ?_, ?_, rfl⟩
  · rw [spells, restEq, ← stopEq, ← counts, sliceBytes_between]
  · rw [spells, restEq, List.append_assoc]
  · rw [byteCount_append, counts, stopEq]

theorem cutLeaf_reads (index : LineIndex) (reads : cursor.Reads text written) {token : Cst}
    (onBoundary : OnBoundary text token) :
    (cutLeaf index token cursor).2.Reads text
      (written ++ (cutLeaf index token cursor).1.written) := by
  obtain ⟨startBoundary, stopBoundary⟩ := onBoundary
  have startAt := boundary_max startBoundary (boundary_of_reads reads)
  obtain ⟨_, startOffset, startReads⟩ := cut_reads reads startAt (Nat.le_max_right ..)
  obtain ⟨_, _, stopReads⟩ := cut_reads startReads (boundary_max stopBoundary startAt)
    (startOffset ▸ Nat.le_max_right ..)
  rw [List.append_assoc] at stopReads
  exact stopReads

/-- Cutting leaves keeps the text spelled, whatever their order. -/
theorem cutLeaves_reads (index : LineIndex) (tokens : List Cst)
    (onBoundary : ∀ token, token ∈ tokens → OnBoundary text token)
    (reads : cursor.Reads text written) :
    (cutLeaves index tokens cursor).2.Reads text
      (written ++ (cutLeaves index tokens cursor).1.flatMap Token.written) := by
  induction tokens generalizing cursor written with
  | nil =>
      rw [cutLeaves, List.flatMap_nil, List.append_nil]
      exact reads
  | cons token rest ih =>
      have cutReads := cutLeaf_reads index reads (onBoundary token List.mem_cons_self)
      have restReads := ih (fun next isIn => onBoundary next (List.mem_cons_of_mem _ isIn)) cutReads
      rw [List.append_assoc] at restReads
      exact restReads

/-- Leaves in document order that do not overlap. -/
def InOrder : (behind : Nat) → List Cst → Prop
  | _, [] => True
  | behind, token :: rest =>
      behind ≤ token.start ∧ token.start ≤ token.stop ∧ InOrder token.stop rest

instance decidableInOrder : (behind : Nat) → (tokens : List Cst) → Decidable (InOrder behind tokens)
  | _, [] => .isTrue trivial
  | _, token :: rest =>
      have := decidableInOrder token.stop rest
      inferInstanceAs (Decidable (_ ∧ _ ∧ _))

/-- Leaves that read what their spans cover, with what no span covers in front of the next one. -/
def Covers (text : List Char) : (behind : Nat) → List Token → (trailing : List Char) → Prop
  | behind, [], trailing => trailing = sliceBytes text behind (byteCount text)
  | behind, leaf :: rest, trailing =>
      leaf.leading.toList = sliceBytes text behind leaf.span.start ∧
        leaf.text.toList = sliceBytes text leaf.span.start leaf.span.stop ∧
        Covers text leaf.span.stop rest trailing

/-- A leaf behind the cursor is cut as its span says. -/
theorem cutLeaf_inOrder (index : LineIndex) (reads : cursor.Reads text written) {token : Cst}
    (onBoundary : OnBoundary text token) (behind : cursor.offset ≤ token.start)
    (ordered : token.start ≤ token.stop) :
    (cutLeaf index token cursor).1.leading.toList =
        sliceBytes text cursor.offset token.start ∧
      (cutLeaf index token cursor).1.text.toList = sliceBytes text token.start token.stop ∧
      (cutLeaf index token cursor).2.offset = token.stop := by
  have startEq : max token.start cursor.offset = token.start := Nat.max_eq_left behind
  have stopEq : max token.stop token.start = token.stop := Nat.max_eq_left ordered
  obtain ⟨leading, startOffset, startReads⟩ := cut_reads reads onBoundary.1 behind
  obtain ⟨body, stopOffset, _⟩ := cut_reads startReads onBoundary.2 (startOffset ▸ ordered)
  rw [startOffset] at body
  unfold cutLeaf
  simp only [startEq, stopEq]
  exact ⟨leading, body, stopOffset⟩

theorem cutLeaves_covers (index : LineIndex) (tokens : List Cst)
    (onBoundary : ∀ token, token ∈ tokens → OnBoundary text token)
    (reads : cursor.Reads text written) (inOrder : InOrder cursor.offset tokens) :
    Covers text cursor.offset (cutLeaves index tokens cursor).1
      (cutLeaves index tokens cursor).2.rest := by
  induction tokens generalizing cursor written with
  | nil =>
      obtain ⟨spells, counts, _⟩ := reads
      have whole : byteCount text = byteCount written + byteCount cursor.rest := by
        rw [spells, byteCount_append]
      have slice := sliceBytes_between written cursor.rest []
      rw [List.append_nil, ← spells, ← whole, counts] at slice
      exact slice.symm
  | cons token rest ih =>
      have tokenOn := onBoundary token List.mem_cons_self
      obtain ⟨behind, ordered, restOrder⟩ := inOrder
      obtain ⟨leading, body, offset⟩ := cutLeaf_inOrder index reads tokenOn behind ordered
      have cutReads := cutLeaf_reads index reads tokenOn
      rw [← offset] at restOrder
      have covers := ih (fun next isIn => onBoundary next (List.mem_cons_of_mem _ isIn)) cutReads
        restOrder
      rw [offset] at covers
      exact ⟨leading, body, covers⟩

theorem spans_cutLeaves (index : LineIndex) (tokens : List Cst) (cursor : Cursor) :
    (cutLeaves index tokens cursor).1.map (·.span) = tokens.map (spanOf index) := by
  induction tokens generalizing cursor with
  | nil => rfl
  | cons token rest ih =>
      rw [cutLeaves, List.map_cons, List.map_cons, ih]
      rfl

end

/-! ### Text of a tree -/

theorem toList_leafText (leaves : List Token) :
    (SyntaxTree.leafText leaves).toList = leaves.flatMap Token.written := by
  have spelled (text : String) :
      (leaves.foldl (fun text leaf => text ++ leaf.leading ++ leaf.text) text).toList =
        text.toList ++ leaves.flatMap Token.written := by
    induction leaves generalizing text with
    | nil => exact (List.append_nil _).symm
    | cons leaf rest ih =>
        rw [List.foldl_cons, ih, String.toList_append, String.toList_append, List.flatMap_cons,
          Token.written, List.append_assoc, List.append_assoc, List.append_assoc]
  exact spelled ""

/-- The concrete tree of a text that follows the grammar. -/
def concreteTree? (source : String) : Option Cst :=
  match Grammar.readFile source with
  | .done forest _ _ => some (Grammar.fileTree source forest)
  | .stuck _ => none

theorem parse_eq_ok_iff (source : String) (parsed : SyntaxTree) :
    parse source = .ok parsed ↔
      ∃ tree, concreteTree? source = some tree ∧ convert source tree = parsed := by
  unfold parse concreteTree?
  cases Grammar.readFile source with
  | done forest input stop =>
      constructor
      · intro same
        exact ⟨_, rfl, Except.ok.inj same⟩
      · rintro ⟨_, ⟨rfl⟩, rfl⟩
        rfl
  | stuck stop =>
      constructor
      · exact nofun
      · rintro ⟨_, impossible, _⟩
        exact nomatch impossible

def OnBoundaries (source : String) (tree : Cst) : Prop :=
  ∀ token, token ∈ forestTokens tree.children → OnBoundary source.toList token

instance (source : String) (tree : Cst) : Decidable (OnBoundaries source tree) :=
  inferInstanceAs (Decidable (∀ token, token ∈ forestTokens tree.children →
    Boundary source.toList token.start ∧ Boundary source.toList token.stop))

section

variable (source : String) (tree : Cst)

theorem convert_leaves :
    ((convert source tree).root.leaves, (convert source tree).trailing) =
      let cut := cutLeaves (LineIndex.ofText source.toList) (forestTokens tree.children)
        ⟨0, 0, source.toList⟩
      (cut.1, cut.2.cutRest) := by
  rw [← leaves_ofForest _ (quotedKinds.contains tree.kind)]
  rfl

variable {source tree}

theorem convert_spells (onBoundaries : OnBoundaries source tree) :
    source.toList =
      (convert source tree).root.leaves.flatMap Token.written ++
        (convert source tree).trailing.toList := by
  obtain ⟨leavesEq, trailingEq⟩ := Prod.mk.inj (convert_leaves source tree)
  have start : Cursor.Reads source.toList [] ⟨0, 0, source.toList⟩ := ⟨rfl, rfl, rfl⟩
  obtain ⟨spells, _, aligned⟩ := cutLeaves_reads (LineIndex.ofText source.toList) _ onBoundaries start
  rw [leavesEq, trailingEq, Cursor.cutRest, Cursor.isAligned, aligned, beq_self_eq_true, if_pos rfl,
    String.toList_ofList]
  exact spells

theorem toSource_convert (onBoundaries : OnBoundaries source tree) :
    (convert source tree).toSource = source := by
  rw [← String.toList_inj, SyntaxTree.toSource, String.toList_append, toList_leafText]
  exact (convert_spells onBoundaries).symm

theorem spans_convert (source : String) (tree : Cst) :
    (convert source tree).root.leaves.map (·.span) =
      (forestTokens tree.children).map (spanOf (LineIndex.ofText source.toList)) := by
  rw [(Prod.mk.inj (convert_leaves source tree)).1, spans_cutLeaves]

theorem convert_covers (onBoundaries : OnBoundaries source tree)
    (inOrder : InOrder 0 (forestTokens tree.children)) :
    Covers source.toList 0 (convert source tree).root.leaves
      (convert source tree).trailing.toList := by
  obtain ⟨leavesEq, trailingEq⟩ := Prod.mk.inj (convert_leaves source tree)
  have start : Cursor.Reads source.toList [] ⟨0, 0, source.toList⟩ := ⟨rfl, rfl, rfl⟩
  have final := cutLeaves_reads (LineIndex.ofText source.toList) _ onBoundaries start
  rw [leavesEq, trailingEq, Cursor.cutRest, Cursor.isAligned, final.aligned, beq_self_eq_true,
    if_pos rfl, String.toList_ofList]
  exact cutLeaves_covers _ _ onBoundaries start inOrder

/-- A concrete tree whose leaves start and end at boundaries is converted without loss. If the
leaves are in order, they read what their spans cover, and all other text stands in front of the
next one or trails. Hence the tree that a text is parsed into spells the text. -/
theorem parsing_lossless (source : String) (tree : Cst) (onBoundaries : OnBoundaries source tree) :
    (convert source tree).toSource = source ∧
      (InOrder 0 (forestTokens tree.children) →
        (convert source tree).root.leaves.map (·.span) =
            (forestTokens tree.children).map (spanOf (LineIndex.ofText source.toList)) ∧
          Covers source.toList 0 (convert source tree).root.leaves
            (convert source tree).trailing.toList) ∧
      ∀ parsed, parse source = .ok parsed → concreteTree? source = some tree →
        parsed.toSource = source := by
  refine ⟨toSource_convert onBoundaries, ?_, ?_⟩
  · intro inOrder
    exact ⟨spans_convert source tree, convert_covers onBoundaries inOrder⟩
  · intro parsed isParsed isTree
    obtain ⟨tree', isTree', rfl⟩ := (parse_eq_ok_iff source parsed).mp isParsed
    obtain rfl := Option.some.inj (isTree.symm.trans isTree')
    exact toSource_convert onBoundaries

/-- The comment in front of the module holds text that no leaf covers. -/
theorem parsing_lossless_comment :
    ∃ tree parsed, concreteTree? "/*é*/mod m;" = some tree ∧ parse "/*é*/mod m;" = .ok parsed ∧
      OnBoundaries "/*é*/mod m;" tree ∧ InOrder 0 (forestTokens tree.children) ∧
      Covers "/*é*/mod m;".toList 0 (convert "/*é*/mod m;" tree).root.leaves
        (convert "/*é*/mod m;" tree).trailing.toList ∧
      parsed.toSource = "/*é*/mod m;" := by
  obtain ⟨tree, isTree, onBoundaries, inOrder⟩ : ∃ tree, concreteTree? "/*é*/mod m;" = some tree ∧
      OnBoundaries "/*é*/mod m;" tree ∧ InOrder 0 (forestTokens tree.children) :=
    ⟨(concreteTree? "/*é*/mod m;").get (by decide +kernel), (Option.some_get _).symm,
      by decide +kernel, by decide +kernel⟩
  obtain ⟨_, covers, spells⟩ := parsing_lossless "/*é*/mod m;" tree onBoundaries
  have isParsed : parse "/*é*/mod m;" = .ok (convert "/*é*/mod m;" tree) :=
    (parse_eq_ok_iff _ _).mpr ⟨tree, isTree, rfl⟩
  exact ⟨tree, convert "/*é*/mod m;" tree, isTree, isParsed, onBoundaries, inOrder,
    (covers inOrder).2, spells _ isParsed isTree⟩

end

end Codemod.Tree
