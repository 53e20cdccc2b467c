import Codemod.Proofs.Grammar.Item
import Codemod.Proofs.Tree.Convert

/-!
Where quotes stand in a file.

The readers of all categories are sound by induction on the depth to which they call each other. So
every name right behind a quote is held by a lifetime, a label or a token tree, in every file that can
be read.
-/

set_option autoImplicit false

namespace Codemod.Grammar

open Codemod.Tree (concreteTree? heldKindsOf)
open Forest (Each each_append each_nil each_sound_wrap)
open Reader

section

variable {sub : Readers} [SoundReaders sub]

/-! ### Statements -/

theorem gives_endStatement {value : Forest} (ofValue : Each .sound value) :
    (endStatement value).Gives fun statement => Each .sound statement.forest := by
  refine gives_look fun next => gives_if ?_ (gives_return ofValue)
  refine gives_bind_sound yields_mark fun closing ofClosing => gives_return ?_
  exact each_sound_wrap (by decide) (each_append.mpr ⟨ofValue, ofClosing⟩)

theorem gives_statement : (statement sub).Gives fun statement => Each .sound statement.forest := by
  refine gives_look fun start => gives_if ?_ (gives_if ?_ ?_)
  · exact gives_bind_sound sound_declaration fun forest ofForest => gives_return ofForest
  · refine gives_bind_sound yields_sub fun block ofBlock => gives_look fun next => gives_if ?_ ?_
    · exact gives_bind_sound (sound_operatorTail (next.left + 1) ofBlock)
        fun _ ofValue => gives_endStatement ofValue
    · exact gives_return (each_sound_wrap (by decide) ofBlock)
  · exact gives_bind_sound yields_sub fun _ ofValue => gives_endStatement ofValue

theorem sound_statements (bound : Nat) : (statements sub bound).Yields .sound := by
  induction bound with
  | zero => exact gives_refuse
  | succ bound ih =>
      refine gives_look fun input => gives_if (gives_return each_nil) ?_
      refine gives_bind gives_statement fun first ofFirst => gives_if (gives_return ofFirst) ?_
      exact gives_bind_sound ih fun rest ofRest => gives_return (each_append.mpr ⟨ofFirst, ofRest⟩)

theorem sound_block : (block sub).Yields .sound :=
  sound_node (by decide) (yields_inOrder ⟨yields_onlyIf sound_labelColon, yields_mark,
    fun input clean => sound_statements (input.left + 1) input clean, yields_mark⟩)

/-! ### All categories -/

theorem yields_readCategory (category : Category) :
    (readCategory sub category).Yields category.grade := by
  cases category with
  | type sums isParameter => exact sound_typeReader
  | pattern choices place => exact sound_patternReader
  | expression place floor => exact sound_expressionReader
  | conjunct place => exact sound_expressionReader
  | condition place => exact sound_condition sound_expressionReader
  | typeArguments => exact sound_typeArguments
  | traitBounds => exact sound_traitBounds
  | block => exact sound_block
  | blockLike => exact sound_blockLike
  | declarations => exact sound_declarations
  | tokenTree sort => exact lone_tokenTree
  | tokens sort => exact member_treeTokens
  | useClause => exact sound_useClause

end

instance soundReaders (depth : Nat) : SoundReaders (readers depth) := by
  induction depth with
  | zero => exact ⟨fun _ => gives_refuse⟩
  | succ depth ih => exact ⟨fun category => yields_readCategory category⟩

/-! ### Files -/

theorem gives_settled : settled.Gives fun _ => True := by
  intro input clean
  unfold settled
  split
  · trivial
  · rename_i next isNext
    exact ⟨trivial, clean_settleWithin clean isNext⟩

theorem sound_interpreterLine : interpreterLine.Yields .sound := by
  intro input clean
  unfold interpreterLine
  split
  · exact yields_take (by decide) input clean
  · exact ⟨each_nil, clean⟩

theorem sound_fileStatements {sub : Readers} [SoundReaders sub] (bound : Nat) :
    (fileStatements sub bound).Yields .sound := by
  induction bound with
  | zero => exact gives_refuse
  | succ bound ih =>
      intro input clean
      have further : (do
          let first ← statement sub
          if first.closes then Reader.refuse
          else
            let rest ← fileStatements sub bound
            return first.forest ++ rest : Reader Forest).Yields .sound := by
        refine gives_bind gives_statement fun first ofFirst => gives_if gives_refuse ?_
        exact gives_bind_sound ih fun rest ofRest =>
          gives_return (each_append.mpr ⟨ofFirst, ofRest⟩)
      -- the comments at the end of a file are those in front of no token
      have looked : look.Gives fun seen => Each .sound seen.comments :=
        fun _ clean => ⟨clean.each .sound, clean⟩
      exact gives_bind looked (fun seen ofComments => gives_if (gives_return ofComments) further)
        input clean

theorem clean_ofSource (source : String) : (Input.ofSource source).Clean := by
  unfold Input.ofSource Input.Clean
  dsimp only
  split
  · exact nofun
  · exact nofun

theorem sound_readFile {source : String} {forest : Forest} {next : Input} {stop : Stop}
    (isRead : readFile source = .done forest next stop) : Each .sound forest := by
  have gives : (do
      settled
      let line ← interpreterLine
      let rest ← fileStatements (readers (4 * (Input.ofSource source).left + 8))
        ((Input.ofSource source).left + 1)
      return line ++ rest : Reader Forest).Yields .sound := by
    refine gives_bind gives_settled fun _ _ => ?_
    refine gives_bind_sound sound_interpreterLine fun line ofLine => ?_
    refine gives_bind_sound (sound_fileStatements _) fun rest ofRest => gives_return ?_
    exact each_append.mpr ⟨ofLine, ofRest⟩
  exact (gives.done (clean_ofSource source) isRead).1

/-- In a file that can be read, a name right behind a quote is held by a lifetime, a label or a token
tree. -/
theorem quiet_concreteTree {source : String} {tree : Cst} (isTree : concreteTree? source = some tree) :
    Quiet (heldKindsOf tree.kind tree.children) := by
  unfold concreteTree? at isTree
  split at isTree
  · rename_i forest next stop isRead
    obtain rfl := Option.some.inj isTree
    exact quiet_heldKindsOf fun child isIn => quiet_of_sound (sound_readFile isRead child isIn) _
  · exact nomatch isTree

end Codemod.Grammar
