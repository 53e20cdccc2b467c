import Codemod.Grammar.WhereClause
import Codemod.Proofs.Grammar.Token

/-!
Paths, generics and types hold quotes only in lifetimes and token trees.

The name at the end of a path may later be given another kind, so the trees of a path are plain.
-/

set_option autoImplicit false

namespace Codemod.Grammar

open Codemod.Tree (identifierKinds)
open Forest (Each each_append each_fill each_nil each_plain_wrap each_relabel each_singleton
  each_sound_of_plain each_sound_wrap)
open Reader

/-! ### Paths -/

structure Path.Sound (path : Path) : Prop where
  forest : Each .plain path.forest
  arguments : ∀ arguments, path.arguments = some arguments → Each .sound arguments

theorem each_genericPath {kind : String} (ordinary : isOrdinary kind = true) (form : PathForm)
    {start arguments : Forest} (ofStart : Each .plain start) (ofArguments : Each .sound arguments) :
    Each .plain (genericPath kind form start arguments) := by
  have named : Each .plain (if form == .name then start.relabel "type_identifier" else start) := by
    split
    · exact each_relabel (by decide) ofStart
    · exact ofStart
  exact each_plain_wrap ordinary
    (each_append.mpr ⟨each_fill (each_sound_of_plain named), ofArguments⟩)

section

variable {sub : Readers} [SoundReaders sub] {reserved : List String}

theorem gives_single {form : PathForm} {reader : Reader Forest} (ofReader : reader.Yields .plain) :
    (do return ⟨form, ← reader, none⟩ : Reader Path).Gives Path.Sound :=
  gives_bind ofReader fun _ each => gives_return ⟨each, nofun⟩

theorem gives_pathHead : (pathHead reserved).Gives Path.Sound := by
  intro input clean
  unfold pathHead
  dsimp only
  split
  · exact gives_single yields_metavariable input clean
  · split
    · exact gives_single yields_keyword input clean
    · split
      · exact gives_single yields_keyword input clean
      · split
        · exact gives_single (yields_nameAs_of_ne (by decide)) input clean
        · split
          · exact gives_single (yields_nameAs_of_ne (by decide)) input clean
          · exact gives_single (yields_nameAs_of_ne (by decide)) input clean

theorem sound_pathSegment : pathSegment.Yields .sound :=
  gives_choice yields_keyword yields_nameAs

theorem plain_scopedName {start : Forest} (ofStart : Each .sound start) :
    (scopedName start).Yields .plain := by
  refine plain_node (by decide) (gives_bind_sound yields_mark fun separator ofSeparator => ?_)
  refine gives_bind_sound (yields_fills sound_pathSegment) fun name ofName => gives_return ?_
  exact each_append.mpr ⟨each_append.mpr ⟨each_fill ofStart, ofSeparator⟩, ofName⟩

theorem sound_turbofish : (turbofish sub).Yields .sound :=
  yields_followedBy yields_mark (yields_fills yields_sub)

theorem gives_pathTail (bound : Nat) {path : Path} (sound : path.Sound) :
    (pathTail sub bound path).Gives Path.Sound := by
  induction bound generalizing path with
  | zero => exact gives_return sound
  | succ bound ih =>
      unfold pathTail
      refine gives_look fun input => ?_
      split
      · exact gives_return sound
      · dsimp only
        split
        · split
          · exact gives_refuse
          · refine gives_bind_sound sound_turbofish fun arguments ofArguments => ih ⟨sound.forest, ?_⟩
            intro other isOther
            obtain rfl := Option.some.inj isOther
            exact ofArguments
        · split
          · exact gives_return sound
          · refine gives_bind (plain_scopedName ?_) fun longer ofLonger => ih ⟨ofLonger, nofun⟩
            split
            · exact each_sound_of_plain sound.forest
            · rename_i arguments isArguments
              have ofArguments := sound.arguments arguments isArguments
              exact each_sound_of_plain
                (each_genericPath (by decide) path.form sound.forest ofArguments)

theorem plain_bracketedType : (bracketedType sub).Yields .plain := by
  refine plain_node (by decide) (yields_inOrder ⟨yields_mark, ?_, yields_mark⟩)
  refine gives_bind_sound yields_sub fun type ofType => gives_look fun next => ?_
  split
  · refine gives_bind_sound (yields_followedBy yields_keyword (yields_fills yields_sub)) ?_
    intro rest ofRest
    exact gives_return (each_sound_wrap (by decide) (each_append.mpr ⟨each_fill ofType, ofRest⟩))
  · exact gives_return ofType

theorem gives_pathStart : (pathStart sub reserved).Gives Path.Sound := by
  refine gives_choice (gives_single (plain_scopedName each_nil)) (gives_choice ?_ gives_pathHead)
  refine gives_bind plain_bracketedType fun bracketed ofBracketed => ?_
  exact gives_single (plain_scopedName (each_sound_of_plain ofBracketed))

theorem gives_path : (path sub reserved).Gives Path.Sound :=
  gives_look fun input => gives_bind gives_pathStart fun _ sound => gives_pathTail input.left sound

theorem plain_plainPath : (plainPath sub).Yields .plain := by
  refine gives_bind gives_path fun reading sound => ?_
  split
  · exact gives_return sound.forest
  · exact gives_refuse

theorem plain_macroCall {name : Forest} (ofName : Each .sound name) :
    (macroCall sub name).Yields .plain := by
  refine plain_node (by decide) (gives_bind_sound yields_mark fun bang ofBang => ?_)
  refine gives_bind_sound sound_subTree fun tree ofTree => gives_return ?_
  exact each_append.mpr ⟨each_append.mpr ⟨each_fill ofName, ofBang⟩, ofTree⟩

/-! ### Attributes -/

theorem sound_attributeBody : (attributeBody sub).Yields .sound := by
  refine sound_node (by decide) (yields_followedBy (yields_sound_of_plain plain_plainPath) ?_)
  refine gives_choice (yields_followedBy yields_mark (yields_fills yields_sub)) ?_
  exact gives_choice (yields_fills sound_subTree) (gives_pure each_nil)

theorem sound_attributeItem : (attributeItem sub).Yields .sound :=
  sound_node (by decide) (yields_inOrder ⟨yields_mark, yields_mark, sound_attributeBody, yields_mark⟩)

theorem sound_innerAttributeItem : (innerAttributeItem sub).Yields .sound :=
  sound_node (by decide)
    (yields_inOrder ⟨yields_mark, yields_mark, yields_mark, sound_attributeBody, yields_mark⟩)

theorem sound_attributeItems : (attributeItems sub).Yields .sound :=
  yields_many sound_attributeItem

/-! ### Generics -/

theorem sound_useBounds : useBounds.Yields .sound :=
  sound_node (by decide) (yields_inOrder
    ⟨yields_keyword, yields_mark, yields_commaList (gives_choice sound_lifetime yields_nameAs),
      yields_mark⟩)

theorem sound_sumOperand : (sumOperand sub).Yields .sound :=
  gives_choice sound_lifetime (gives_choice sound_useBounds yields_sub)

theorem sound_constDefault : (constDefault sub).Yields .sound :=
  gives_choice sound_negativeLiteral
    (gives_choice sound_literal (gives_choice yields_sub yields_nameAs))

theorem sound_typeParameter : (typeParameter sub reserved).Yields .sound := by
  refine gives_choice yields_metavariable (gives_choice ?_ (gives_choice ?_ ?_))
  · exact sound_node (by decide) (yields_followedBy (yields_fills sound_lifetime)
      (yields_onlyIf (yields_fills yields_sub)))
  · exact sound_node (by decide) (yields_inOrder
      ⟨yields_keyword, yields_fills yields_nameAs, yields_mark, yields_fills yields_sub,
        yields_onlyIf (yields_followedBy yields_mark (yields_fills sound_constDefault))⟩)
  · exact sound_node (by decide) (yields_inOrder
      ⟨yields_fills yields_nameAs, yields_onlyIf (yields_fills yields_sub),
        yields_onlyIf (yields_followedBy yields_mark (yields_fills yields_sub))⟩)

theorem sound_typeParametersExcept : (typeParametersExcept sub reserved).Yields .sound := by
  have parameter (reserved : List String) : (do
      let attributes ← attributeItems sub
      let rest ← typeParameter sub (if attributes.isEmpty then reserved else [])
      return attributes ++ rest : Reader Forest).Yields .sound := by
    refine gives_bind_sound sound_attributeItems fun attributes ofAttributes => ?_
    refine gives_bind_sound sound_typeParameter fun rest ofRest => gives_return ?_
    exact each_append.mpr ⟨ofAttributes, ofRest⟩
  exact sound_node (by decide) (yields_inOrder
    ⟨yields_mark, parameter reserved, yields_many (yields_followedBy yields_mark (parameter [])),
      yields_optional yields_mark, yields_mark⟩)

theorem sound_typeParameters : (typeParameters sub).Yields .sound :=
  sound_typeParametersExcept

theorem sound_typeParameters? : (typeParameters? sub).Yields .sound :=
  yields_onlyIf (yields_fills sound_typeParameters)

theorem sound_higherRanked {sums : Bool} : (higherRanked sub sums).Yields .sound :=
  sound_node (by decide) (yields_inOrder
    ⟨yields_keyword, yields_fills sound_typeParameters, yields_fills yields_sub⟩)

theorem sound_captureTail (count : Nat) {bound : Forest} (ofBound : Each .sound bound) :
    (captureTail count bound).Yields .sound := by
  induction count generalizing bound with
  | zero => exact gives_pure ofBound
  | succ count ih =>
      refine gives_look fun input => ?_
      split
      · refine gives_bind_sound (yields_followedBy yields_mark sound_useBounds) fun rest ofRest => ?_
        exact ih (each_sound_wrap (by decide) (each_append.mpr ⟨ofBound, ofRest⟩))
      · exact gives_return ofBound

theorem sound_traitBound : (traitBound sub).Yields .sound :=
  gives_choice sound_higherRanked (gives_choice sound_lifetime yields_sub)

theorem sound_firstBound : (firstBound sub).Yields .sound := by
  refine gives_look fun input => gives_bind_sound sound_traitBound fun bound ofBound => ?_
  exact gives_if (gives_return ofBound) (sound_captureTail input.left ofBound)

theorem sound_traitBounds : (traitBounds sub).Yields .sound :=
  sound_node (by decide) (yields_inOrder
    ⟨yields_mark, sound_firstBound, yields_many (yields_followedBy yields_mark sound_traitBound)⟩)

theorem each_bindingHead {type head : Forest} (ofType : Each .sound type)
    (isHead : bindingHead type = some head) : Each .sound head := by
  fun_induction bindingHead type generalizing head with
  | case1 => exact nomatch isHead
  | case2 field start stop children =>
      obtain rfl := Option.some.inj isHead
      exact each_singleton.mpr (Grade.sound.holds_congr (each_singleton.mp ofType))
  | case3 field start stop nameField nameStart nameStop children rest =>
      obtain rfl := Option.some.inj isHead
      have members :=
        (plain_of_sound (each_singleton.mp ofType) (show "generic_type" ∉ quoteHolders by decide)).2.2
      refine List.forall_mem_cons.mpr ⟨?_, fun tree isIn => members tree (List.mem_cons_of_mem _ isIn)⟩
      exact Grade.sound.holds_congr (members _ List.mem_cons_self)
  | case4 tree rest _ _ isComment ih =>
      obtain ⟨ofTree, ofRest⟩ := List.forall_mem_cons.mp ofType
      obtain ⟨inner, isInner, rfl⟩ := Option.map_eq_some_iff.mp isHead
      exact List.forall_mem_cons.mpr ⟨ofTree, ih ofRest isInner⟩
  | case5 => exact nomatch isHead

theorem sound_typeArgument : (typeArgument sub).Yields .sound := by
  refine gives_choice sound_literal (gives_choice yields_sub (gives_choice ?_ ?_))
  · exact gives_orElse yields_sub sound_lifetime
  · refine gives_bind_sound yields_sub fun type ofType => gives_look fun next => ?_
    split
    · split
      · exact gives_refuse
      · rename_i head isHead
        refine gives_bind_sound (yields_followedBy yields_mark (yields_fills yields_sub)) ?_
        intro rest ofRest
        exact gives_return (each_sound_wrap (by decide)
          (each_append.mpr ⟨each_bindingHead ofType isHead, ofRest⟩))
    · exact gives_return ofType

theorem sound_typeArguments : (typeArguments sub).Yields .sound :=
  sound_node (by decide) (yields_inOrder
    ⟨yields_mark,
      yields_commaListOne (yields_followedBy sound_typeArgument (yields_onlyIf sound_traitBounds)),
      yields_mark⟩)

end

end Codemod.Grammar
