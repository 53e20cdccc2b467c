import Codemod.Grammar.Item
import Codemod.Proofs.Grammar.Expression

/-!
Items hold quotes only in lifetimes, labels and token trees.
-/

set_option autoImplicit false

namespace Codemod.Grammar

open Forest (Each each_append each_fill each_nil each_sound_of_plain each_sound_wrap)
open Reader

section

variable {sub : Readers} [SoundReaders sub]

/-! ### Visibility and names -/

theorem sound_visibilityScope : (visibilityScope sub).Yields .sound := by
  refine yields_inOrder ⟨yields_mark, ?_, yields_mark⟩
  intro input clean
  dsimp only
  split
  · exact yields_keyword input clean
  · exact yields_keyword input clean
  · exact yields_keyword input clean
  · exact yields_followedBy yields_keyword (yields_sound_of_plain plain_plainPath) input clean

theorem sound_visibility? : (visibility? sub).Yields .sound :=
  yields_onlyIf (sound_node (by decide) (gives_choice
    (yields_followedBy yields_keyword (yields_onlyIf (yields_optional sound_visibilityScope)))
    yields_keyword))

theorem sound_declaredName : declaredName.Yields .sound := yields_fills yields_nameAs

theorem sound_declaredType : declaredType.Yields .sound := yields_fills yields_nameAs

theorem sound_ascription : (ascription sub).Yields .sound :=
  yields_followedBy yields_mark (yields_fills yields_sub)

theorem sound_value? : (value? sub).Yields .sound :=
  yields_onlyIf (yields_followedBy yields_mark (yields_fills yields_sub))

theorem sound_bounds? : (bounds? sub).Yields .sound :=
  yields_onlyIf (yields_fills sound_traitBounds)

/-! ### Fields and variants -/

theorem sound_attributed {opening closing : String} {reader : Reader Forest}
    (opens : opening ≠ "'") (closes : closing ≠ "'") (ofReader : reader.Yields .sound) :
    (attributed sub opening reader closing).Yields .sound :=
  yields_inOrder ⟨yields_mark_of_ne opens,
    yields_commaList (yields_followedBy sound_attributeItems ofReader), yields_mark_of_ne closes⟩

theorem sound_namedFields : (namedFields sub).Yields .sound := by
  have field : (node "field_declaration" (inOrder [
      visibility? sub, fills "name" (nameAs "field_identifier" []), ascription sub])).Yields .sound :=
    sound_node (by decide) (yields_inOrder
      ⟨sound_visibility?, yields_fills yields_nameAs, sound_ascription⟩)
  exact yields_fills (sound_node (by decide) (sound_attributed (by decide) (by decide) field))

theorem sound_positionalFields : (positionalFields sub).Yields .sound := by
  have field : (fills "type" (sub (.type true false))).Yields .sound := yields_fills yields_sub
  have visibility : (node "visibility_modifier" (keyword "pub")).Yields .sound :=
    sound_node (by decide) yields_keyword
  refine yields_fills (sound_node (by decide)
    (sound_attributed (by decide) (by decide) (gives_orElse ?_ ?_)))
  · exact yields_followedBy sound_visibility? field
  · exact gives_choice (yields_followedBy visibility field) fun _ _ => trivial

theorem sound_fields? : (fields? sub).Yields .sound :=
  gives_choice sound_namedFields (gives_choice sound_positionalFields (gives_pure each_nil))

theorem sound_enumVariants : (enumVariants sub).Yields .sound := by
  have variant : (node "enum_variant" (inOrder [
      visibility? sub, declaredName, fields? sub, value? sub])).Yields .sound :=
    sound_node (by decide) (yields_inOrder
      ⟨sound_visibility?, sound_declaredName, sound_fields?, sound_value?⟩)
  exact yields_fills (sound_node (by decide) (sound_attributed (by decide) (by decide) variant))

/-! ### Items, behind their visibility -/

theorem sound_structItem : (structItem sub).Yields .sound := by
  refine yields_inOrder ⟨yields_keyword, sound_declaredType, sound_typeParameters?,
    gives_choice yields_mark (gives_choice ?_ ?_)⟩
  · exact yields_inOrder ⟨sound_positionalFields, sound_whereClause?, yields_mark⟩
  · exact yields_followedBy sound_whereClause? sound_namedFields

theorem sound_unionItem : (unionItem sub).Yields .sound :=
  yields_inOrder ⟨yields_keyword, sound_declaredType, sound_typeParameters?, sound_whereClause?,
    sound_namedFields⟩

theorem sound_enumItem : (enumItem sub).Yields .sound :=
  yields_inOrder ⟨yields_keyword, sound_declaredType, sound_typeParameters?, sound_whereClause?,
    sound_enumVariants⟩

theorem sound_traitItem : (traitItem sub).Yields .sound :=
  yields_inOrder ⟨yields_onlyIf yields_keyword, yields_keyword, sound_declaredType,
    sound_typeParameters?, sound_bounds?, sound_whereClause?, yields_fills yields_sub⟩

theorem sound_declarationsOrNone : (declarationsOrNone sub).Yields .sound :=
  gives_choice yields_mark (yields_fills yields_sub)

theorem sound_modItem : (modItem sub).Yields .sound :=
  yields_inOrder ⟨yields_keyword, sound_declaredName, sound_declarationsOrNone⟩

theorem sound_foreignItem : (foreignItem sub).Yields .sound :=
  yields_inOrder ⟨yields_onlyIf yields_keyword, sound_externModifier, sound_declarationsOrNone⟩

theorem sound_externCrate : externCrate.Yields .sound :=
  yields_inOrder ⟨yields_keyword, yields_keyword, sound_declaredName,
    yields_onlyIf (yields_followedBy yields_keyword (yields_fills yields_nameAs)), yields_mark⟩

theorem sound_constItem : (constItem sub).Yields .sound :=
  yields_inOrder ⟨yields_keyword, sound_declaredName, sound_ascription, sound_value?, yields_mark⟩

theorem sound_staticItem : (staticItem sub).Yields .sound :=
  yields_inOrder ⟨yields_keyword, yields_onlyIf yields_keyword, yields_mutableSpecifier?,
    sound_declaredName, sound_ascription, sound_value?, yields_mark⟩

theorem sound_useItem : (useItem sub).Yields .sound :=
  yields_inOrder ⟨yields_keyword, yields_fills yields_sub, yields_mark⟩

section

variable {start : Forest} (ofStart : Each .sound start)

include ofStart

theorem sound_functionItem : (functionItem sub start).Yields .sound := by
  refine gives_bind_sound (yields_onlyIf sound_functionModifiers) fun modifiers ofModifiers => ?_
  have signature : (inOrder [
      keyword "fn",
      fills "name" (fun input =>
        if metavariableLength input.rest != 0 then metavariable input
        else nameAs "identifier" [] input),
      typeParameters? sub,
      fills "parameters" (parameters sub),
      returnType? sub true,
      whereClause? sub]).Yields .sound :=
    yields_inOrder ⟨yields_keyword, yields_fills (gives_choice yields_metavariable yields_nameAs),
      sound_typeParameters?, yields_fills sound_parameters, sound_returnType?, sound_whereClause?⟩
  refine gives_bind_sound signature fun head ofHead => gives_look fun next => ?_
  have ofFront := each_append.mpr ⟨each_append.mpr ⟨ofStart, ofModifiers⟩, ofHead⟩
  refine gives_if ?_ ?_
  · refine gives_bind_sound yields_mark fun closing ofClosing => gives_return ?_
    exact each_sound_wrap (by decide) (each_append.mpr ⟨ofFront, ofClosing⟩)
  · refine gives_bind_sound (yields_fills yields_sub) fun body ofBody => gives_return ?_
    exact each_sound_wrap (by decide) (each_append.mpr ⟨ofFront, ofBody⟩)

theorem sound_typeItem : (typeItem sub start).Yields .sound := by
  have named : (inOrder [keyword "type", declaredType, typeParameters? sub]).Yields .sound :=
    yields_inOrder ⟨yields_keyword, sound_declaredType, sound_typeParameters?⟩
  refine gives_bind_sound named fun head ofHead => ?_
  refine gives_bind_sound sound_bounds? fun bounds ofBounds => ?_
  refine gives_bind_sound sound_whereClause? fun condition ofCondition => ?_
  refine gives_look fun next => gives_if ?_ (gives_if ?_ gives_refuse)
  · have aliased : (inOrder [mark "=", fills "type" (sub (.type true false)), whereClause? sub,
        mark ";"]).Yields .sound :=
      yields_inOrder ⟨yields_mark, yields_fills yields_sub, sound_whereClause?, yields_mark⟩
    refine gives_bind_sound aliased fun rest ofRest => gives_return ?_
    exact each_sound_wrap (by decide) (each_append.mpr
      ⟨each_append.mpr ⟨each_append.mpr ⟨ofStart, ofHead⟩, ofCondition⟩, ofRest⟩)
  · refine gives_bind_sound yields_mark fun closing ofClosing => gives_return ?_
    exact each_sound_wrap (by decide) (each_append.mpr
      ⟨each_append.mpr ⟨each_append.mpr ⟨ofHead, ofBounds⟩, ofCondition⟩, ofClosing⟩)

end

theorem sound_implementedType : (implementedType sub).Yields .sound := by
  have typed : (fills "type" (sub (.type true false))).Yields .sound := yields_fills yields_sub
  refine gives_choice (gives_orElse (yields_inOrder
    ⟨yields_mark, yields_fills ?_, yields_keyword, typed⟩) typed) ?_
  · refine gives_bind_sound (yields_sound_of_plain plain_typePath) fun type ofType => ?_
    exact gives_if (gives_return ofType) gives_refuse
  · refine gives_bind_sound yields_sub fun first ofFirst => gives_look fun next => ?_
    refine gives_if ?_ (gives_return (each_fill ofFirst))
    refine gives_bind_sound (yields_followedBy yields_keyword typed) fun rest ofRest => ?_
    exact gives_return (each_append.mpr ⟨each_fill ofFirst, ofRest⟩)

theorem sound_implItem : (implItem sub).Yields .sound := by
  have rest : (inOrder [implementedType sub, whereClause? sub,
      declarationsOrNone sub]).Yields .sound :=
    yields_inOrder ⟨sound_implementedType, sound_whereClause?, sound_declarationsOrNone⟩
  refine sound_node (by decide) (yields_inOrder
    ⟨yields_onlyIf yields_keyword, yields_keyword, gives_choice ?_ rest⟩)
  exact gives_orElse (yields_followedBy (yields_fills sound_typeParametersExcept) rest) rest

theorem sound_item {start : Forest} (ofStart : Each .sound start) :
    (item sub start).Yields .sound := by
  have as {kind : String} {reader : Reader Forest} (ofReader : reader.Yields .sound)
      (ordinary : isOrdinary kind = true) :
      (node kind (do return start ++ (← reader))).Yields .sound :=
    sound_node ordinary (gives_bind_sound ofReader fun _ ofForest =>
      gives_return (each_append.mpr ⟨ofStart, ofForest⟩))
  have function : (functionItem sub start).Yields .sound := sound_functionItem ofStart
  have foreign : (orElse (node "foreign_mod_item" (foreignItem sub))
      fun _ => functionItem sub start).Yields .sound :=
    gives_orElse (sound_node (by decide) sound_foreignItem) function
  intro input clean
  unfold item
  dsimp only
  split
  · exact as sound_modItem (by decide) input clean
  · exact as sound_structItem (by decide) input clean
  · exact as sound_enumItem (by decide) input clean
  · exact as sound_unionItem (by decide) input clean
  · exact as sound_traitItem (by decide) input clean
  · exact as sound_useItem (by decide) input clean
  · exact as sound_staticItem (by decide) input clean
  · exact sound_typeItem ofStart input clean
  · split
    · exact function input clean
    · exact as sound_constItem (by decide) input clean
  · split
    · exact as sound_externCrate (by decide) input clean
    · split
      · exact foreign input clean
      · exact function input clean
  · split
    · exact as sound_traitItem (by decide) input clean
    · split
      · exact foreign input clean
      · exact function input clean
    · split
      · exact sound_implItem input clean
      · trivial
    · exact function input clean
  · exact function input clean

/-! ### Declarations -/

theorem sound_declaredPattern : (declaredPattern sub).Yields .sound := by
  have choices : (fills "pattern" (sub (.pattern true .plain))).Yields .sound :=
    yields_fills yields_sub
  refine gives_choice (gives_orElse ?_ choices) choices
  refine gives_bind_sound yields_mutableSpecifier fun mutability ofMutability => ?_
  refine gives_bind_sound (yields_fills yields_sub) fun pattern ofPattern => ?_
  exact gives_bind gives_require fun _ _ =>
    gives_return (each_append.mpr ⟨ofMutability, ofPattern⟩)

theorem sound_letDeclaration : (letDeclaration sub).Yields .sound := by
  have bound : (followedBy (keyword "let") (declaredPattern sub)).Yields .sound :=
    yields_followedBy yields_keyword sound_declaredPattern
  refine sound_node (by decide) (gives_bind_sound bound fun head ofHead => ?_)
  refine gives_bind_sound (yields_inOrder
    ⟨yields_onlyIf (yields_followedBy sound_colonBehind (yields_fills yields_sub)), sound_value?,
      yields_onlyIf (yields_followedBy yields_keyword (yields_fills yields_sub)), yields_mark⟩) ?_
  intro rest ofRest
  exact gives_return (each_append.mpr ⟨ofHead, ofRest⟩)

theorem sound_declaration : (declaration sub).Yields .sound := by
  refine gives_choice (sound_node (by decide) yields_mark) (gives_choice
    (gives_choice sound_innerAttributeItem sound_attributeItem)
    (gives_choice sound_macroDefinition ?_))
  intro input clean
  dsimp only
  split
  · exact sound_letDeclaration input clean
  · exact sound_implItem input clean
  · exact gives_bind_sound sound_visibility? (fun _ ofStart => sound_item ofStart) input clean

theorem sound_calledMacro : (calledMacro sub).Yields .sound := by
  refine gives_bind gives_path fun reading sound => gives_if ?_ gives_refuse
  exact yields_sound_of_plain (plain_macroCall (each_sound_of_plain sound.forest))

theorem sound_declarations : (declarations sub).Yields .sound :=
  sound_node (by decide) (yields_inOrder
    ⟨yields_mark, yields_many (gives_choice sound_declaration sound_calledMacro), yields_mark⟩)

/-! ### Imports -/

theorem sound_useList : (useList sub).Yields .sound :=
  sound_node (by decide) (yields_inOrder ⟨yields_mark, yields_commaList yields_sub, yields_mark⟩)

theorem sound_useTail {start : Forest} (ofStart : Each .sound start) :
    (useTail sub start).Yields .sound := by
  refine gives_choice (gives_choice (sound_node (by decide) ?_) (sound_node (by decide) ?_))
    (gives_choice (sound_node (by decide) ?_) (gives_pure ofStart))
  · refine gives_bind_sound (yields_followedBy yields_mark yields_mark) fun rest ofRest => ?_
    exact gives_return (each_append.mpr ⟨ofStart, ofRest⟩)
  · refine gives_bind_sound (yields_followedBy yields_mark (yields_fills sound_useList)) ?_
    intro rest ofRest
    exact gives_return (each_append.mpr ⟨each_fill ofStart, ofRest⟩)
  · refine gives_bind_sound (yields_followedBy yields_keyword (yields_fills yields_nameAs)) ?_
    intro rest ofRest
    exact gives_return (each_append.mpr ⟨each_fill ofStart, ofRest⟩)

theorem sound_useClause : (useClause sub).Yields .sound := by
  refine gives_choice sound_useList (gives_choice (sound_node (by decide) yields_mark)
    (gives_choice (sound_useTail each_nil) ?_))
  exact gives_bind_sound (yields_sound_of_plain plain_plainPath) fun _ ofName => sound_useTail ofName

end

end Codemod.Grammar
