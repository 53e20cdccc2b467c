import Codemod.Proofs.Grammar.Path

/-!
Types hold quotes only in lifetimes and token trees. A type that starts with a path is plain, as its
last name and its kind may still change.
-/

set_option autoImplicit false

namespace Codemod.Grammar

open Forest (Each each_append each_fill each_nil each_plain_wrap each_relabel each_singleton
  each_sound_of_plain each_sound_wrap)
open Reader

section

variable {sub : Readers} [SoundReaders sub] {reserved : List String} {grade : Grade}

/-! ### Function parameters -/

theorem yields_mutableSpecifier : mutableSpecifier.Yields grade :=
  yields_keywordAs (by decide)

theorem yields_mutableSpecifier? : mutableSpecifier?.Yields grade :=
  yields_onlyIf yields_mutableSpecifier

theorem sound_colonBehind {pattern : Forest} : (colonBehind pattern).Yields .sound :=
  gives_choice (fun _ _ => trivial) yields_mark

theorem sound_typedPattern {specifier pattern : Reader Forest}
    (ofSpecifier : specifier.Yields .sound) (ofPattern : pattern.Yields .sound) :
    (typedPattern sub specifier pattern).Yields .sound := by
  refine gives_bind_sound ofSpecifier fun mutability ofMutability => ?_
  refine gives_bind_sound (yields_fills ofPattern) fun bound ofBound => ?_
  refine gives_bind_sound sound_colonBehind fun separator ofSeparator => gives_look fun next => ?_
  have front := each_append.mpr ⟨each_append.mpr ⟨ofMutability, ofBound⟩, ofSeparator⟩
  refine gives_if ?_ ?_
  · refine gives_bind_sound yields_mark fun dots ofDots => gives_return ?_
    exact each_sound_wrap (by decide) (each_append.mpr ⟨front, ofDots⟩)
  · refine gives_bind_sound (yields_fills yields_sub) fun type ofType => gives_return ?_
    exact each_sound_wrap (by decide) (each_append.mpr ⟨front, ofType⟩)

theorem sound_namedParameter : (namedParameter sub).Yields .sound := by
  have choices : (typedPattern sub (Reader.pure []) fun input =>
      if atReceiver input then keyword "self" input
      else sub (.pattern true .parameter) input).Yields .sound :=
    sound_typedPattern (gives_pure each_nil) (gives_choice yields_keyword yields_sub)
  refine gives_choice (gives_orElse ?_ choices) choices
  exact sound_typedPattern yields_mutableSpecifier (gives_choice yields_keyword yields_sub)

theorem sound_selfParameter : selfParameter.Yields .sound := by
  refine sound_node (by decide) (gives_bind_sound (yields_onlyIf yields_mark) ?_)
  intro reference ofReference
  refine gives_bind_sound (yields_onlyIf sound_lifetime) fun region ofRegion => ?_
  refine gives_bind_sound yields_mutableSpecifier? fun mutability ofMutability => ?_
  refine gives_bind_sound yields_keyword fun receiver ofReceiver => ?_
  refine gives_bind gives_require fun _ _ => gives_return ?_
  exact each_append.mpr
    ⟨each_append.mpr ⟨each_append.mpr ⟨ofReference, ofRegion⟩, ofMutability⟩, ofReceiver⟩

theorem sound_variadicParameter : variadicParameter.Yields .sound :=
  sound_node (by decide) (yields_followedBy yields_mutableSpecifier? yields_mark)

theorem sound_parameter : (parameter sub).Yields .sound :=
  yields_followedBy (yields_onlyIf sound_attributeItem) (yields_firstOf
    ⟨sound_namedParameter, sound_selfParameter, sound_variadicParameter, yields_keyword, yields_sub⟩)

theorem sound_parameters : (parameters sub).Yields .sound :=
  sound_node (by decide) (yields_inOrder ⟨yields_mark, yields_commaList sound_parameter, yields_mark⟩)

/-! ### Function types -/

theorem sound_externModifier : externModifier.Yields .sound :=
  sound_node (by decide) (yields_followedBy yields_keyword (yields_onlyIf sound_string))

theorem sound_functionModifier : functionModifier.Yields .sound := by
  intro input clean
  unfold functionModifier
  split
  · exact sound_externModifier input clean
  · exact yields_keyword input clean
  · exact yields_keyword input clean
  · exact yields_keyword input clean
  · exact yields_keyword input clean
  · trivial

theorem sound_functionModifiers : functionModifiers.Yields .sound :=
  sound_node (by decide) (yields_manyOne sound_functionModifier)

theorem sound_returnType? {sums : Bool} : (returnType? sub sums).Yields .sound :=
  yields_onlyIf (yields_followedBy yields_mark (yields_fills yields_sub))

theorem plain_functionTypeTail {head : Forest} (ofHead : Each .sound head) :
    (functionTypeTail sub head).Yields .plain := by
  refine plain_node (by decide) (gives_bind_sound (yields_fills sound_parameters) fun list ofList => ?_)
  refine gives_bind_sound sound_returnType? fun result ofResult => gives_return ?_
  exact each_append.mpr ⟨each_append.mpr ⟨ofHead, ofList⟩, ofResult⟩

theorem plain_functionPointer : (functionPointer sub).Yields .plain := by
  have ofHead : (followedBy (optional functionModifiers) (keyword "fn")).Yields .sound :=
    yields_followedBy (yields_optional sound_functionModifiers) yields_keyword
  exact gives_bind_sound ofHead fun head ofHead => plain_functionTypeTail ofHead

/-! ### Paths that name types -/

theorem each_sound_relabel {kind : String} {forest : Forest} (ordinary : isOrdinary kind = true)
    (each : Each .sound forest)
    (plainLast : ∀ last, forest.getLast? = some last → Grade.plain.Holds last) :
    Each .sound (forest.relabel kind) := by
  fun_induction Forest.relabel kind forest with
  | case1 => exact each
  | case2 tree =>
      exact each_singleton.mpr (sound_of_plain (Forest.plain_withKind ordinary (plainLast tree rfl)))
  | case3 tree rest notLast ih =>
      obtain ⟨ofTree, ofRest⟩ := List.forall_mem_cons.mp each
      refine List.forall_mem_cons.mpr ⟨ofTree, ih ofRest ?_⟩
      intro last isLast
      refine plainLast last ?_
      rw [List.getLast?_cons, isLast]
      rfl

theorem each_scopedTypeOfPath {forest : Forest} (each : Each .plain forest)
    (endsInName : ∀ tree, forest.getLast? = some tree →
      ∀ last, tree.children.getLast? = some last → last.kind = "identifier") :
    Each .plain (scopedTypeOfPath forest) := by
  fun_induction scopedTypeOfPath forest with
  | case1 => exact each
  | case2 field start stop children =>
      have members := (each_singleton.mp each).2.2
      have notQuote : "scoped_type_identifier" ≠ "'" := by decide
      refine each_singleton.mpr ⟨notQuote, nofun, each_sound_relabel (by decide) members ?_⟩
      intro last isLast
      refine plain_of_sound (members last (List.mem_of_getLast? isLast)) ?_
      rw [endsInName _ rfl last isLast]
      decide
  | case3 tree rest _ ih =>
      obtain ⟨ofTree, ofRest⟩ := List.forall_mem_cons.mp each
      refine List.forall_mem_cons.mpr ⟨ofTree, ih ofRest ?_⟩
      intro other isOther
      refine endsInName other ?_
      rw [List.getLast?_cons, isOther]
      rfl

theorem each_completeType {form : TypePathForm} {forest type : Forest} (each : Each .plain forest)
    (isType : completeType form forest = some type) : Each .plain type := by
  unfold completeType at isType
  split at isType
  · obtain rfl := Option.some.inj isType
    exact each_relabel (by decide) each
  · obtain rfl := Option.some.inj isType
    exact each_relabel (by decide) each
  · obtain rfl := Option.some.inj isType
    exact each
  · split at isType
    · rename_i tree isTree
      split at isType
      · rename_i last isLast
        split at isType
        · rename_i isName
          obtain rfl := Option.some.inj isType
          refine each_scopedTypeOfPath each ?_
          intro other isOther otherLast isOtherLast
          obtain rfl := Option.some.inj (isTree.symm.trans isOther)
          obtain rfl := Option.some.inj (isLast.symm.trans isOtherLast)
          exact beq_iff_eq.mp isName
        · exact nomatch isType
      · exact nomatch isType
    · exact nomatch isType
  · exact nomatch isType
  · obtain rfl := Option.some.inj isType
    exact each
  · obtain rfl := Option.some.inj isType
    exact each

theorem each_genericHead {form : TypePathForm} {forest head : Forest} (each : Each .plain forest)
    (isHead : genericHead form forest = some head) : Each .plain head := by
  unfold genericHead at isHead
  split at isHead
  · obtain rfl := Option.some.inj isHead
    exact each
  · exact each_completeType each isHead
  · exact each_completeType each isHead
  · obtain rfl := Option.some.inj isHead
    exact each
  · exact nomatch isHead

theorem each_functionTrait {form : TypePathForm} {forest head : Forest} (each : Each .plain forest)
    (isHead : functionTrait form forest = some head) : Each .plain head := by
  unfold functionTrait at isHead
  split at isHead
  · exact nomatch isHead
  · exact each_genericHead each isHead

theorem plain_typePathTail (bound : Nat) (form : TypePathForm) {forest : Forest}
    (each : Each .plain forest) : (typePathTail sub bound form forest).Yields .plain := by
  induction bound generalizing form forest with
  | zero => exact gives_refuse
  | succ bound ih =>
      have ofForest := each_sound_of_plain each
      refine gives_look fun input => ?_
      extract_lets completed
      have finish : completed.Yields .plain := by
        unfold completed
        split
        · rename_i isType
          exact gives_pure (each_completeType each isType)
        · exact gives_refuse
      split
      · split
        · exact finish
        · rename_i head isHead
          refine gives_bind_sound (yields_fills yields_sub) fun arguments ofArguments => ih _ ?_
          exact each_plain_wrap (by decide) (each_append.mpr
            ⟨each_fill (each_sound_of_plain (each_genericHead each isHead)), ofArguments⟩)
      · split
        · split
          · exact finish
          · refine gives_bind (plain_node (by decide) ?_) fun longer ofLonger => ih _ ofLonger
            refine gives_bind_sound yields_mark fun separator ofSeparator => ?_
            refine gives_bind_sound (yields_fills yields_nameAs) fun name ofName => gives_return ?_
            exact each_append.mpr ⟨each_append.mpr ⟨each_fill ofForest, ofSeparator⟩, ofName⟩
          · rename_i pathForm
            split
            · split
              · refine gives_bind_sound sound_turbofish fun arguments ofArguments => ?_
                refine gives_bind (plain_scopedName ?_) fun longer ofLonger => ih _ ofLonger
                exact each_sound_of_plain (each_genericPath (by decide) pathForm each ofArguments)
              · exact gives_refuse
            · exact gives_bind (plain_scopedName ofForest) fun longer ofLonger => ih _ ofLonger
        · split
          · split
            · exact finish
            · rename_i head isHead
              exact plain_functionTypeTail
                (each_fill (each_sound_of_plain (each_functionTrait each isHead)))
          · split
            · split
              · exact plain_macroCall ofForest
              · exact plain_macroCall ofForest
              · exact plain_macroCall ofForest
              · exact finish
            · exact finish

theorem plain_typePath : (typePath sub reserved).Yields .plain := by
  refine gives_look fun input => gives_if ?_ (gives_if ?_ ?_)
  · exact gives_bind (plain_scopedName each_nil) fun start ofStart => plain_typePathTail _ _ ofStart
  · refine gives_bind plain_bracketedType fun bracketed ofBracketed => ?_
    exact gives_bind (plain_scopedName (each_sound_of_plain ofBracketed))
      fun start ofStart => plain_typePathTail _ _ ofStart
  · exact gives_bind gives_pathHead fun head sound => plain_typePathTail _ _ sound.forest

/-! ### Types -/

theorem yields_typeOfKind {reader : Reader Forest} {kinds : List String}
    (ofReader : reader.Yields grade) : (typeOfKind reader kinds).Yields grade :=
  gives_bind ofReader fun _ each => gives_if (gives_return each) gives_refuse

theorem sound_abstractType : (abstractType sub).Yields .sound := by
  refine sound_node (by decide) (yields_inOrder ⟨yields_keyword,
    yields_onlyIf (yields_followedBy yields_keyword sound_typeParameters), yields_fills ?_⟩)
  refine gives_bind_sound sound_sumOperand fun first ofFirst => gives_if (gives_return ofFirst) ?_
  refine gives_bind_sound (yields_followedBy yields_mark sound_sumOperand) fun rest ofRest => ?_
  exact gives_return (each_sound_wrap (by decide) (each_append.mpr ⟨ofFirst, ofRest⟩))

theorem plain_pointerOrPath : (pointerOrPath sub reserved).Yields .plain :=
  gives_choice (gives_orElse plain_functionPointer plain_typePath)
    (gives_choice plain_functionPointer plain_typePath)

theorem sound_functionTypeForLifetimes : (functionTypeForLifetimes sub).Yields .sound := by
  have quantified : (node "for_lifetimes" (inOrder [
      keyword "for", mark "<", commaListOne lifetime, mark ">"])).Yields .sound :=
    sound_node (by decide) (yields_inOrder
      ⟨yields_keyword, yields_mark, yields_commaListOne sound_lifetime, yields_mark⟩)
  refine gives_bind_sound quantified fun quantifier ofQuantifier => ?_
  refine gives_bind (yields_typeOfKind plain_pointerOrPath) fun body ofBody => ?_
  dsimp only
  split
  · rename_i type isType
    have isIn : type ∈ body := List.dropWhile_subset Cst.isComment (by rw [isType]; simp)
    refine gives_return (each_sound_wrap (by decide) (each_append.mpr ⟨?_, (ofBody type isIn).2.2⟩))
    exact each_append.mpr ⟨ofQuantifier, Forest.each_comments .sound ofBody⟩
  · exact gives_refuse

theorem sound_tupleType {isParameter : Bool} : (tupleType sub isParameter).Yields .sound :=
  gives_choice (sound_node (by decide) (yields_followedBy yields_mark yields_mark))
    (sound_node (by decide) (yields_inOrder ⟨yields_mark, yields_commaSeparated yields_sub yields_sub,
      yields_optional yields_mark, yields_mark⟩))

theorem sound_dynamicType : (dynamicType sub).Yields .sound :=
  sound_node (by decide) (yields_followedBy yields_keyword (yields_fills
    (gives_choice sound_higherRanked (gives_choice (yields_typeOfKind sound_tupleType)
      (yields_typeOfKind (yields_sound_of_plain plain_pointerOrPath))))))

theorem sound_regionSum : (regionSum sub).Yields .sound :=
  sound_node (by decide) (yields_inOrder ⟨sound_sumOperand, yields_mark, sound_sumOperand⟩)

theorem sound_region? : region?.Yields .sound := by
  intro input clean
  unfold region?
  split
  · rename_i isRead
    split
    · exact ⟨each_nil, clean⟩
    · exact sound_lifetime.done clean isRead
  · exact ⟨each_nil, clean⟩

theorem sound_referenceType {sums isParameter : Bool} :
    (referenceType sub sums isParameter).Yields .sound := by
  refine sound_node (by decide) (gives_bind_sound yields_mark fun opening ofOpening => ?_)
  refine gives_bind_sound sound_region? fun region ofRegion => ?_
  refine gives_bind_sound yields_mutableSpecifier? fun mutability ofMutability => ?_
  refine gives_bind_sound (yields_fills yields_sub) fun type ofType => gives_return ?_
  exact each_append.mpr
    ⟨each_append.mpr ⟨each_append.mpr ⟨ofOpening, ofRegion⟩, ofMutability⟩, ofType⟩

theorem sound_pointerType {sums : Bool} : (pointerType sub sums).Yields .sound :=
  sound_node (by decide) (yields_inOrder
    ⟨yields_mark, gives_choice yields_keyword yields_mutableSpecifier, yields_fills yields_sub⟩)

theorem sound_arrayType {isParameter : Bool} : (arrayType sub isParameter).Yields .sound :=
  sound_node (by decide) (yields_inOrder ⟨yields_mark, yields_fills yields_sub,
    yields_onlyIf (yields_followedBy yields_mark (yields_fills yields_sub)), yields_mark⟩)

theorem sound_simpleType {isParameter : Bool} : (simpleType sub isParameter).Yields .sound := by
  intro input clean
  unfold simpleType
  dsimp only
  split
  · trivial
  · exact sound_referenceType input clean
  · exact sound_pointerType input clean
  · exact sound_tupleType input clean
  · exact sound_regionSum input clean
  · exact sound_arrayType input clean
  · exact sound_node (by decide) yields_mark input clean
  · exact sound_node (by decide) (yields_followedBy yields_mark yields_sub) input clean
  · split
    · exact sound_regionSum input clean
    · exact sound_abstractType input clean
    · exact sound_dynamicType input clean
    · exact sound_functionTypeForLifetimes input clean
    · exact yields_sound_of_plain plain_pointerOrPath input clean

theorem sound_sumTail (bound : Nat) {sum : Forest} (ofSum : Each .sound sum) :
    (sumTail sub bound sum).Yields .sound := by
  induction bound generalizing sum with
  | zero => exact gives_pure ofSum
  | succ bound ih =>
      refine gives_look fun input => gives_if ?_ (gives_return ofSum)
      refine gives_bind_sound (yields_followedBy yields_mark sound_sumOperand) fun rest ofRest => ?_
      exact ih (each_sound_wrap (by decide) (each_append.mpr ⟨ofSum, ofRest⟩))

theorem sound_typeReader {sums isParameter : Bool} :
    (typeReader sub sums isParameter).Yields .sound := by
  refine gives_if (gives_look fun input => ?_) sound_simpleType
  exact gives_bind_sound yields_sub fun first ofFirst => sound_sumTail input.left ofFirst

/-! ### Where clauses -/

theorem sound_constrained : (constrained sub).Yields .sound := by
  intro input clean
  unfold constrained
  split
  · exact sound_lifetime input clean
  · exact sound_referenceType input clean
  · exact sound_pointerType input clean
  · exact yields_typeOfKind sound_tupleType input clean
  · exact sound_arrayType input clean
  · split
    · exact sound_higherRanked input clean
    · exact yields_typeOfKind (yields_sound_of_plain plain_typePath) input clean

theorem sound_wherePredicate : (wherePredicate sub).Yields .sound :=
  sound_node (by decide)
    (yields_followedBy (yields_fills sound_constrained) (yields_fills sound_traitBounds))

theorem sound_whereClause : (whereClause sub).Yields .sound :=
  sound_node (by decide) (yields_followedBy yields_keyword (yields_onlyIf (yields_followedBy
    (yields_commaSeparated sound_wherePredicate sound_wherePredicate)
    (gives_choice (fun _ _ => trivial) (yields_optional yields_mark)))))

theorem sound_whereClause? : (whereClause? sub).Yields .sound :=
  yields_onlyIf sound_whereClause

end

end Codemod.Grammar
