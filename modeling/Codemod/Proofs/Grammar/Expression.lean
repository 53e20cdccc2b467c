import Codemod.Grammar.Expression
import Codemod.Proofs.Grammar.Type

/-!
Patterns and expressions hold quotes only in lifetimes, labels and token trees.
-/

set_option autoImplicit false

namespace Codemod.Grammar

open Forest (Each each_append each_fill each_nil each_sound_of_plain each_sound_wrap)
open Reader

section

variable {sub : Readers} [SoundReaders sub] {place : PatternPlace}

/-! ### Patterns -/

theorem sound_rangeEnd : (rangeEnd sub).Yields .sound :=
  gives_choice sound_negativeLiteral
    (gives_choice sound_literal (yields_sound_of_plain plain_plainPath))

theorem ne_quote_of_rangeMark? {input : Input} {text : String} (isMark : rangeMark? input = some text) :
    text ≠ "'" := by
  intro isQuote
  rw [isQuote] at isMark
  exact absurd (List.mem_of_find?_eq_some isMark) (by decide)

theorem sound_rangeTail {lower : Forest} (ofLower : Each .sound lower) :
    (rangeTail sub place lower).Yields .sound := by
  intro input clean
  unfold rangeTail
  split
  · trivial
  · rename_i text isMark
    refine sound_node (by decide) ?_ input clean
    refine gives_bind_sound (yields_mark_of_ne (ne_quote_of_rangeMark? isMark)) ?_
    intro operator ofOperator
    refine gives_look fun next => ?_
    have joined (upper : Forest) (ofUpper : Each .sound upper) :
        (pure (lower.fill "left" ++ operator ++ upper) : Reader Forest).Yields .sound :=
      gives_return (each_append.mpr ⟨each_append.mpr ⟨each_fill ofLower, ofOperator⟩, ofUpper⟩)
    exact gives_if (gives_bind_sound (gives_pure each_nil) joined)
      (gives_bind_sound (yields_fills sound_rangeEnd) joined)

theorem sound_orRange {lower : Reader Forest} (ofLower : lower.Yields .sound) :
    (orRange sub place lower).Yields .sound := by
  refine gives_bind_sound ofLower fun forest ofForest => gives_look fun next => ?_
  exact gives_if (sound_rangeTail ofForest) (gives_return ofForest)

theorem sound_openRange : (openRange sub place).Yields .sound :=
  gives_choice (sound_node (by decide) (yields_followedBy yields_mark (yields_fills sound_rangeEnd)))
    (gives_choice (sound_node (by decide) (yields_followedBy yields_mark (yields_fills sound_rangeEnd)))
      (sound_node (by decide) yields_mark))

theorem sound_fieldPattern : (fieldPattern sub).Yields .sound := by
  refine sound_node (by decide) (yields_inOrder
    ⟨yields_onlyIf yields_keyword, yields_mutableSpecifier?, gives_choice ?_ ?_⟩)
  · exact yields_inOrder ⟨yields_fills yields_nameAs, yields_mark, yields_fills yields_sub⟩
  · exact yields_fills yields_nameAs

theorem sound_structPattern {type : Forest} (ofType : Each .sound type) :
    (structPattern sub type).Yields .sound := by
  have fields : (inOrder [
      mark "\x7b",
      commaList fun input =>
        if input.startsWith ".." then node "remaining_field_pattern" (mark "..") input
        else fieldPattern sub input,
      mark "\x7d"]).Yields .sound :=
    yields_inOrder ⟨yields_mark,
      yields_commaList (gives_choice (sound_node (by decide) yields_mark) sound_fieldPattern),
      yields_mark⟩
  refine sound_node (by decide) (gives_bind_sound fields fun body ofBody => gives_return ?_)
  exact each_append.mpr ⟨each_fill ofType, ofBody⟩

theorem sound_patternList : (patternList sub place).Yields .sound :=
  yields_commaListFrom yields_sub yields_sub

theorem sound_tupleStructPattern {type : Forest} (ofType : Each .sound type) :
    (tupleStructPattern sub place type).Yields .sound := by
  have fields : (inOrder [mark "(", patternList sub place, mark ")"]).Yields .sound :=
    yields_inOrder ⟨yields_mark, sound_patternList, yields_mark⟩
  refine sound_node (by decide) (gives_bind_sound fields fun body ofBody => gives_return ?_)
  exact each_append.mpr ⟨each_fill ofType, ofBody⟩

theorem sound_pathPattern : (pathPattern sub place).Yields .sound := by
  refine gives_bind gives_path fun reading sound => gives_look fun next => ?_
  have ofForest := each_sound_of_plain sound.forest
  dsimp only
  split
  · rename_i arguments isArguments
    have ofArguments := sound.arguments arguments isArguments
    refine gives_if (sound_tupleStructPattern ?_) (gives_return ?_)
    · exact each_sound_of_plain (each_genericPath (by decide) reading.form sound.forest ofArguments)
    · exact each_sound_wrap (by decide) (each_append.mpr ⟨ofForest, ofArguments⟩)
  · refine gives_if (sound_rangeTail ofForest) (gives_if ?_ (gives_if
      (sound_tupleStructPattern ofForest) (gives_if ?_ (gives_if
        (yields_sound_of_plain (plain_macroCall ofForest)) (gives_if ?_ ?_)))))
    · refine gives_bind_sound (yields_followedBy yields_mark yields_sub) fun rest ofRest => ?_
      exact gives_return (each_sound_wrap (by decide) (each_append.mpr ⟨ofForest, ofRest⟩))
    · split
      · rename_i type isType
        exact sound_structPattern (each_sound_of_plain (each_completeType sound.forest isType))
      · exact gives_refuse
    · refine gives_bind (plain_typePathTail _ _ sound.forest) fun type ofType => ?_
      exact gives_if (sound_structPattern (each_sound_of_plain ofType)) gives_refuse
    · split
      · exact gives_refuse
      · exact gives_refuse
      · exact gives_refuse
      · exact gives_return ofForest

theorem sound_closureChoiceTail (bound : Nat) {choice : Forest} (ofChoice : Each .sound choice) :
    (closureChoiceTail sub bound choice).Yields .sound := by
  induction bound generalizing choice with
  | zero => exact gives_pure ofChoice
  | succ bound ih =>
      refine gives_look fun input => gives_if ?_ (gives_return ofChoice)
      refine gives_bind_sound (yields_followedBy yields_mark yields_sub) fun rest ofRest => ?_
      exact ih (each_sound_wrap (by decide) (each_append.mpr ⟨ofChoice, ofRest⟩))

theorem sound_closurePattern : (closurePattern sub).Yields .sound :=
  gives_look fun input => gives_bind_sound yields_sub fun _ ofFirst =>
    sound_closureChoiceTail input.left ofFirst

theorem sound_tuplePatternMember : (tuplePatternMember sub place).Yields .sound := by
  have closure : (do
      let value ← sub (.expression .plain 0)
      if value.kind == "closure_expression" then return value
      else Reader.refuse : Reader Forest).Yields .sound :=
    gives_bind_sound yields_sub fun value ofValue => gives_if (gives_return ofValue) gives_refuse
  have single : (node "or_pattern" (do
      let bar ← mark "|"
      require fun next => !endsParameters next
      let pattern ← closurePattern sub
      require fun next => next.startsWith ")"
      return bar ++ pattern)).Yields .sound := by
    refine sound_node (by decide) (gives_bind_sound yields_mark fun bar ofBar => ?_)
    refine gives_bind gives_require fun _ _ => ?_
    refine gives_bind_sound sound_closurePattern fun pattern ofPattern => ?_
    exact gives_bind gives_require fun _ _ => gives_return (each_append.mpr ⟨ofBar, ofPattern⟩)
  intro input clean
  unfold tuplePatternMember
  split
  · exact closure input clean
  · exact closure input clean
  · exact closure input clean
  · split
    · exact gives_orElse single closure input clean
    · exact yields_sub input clean

theorem sound_simplePattern : (simplePattern sub place).Yields .sound := by
  intro input clean
  unfold simplePattern
  split
  · exact sound_orRange sound_literal input clean
  · split
    · exact sound_orRange sound_negativeLiteral input clean
    · refine sound_node (by decide) (yields_inOrder ?_) input clean
      exact ⟨yields_mark, yields_mutableSpecifier?, yields_sub⟩
    · refine sound_node (by decide) (yields_inOrder ?_) input clean
      exact ⟨yields_mark, yields_commaListFrom sound_tuplePatternMember sound_tuplePatternMember,
        yields_mark⟩
    · refine sound_node (by decide) (yields_inOrder ?_) input clean
      exact ⟨yields_mark, sound_patternList, yields_mark⟩
    · exact sound_openRange input clean
    · exact sound_node (by decide) (yields_followedBy yields_mark yields_sub) input clean
    · split
      · exact yields_keyword input clean
      · exact sound_orRange sound_literal input clean
      · exact sound_orRange sound_literal input clean
      · exact sound_node (by decide) (yields_followedBy yields_keyword yields_sub) input clean
      · exact sound_node (by decide) (yields_followedBy yields_mutableSpecifier yields_sub) input clean
      · exact sound_node (by decide) (yields_followedBy yields_keyword (yields_fills yields_sub))
          input clean
      · exact sound_pathPattern input clean

theorem sound_choiceTail (bound : Nat) {choice : Forest} (ofChoice : Each .sound choice) :
    (choiceTail sub place bound choice).Yields .sound := by
  induction bound generalizing choice with
  | zero => exact gives_pure ofChoice
  | succ bound ih =>
      refine gives_look fun input => gives_if ?_ (gives_return ofChoice)
      refine gives_bind_sound (yields_followedBy yields_mark yields_sub) fun rest ofRest => ?_
      exact ih (each_sound_wrap (by decide) (each_append.mpr ⟨ofChoice, ofRest⟩))

theorem sound_patternReader {choices : Bool} : (patternReader sub choices place).Yields .sound := by
  refine gives_if (gives_look fun input => ?_) sound_simplePattern
  exact gives_bind_sound yields_sub fun first ofFirst => sound_choiceTail input.left ofFirst

end

section

variable {sub : Readers} [SoundReaders sub] {place : Place}

/-! ### Operators -/

theorem sound_operand? {of : OperandOf} {floor : Nat} : (operand? sub place of floor).Yields .sound :=
  yields_onlyIf yields_sub

theorem sound_arguments : (arguments sub).Yields .sound :=
  sound_node (by decide) (yields_inOrder ⟨yields_mark,
    yields_commaList (yields_followedBy sound_attributeItems yields_sub), yields_mark⟩)

theorem sound_fieldName : Reader.Yields (fun next =>
    if wordLength next.rest == 0 then integer next else nameAs "field_identifier" [] next) .sound :=
  gives_choice yields_integer yields_nameAs

theorem sound_member {value : Forest} (ofValue : Each .sound value) :
    (member sub value).Yields .sound := by
  refine gives_bind_sound yields_mark fun dot ofDot => gives_look fun input => gives_if ?_ ?_
  · refine gives_bind_sound yields_keyword fun word ofWord => gives_return ?_
    exact each_sound_wrap (by decide) (each_append.mpr ⟨each_append.mpr ⟨ofValue, ofDot⟩, ofWord⟩)
  · refine gives_bind_sound (yields_fills sound_fieldName) fun name ofName => ?_
    have whole : Each .sound
        (Forest.wrap "field_expression" (value.fill "value" ++ dot ++ name)) :=
      each_sound_wrap (by decide)
        (each_append.mpr ⟨each_append.mpr ⟨each_fill ofValue, ofDot⟩, ofName⟩)
    refine gives_look fun next => gives_if ?_ (gives_return whole)
    refine gives_bind_sound sound_turbofish fun generic ofGeneric => gives_return ?_
    exact each_sound_wrap (by decide) (each_append.mpr ⟨each_fill whole, ofGeneric⟩)

theorem sound_applyOperator {value : Forest} (ofValue : Each .sound value) {text : String}
    (notQuote : text ≠ "'") (operator : Operator) :
    (applyOperator sub place value text operator).Yields .sound := by
  have sided {kind : String} {operator : Reader Forest} {level : Nat}
      (ofOperator : operator.Yields .sound) (ordinary : isOrdinary kind = true) : (do
        let operator ← operator
        let right ← fills "right" (sub (.expression place.last level))
        return Forest.wrap kind (value.fill "left" ++ operator ++ right) :
        Reader Forest).Yields .sound := by
    refine gives_bind_sound ofOperator fun mark ofMark => ?_
    refine gives_bind_sound (yields_fills yields_sub) fun right ofRight => gives_return ?_
    exact each_sound_wrap ordinary
      (each_append.mpr ⟨each_append.mpr ⟨each_fill ofValue, ofMark⟩, ofRight⟩)
  cases operator with
  | binary level => exact sided (yields_fills (yields_mark_of_ne notQuote)) (by decide)
  | assign => exact sided (yields_mark_of_ne notQuote) (by decide)
  | compound => exact sided (yields_fills (yields_mark_of_ne notQuote)) (by decide)
  | range =>
      refine gives_bind_sound (yields_mark_of_ne notQuote) fun mark ofMark => ?_
      have joined (right : Forest) (ofRight : Each .sound right) :
          (pure (Forest.wrap "range_expression" (value ++ mark ++ right)) :
            Reader Forest).Yields .sound :=
        gives_return (each_sound_wrap (by decide)
          (each_append.mpr ⟨each_append.mpr ⟨ofValue, ofMark⟩, ofRight⟩))
      exact gives_if (gives_bind_sound sound_operand? joined) (gives_bind_sound yields_sub joined)
  | field => exact sound_member ofValue
  | question =>
      refine gives_bind_sound (yields_mark_of_ne notQuote) fun mark ofMark => gives_return ?_
      exact each_sound_wrap (by decide) (each_append.mpr ⟨ofValue, ofMark⟩)
  | call =>
      refine gives_bind_sound (yields_fills sound_arguments) fun list ofList => gives_return ?_
      exact each_sound_wrap (by decide) (each_append.mpr ⟨each_fill ofValue, ofList⟩)
  | index =>
      have indexed : (inOrder [mark "[", sub (.expression .plain 0), mark "]"]).Yields .sound :=
        yields_inOrder ⟨yields_mark, yields_sub, yields_mark⟩
      refine gives_bind_sound indexed fun rest ofRest => gives_return ?_
      exact each_sound_wrap (by decide) (each_append.mpr ⟨ofValue, ofRest⟩)

theorem ne_quote_of_operatorAt {input : Input} {text : String} {operator : Operator}
    (isOperator : operatorAt input = some (text, operator)) : text ≠ "'" := by
  have noneIsQuote : ∀ entry, entry ∈ operators → entry.1 ≠ "'" := by decide
  unfold operatorAt at isOperator
  split at isOperator
  · rename_i found isFound
    obtain ⟨rfl, -⟩ := Prod.mk.inj (Option.some.inj isOperator)
    exact noneIsQuote _ (List.mem_of_find?_eq_some isFound)
  · exact nomatch isOperator

theorem sound_operatorTail {chain : Chain} {floor : Nat} (bound : Nat) {value : Forest}
    (ofValue : Each .sound value) : (operatorTail sub place chain floor bound value).Yields .sound := by
  induction bound generalizing value with
  | zero => exact gives_pure ofValue
  | succ bound ih =>
      refine gives_look fun input => gives_if (gives_return ofValue) (gives_if ?_ ?_)
      · refine gives_if ?_ (gives_return ofValue)
        refine gives_bind_sound (yields_followedBy yields_keyword (yields_fills yields_sub)) ?_
        intro rest ofRest
        exact ih (each_sound_wrap (by decide) (each_append.mpr ⟨each_fill ofValue, ofRest⟩))
      · split
        · exact gives_return ofValue
        · rename_i text operator isOperator
          refine gives_if ?_ (gives_return ofValue)
          have notQuote := ne_quote_of_operatorAt isOperator
          exact gives_bind_sound (sound_applyOperator ofValue notQuote operator)
            fun longer ofLonger => ih ofLonger

/-! ### Conditions, branches and loops -/

theorem sound_letCondition : (letCondition sub place).Yields .sound :=
  sound_node (by decide) (yields_inOrder
    ⟨yields_keyword, yields_fills yields_sub, yields_mark, yields_fills yields_sub⟩)

theorem sound_conditionTail : (conditionTail sub place).Yields .sound :=
  yields_many (yields_followedBy yields_mark (gives_choice sound_letCondition yields_sub))

theorem sound_condition {leading : Reader Forest} (ofLeading : leading.Yields .sound) :
    (condition sub leading place).Yields .sound := by
  refine gives_look fun input => ?_
  have joined (first : Forest) (ofFirst : Each .sound first) : (do
      let next ← look
      if next.startsWith "&&" then
        let rest ← conditionTail sub place
        return Forest.wrap "let_chain" (first ++ rest)
      else return first : Reader Forest).Yields .sound := by
    refine gives_look fun next => gives_if ?_ (gives_return ofFirst)
    refine gives_bind_sound sound_conditionTail fun rest ofRest => gives_return ?_
    exact each_sound_wrap (by decide) (each_append.mpr ⟨ofFirst, ofRest⟩)
  exact gives_if (gives_bind_sound sound_letCondition joined) (gives_bind_sound ofLeading joined)

theorem sound_bodyCondition : (bodyCondition sub).Yields .sound :=
  yields_fills yields_sub

theorem sound_ifExpression : (ifExpression sub).Yields .sound := by
  refine sound_node (by decide) (yields_inOrder
    ⟨yields_keyword, sound_bodyCondition, yields_fills yields_sub,
      yields_onlyIf (yields_fills (sound_node (by decide) (yields_followedBy yields_keyword ?_)))⟩)
  intro input clean
  dsimp only
  split
  · exact yields_sub input clean
  · exact yields_sub input clean

theorem sound_wordBlock {kind word : String} (ordinary : isOrdinary kind = true) :
    (wordBlock sub kind word).Yields .sound :=
  sound_node ordinary (yields_followedBy yields_keyword yields_sub)

theorem sound_movingBlock {kind word : String} (ordinary : isOrdinary kind = true) :
    (movingBlock sub kind word).Yields .sound :=
  sound_node ordinary (yields_inOrder
    ⟨yields_keyword, yields_onlyIf yields_keyword, yields_sub⟩)

theorem sound_constBlock : (constBlock sub).Yields .sound :=
  sound_node (by decide) (yields_followedBy yields_keyword (yields_fills yields_sub))

theorem sound_loopTail {label : Forest} (ofLabel : Each .sound label) :
    (loopTail sub label).Yields .sound := by
  have labelled {kind : String} {body : Reader Forest} (ofBody : body.Yields .sound)
      (ordinary : isOrdinary kind = true) :
      (node kind (do return label ++ (← body))).Yields .sound :=
    sound_node ordinary (gives_bind_sound ofBody fun _ ofForest =>
      gives_return (each_append.mpr ⟨ofLabel, ofForest⟩))
  intro input clean
  unfold loopTail
  dsimp only
  split
  · refine labelled (yields_inOrder ?_) (by decide) input clean
    exact ⟨yields_keyword, sound_bodyCondition, yields_fills yields_sub⟩
  · exact labelled (yields_followedBy yields_keyword (yields_fills yields_sub)) (by decide) input clean
  · refine labelled (yields_inOrder ?_) (by decide) input clean
    exact ⟨yields_keyword, yields_fills yields_sub, yields_keyword, yields_fills yields_sub,
      yields_fills yields_sub⟩
  · trivial

theorem sound_labelColon : labelColon.Yields .sound :=
  yields_followedBy sound_label yields_mark

theorem sound_labelled : (labelled sub).Yields .sound :=
  gives_choice (gives_bind_sound sound_labelColon fun _ ofName => sound_loopTail ofName) yields_sub

/-! ### Matches -/

theorem sound_matchPattern : (matchPattern sub).Yields .sound :=
  sound_node (by decide) (yields_followedBy yields_sub
    (yields_onlyIf (yields_followedBy yields_keyword (yields_fills yields_sub))))

theorem sound_armValue : (armValue sub).Yields .sound := by
  refine gives_look fun start => ?_
  have ended (value : Forest) (ofValue : Each .sound value) : (do
      let next ← look
      let comma ← if next.startsWith "\x7d" then Reader.pure [] else mark ","
      return value.fill "value" ++ comma : Reader Forest).Yields .sound := by
    refine gives_look fun next => ?_
    have joined (comma : Forest) (ofComma : Each .sound comma) :
        (pure (value.fill "value" ++ comma) : Reader Forest).Yields .sound :=
      gives_return (each_append.mpr ⟨each_fill ofValue, ofComma⟩)
    exact gives_if (gives_bind_sound (gives_pure each_nil) joined)
      (gives_bind_sound yields_mark joined)
  refine gives_if ?_ (gives_bind_sound yields_sub ended)
  refine gives_bind_sound yields_sub fun block ofBlock => gives_look fun next => gives_if ?_ ?_
  · exact gives_bind_sound (sound_operatorTail next.left ofBlock) ended
  · refine gives_bind_sound (yields_onlyIf yields_mark) fun comma ofComma => gives_return ?_
    exact each_append.mpr ⟨each_fill ofBlock, ofComma⟩

theorem sound_matchArm : (matchArm sub).Yields .sound :=
  sound_node (by decide) (yields_inOrder
    ⟨yields_many (gives_orElse sound_attributeItem sound_innerAttributeItem),
      yields_fills sound_matchPattern, yields_mark, sound_armValue⟩)

theorem sound_matchExpression : (matchExpression sub).Yields .sound :=
  sound_node (by decide) (yields_inOrder ⟨yields_keyword, yields_fills yields_sub, yields_fills
    (sound_node (by decide) (yields_inOrder ⟨yields_mark, yields_many sound_matchArm, yields_mark⟩))⟩)

theorem sound_blockLike : (blockLike sub).Yields .sound := by
  intro input clean
  unfold blockLike
  split
  · split
    · exact sound_labelled input clean
    · exact yields_sub input clean
  · exact sound_ifExpression input clean
  · exact sound_matchExpression input clean
  · exact sound_wordBlock (by decide) input clean
  · exact sound_wordBlock (by decide) input clean
  · exact sound_constBlock input clean
  · exact sound_movingBlock (by decide) input clean
  · exact sound_movingBlock (by decide) input clean
  · exact sound_loopTail each_nil input clean

/-! ### Closures -/

theorem sound_closureParameterType {pattern : Forest} (ofPattern : Each .sound pattern) :
    (closureParameterType sub pattern).Yields .sound := by
  refine gives_bind_sound (yields_followedBy sound_colonBehind (yields_fills yields_sub)) ?_
  intro rest ofRest
  exact gives_return (each_sound_wrap (by decide) (each_append.mpr ⟨ofPattern, ofRest⟩))

theorem sound_closureParameter {pattern : Reader Forest} (ofPattern : pattern.Yields .sound) :
    (closureParameter sub pattern).Yields .sound := by
  have typed {specifier : Reader Forest} (ofSpecifier : specifier.Yields .sound) : (do
      let mutability ← specifier
      let bound ← fills "pattern" fun input =>
        if atReceiver input then keyword "self" input else pattern input
      closureParameterType sub (mutability ++ bound) : Reader Forest).Yields .sound := by
    refine gives_bind_sound ofSpecifier fun mutability ofMutability => ?_
    refine gives_bind_sound (yields_fills (gives_choice yields_keyword ofPattern)) ?_
    intro bound ofBound
    exact sound_closureParameterType (each_append.mpr ⟨ofMutability, ofBound⟩)
  refine gives_choice (gives_orElse (typed yields_mutableSpecifier) ofPattern)
    (gives_choice (typed (gives_pure each_nil)) ?_)
  refine gives_bind_sound ofPattern fun bound ofBound => gives_look fun next => ?_
  exact gives_if (sound_closureParameterType (each_fill ofBound)) (gives_return ofBound)

theorem sound_closureParameters : (closureParameters sub).Yields .sound :=
  sound_node (by decide) (yields_inOrder ⟨yields_mark, yields_onlyIf (yields_followedBy
    (sound_closureParameter sound_closurePattern)
    (yields_many (yields_followedBy yields_mark (sound_closureParameter yields_sub)))), yields_mark⟩)

theorem sound_closure : (closure sub place).Yields .sound := by
  refine sound_node (by decide) (yields_inOrder
    ⟨yields_onlyIf yields_keyword, yields_onlyIf yields_keyword, yields_onlyIf yields_keyword,
      yields_fills sound_closureParameters,
      gives_choice ?_ (gives_choice (yields_fills yields_keyword) (yields_fills yields_sub))⟩)
  exact yields_inOrder ⟨yields_mark, yields_fills yields_sub, yields_fills yields_sub⟩

/-! ### Delimited expressions -/

theorem sound_tupleMembers (bound : Nat) : (tupleMembers sub bound).Yields .sound := by
  induction bound with
  | zero => exact gives_refuse
  | succ bound ih =>
      refine gives_choice (gives_pure each_nil) ?_
      refine gives_bind_sound yields_sub fun value ofValue => gives_look fun next => ?_
      refine gives_if ?_ (gives_return ofValue)
      refine gives_bind_sound yields_mark fun comma ofComma => ?_
      refine gives_bind_sound ih fun rest ofRest => gives_return ?_
      exact each_append.mpr ⟨each_append.mpr ⟨ofValue, ofComma⟩, ofRest⟩

theorem sound_parenthesized : (parenthesized sub).Yields .sound := by
  refine gives_bind_sound yields_mark fun opening ofOpening => ?_
  refine gives_bind_sound sound_attributeItems fun attributes ofAttributes => ?_
  refine gives_look fun input => gives_if ?_ ?_
  · refine gives_bind_sound yields_mark fun closing ofClosing => gives_return ?_
    exact each_sound_wrap (by decide) (each_append.mpr ⟨ofOpening, ofClosing⟩)
  · refine gives_bind_sound yields_sub fun first ofFirst => ?_
    refine gives_look fun next => gives_if ?_ ?_
    · refine gives_bind_sound yields_mark fun closing ofClosing => gives_return ?_
      exact each_sound_wrap (by decide)
        (each_append.mpr ⟨each_append.mpr ⟨ofOpening, ofFirst⟩, ofClosing⟩)
    · have members : (inOrder [mark ",", tupleMembers sub (next.left + 1), mark ")"]).Yields .sound :=
        yields_inOrder ⟨yields_mark, sound_tupleMembers _, yields_mark⟩
      refine gives_bind_sound members fun rest ofRest => gives_return ?_
      exact each_sound_wrap (by decide) (each_append.mpr
        ⟨each_append.mpr ⟨each_append.mpr ⟨ofOpening, ofAttributes⟩, ofFirst⟩, ofRest⟩)

theorem sound_array : (array sub).Yields .sound := by
  have elements : (many (inOrder [mark ",", attributeItems sub,
      sub (.expression .plain 0)])).Yields .sound :=
    yields_many (yields_inOrder ⟨yields_mark, sound_attributeItems, yields_sub⟩)
  refine sound_node (by decide) (yields_inOrder ⟨yields_mark, sound_attributeItems,
    gives_choice (gives_pure each_nil) (gives_choice yields_mark
      (yields_followedBy yields_sub (gives_choice ?_ ?_))), yields_mark⟩)
  · exact yields_followedBy yields_mark (yields_fills yields_sub)
  · exact yields_followedBy elements (yields_optional yields_mark)

theorem sound_fieldInitializer : (fieldInitializer sub).Yields .sound := by
  refine gives_choice (sound_node (by decide) (yields_followedBy yields_mark yields_sub)) ?_
  refine gives_bind_sound sound_attributeItems fun attributes ofAttributes => ?_
  refine gives_look fun start => gives_if ?_ ?_
  · refine gives_bind_sound yields_nameAs fun name ofName => gives_return ?_
    exact each_sound_wrap (by decide) (each_append.mpr ⟨ofAttributes, ofName⟩)
  · refine gives_bind_sound (yields_inOrder
      ⟨yields_fills sound_fieldName, yields_mark, yields_fills yields_sub⟩) ?_
    intro rest ofRest
    exact gives_return (each_sound_wrap (by decide) (each_append.mpr ⟨ofAttributes, ofRest⟩))

theorem sound_structLiteral {name : Forest} (ofName : Each .sound name) :
    (structLiteral sub name).Yields .sound := by
  have fields : (inOrder [
      mark "\x7b", commaList (fieldInitializer sub), mark "\x7d"]).Yields .sound :=
    yields_inOrder ⟨yields_mark, yields_commaList sound_fieldInitializer, yields_mark⟩
  refine sound_node (by decide) (gives_bind_sound (yields_fills (sound_node (by decide) fields)) ?_)
  intro body ofBody
  exact gives_return (each_append.mpr ⟨each_fill ofName, ofBody⟩)

theorem sound_pathExpression : (pathExpression sub place).Yields .sound := by
  refine gives_bind gives_path fun reading sound => gives_look fun next => ?_
  have ofForest := each_sound_of_plain sound.forest
  dsimp only
  split
  · rename_i generic isGeneric
    have ofGeneric := sound.arguments generic isGeneric
    refine gives_if (sound_structLiteral ?_) (gives_return ?_)
    · exact each_sound_of_plain (each_genericPath (by decide) reading.form sound.forest ofGeneric)
    · exact each_sound_wrap (by decide) (each_append.mpr ⟨each_fill ofForest, ofGeneric⟩)
  · refine gives_if ?_ (gives_if (yields_sound_of_plain (plain_macroCall ofForest))
      (gives_if gives_refuse (gives_return ofForest)))
    split
    · rename_i name isName
      exact sound_structLiteral (each_sound_of_plain (each_completeType sound.forest isName))
    · exact gives_refuse

/-! ### Operands -/

theorem sound_reference : (reference sub place).Yields .sound := by
  refine sound_node (by decide) (yields_inOrder
    ⟨yields_mark, gives_choice ?_ yields_mutableSpecifier?, yields_fills yields_sub⟩)
  intro input clean
  dsimp only
  split
  · exact yields_followedBy yields_keyword yields_keyword input clean
  · exact yields_followedBy yields_keyword yields_mutableSpecifier input clean
  · exact ⟨each_nil, clean⟩

theorem sound_target? : (target? place).Yields .sound := by
  intro input clean
  unfold target?
  split
  · cases isLabel : label input with
    | stuck stop => trivial
    | done name next stop =>
        dsimp only
        split
        · exact ⟨each_nil, clean⟩
        · exact sound_label.done clean isLabel
  · exact ⟨each_nil, clean⟩

theorem sound_operand : (operand sub place).Yields .sound := by
  have unary {text : String} (notQuote : text ≠ "'") : (node "unary_expression"
      (followedBy (mark text) (sub (.expression place.last Level.unary)))).Yields .sound :=
    sound_node (by decide) (yields_followedBy (yields_mark_of_ne notQuote) yields_sub)
  have exit {kind word : String} (ordinary : isOrdinary kind = true) :
      (node kind (followedBy (keyword word)
        (operand? sub place.last .exit Level.assignment))).Yields .sound :=
    sound_node ordinary (yields_followedBy yields_keyword sound_operand?)
  refine gives_choice sound_literal (gives_choice yields_sub ?_)
  intro input clean
  dsimp only
  split
  · exact unary (by decide) input clean
  · exact unary (by decide) input clean
  · exact unary (by decide) input clean
  · exact sound_reference input clean
  · exact sound_closure input clean
  · exact sound_parenthesized input clean
  · exact sound_array input clean
  · exact sound_node (by decide) (yields_followedBy yields_mark sound_operand?) input clean
  · split
    · exact sound_literal input clean
    · exact sound_literal input clean
    · exact sound_closure input clean
    · exact sound_closure input clean
    · exact sound_closure input clean
    · exact exit (by decide) input clean
    · exact exit (by decide) input clean
    · refine sound_node (by decide) (yields_inOrder ?_) input clean
      exact ⟨yields_keyword, sound_target?, sound_operand?⟩
    · exact sound_node (by decide) (yields_followedBy yields_keyword sound_target?) input clean
    · exact sound_pathExpression input clean

theorem sound_expressionReader {chain : Chain} {floor : Nat} :
    (expressionReader sub place chain floor).Yields .sound :=
  gives_look fun input => gives_bind_sound sound_operand fun _ ofFirst =>
    sound_operatorTail (input.left + 1) ofFirst

end

end Codemod.Grammar
