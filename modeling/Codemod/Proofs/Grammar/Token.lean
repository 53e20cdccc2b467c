import Codemod.Grammar.TokenTree
import Codemod.Proofs.Grammar.Reader

/-!
Comments, words, marks, literals and token trees.

A quote is read by itself only in front of the name of a lifetime or label and between the delimiters of
a token tree.
-/

set_option autoImplicit false

namespace Codemod.Grammar

open Codemod.Tree (identifierKinds quotedKinds)
open Forest (Each Enclosed Led)

/-! ### Comments -/

theorem sound_tokenNode {kind : String} (notQuote : kind ≠ "'") (before after : Input) :
    (tokenNode kind before after).Sound :=
  Grade.sound.ofLeaf notQuote none before.offset after.offset

theorem sound_withField {tree : Cst} (name : String) (sound : tree.Sound) :
    (tree.withField name).Sound := by
  obtain ⟨kind, field, start, stop, children⟩ := tree
  cases field with
  | none => exact Grade.sound.holds_congr sound
  | some inner => exact sound

/-- A comment, which opens with its mark. -/
theorem sound_comment {kind mark : String} {start stop : Nat} {before after : Input}
    {body : List Cst} (isComment : kind = "line_comment" ∨ kind = "block_comment")
    (isMark : mark = "//" ∨ mark = "/*") (sound : ∀ tree, tree ∈ body → tree.Sound) :
    (Cst.node kind none start stop (tokenNode mark before after :: body)).isComment = true ∧
      (Cst.node kind none start stop (tokenNode mark before after :: body)).Sound := by
  have notQuote : kind ≠ "'" ∧ mark ≠ "'" ∧ identifierKinds.contains mark = false := by
    rcases isComment with rfl | rfl <;> rcases isMark with rfl | rfl <;> decide
  refine ⟨?_, .plain notQuote.1 ?_ ?_⟩
  · simpa [Cst.isComment, Cst.kind] using isComment
  · intro _
    change (false || !identifierKinds.contains mark) = true
    rw [notQuote.2.2]
    rfl
  · intro tree isIn
    rcases List.mem_cons.mp isIn with rfl | isIn
    · exact sound_tokenNode notQuote.2.1 before after
    · exact sound tree isIn

theorem sound_lineDocumentation {side text : String} (isSide : side = "inner" ∨ side = "outer")
    (notQuote : text ≠ "'") (input : Input) :
    ∀ tree, tree ∈ (lineDocumentation side text input).1 → tree.Sound := by
  have ordinary : isOrdinary (side ++ "_doc_comment_marker") = true := by
    rcases isSide with rfl | rfl <;> decide
  obtain ⟨markerNotQuote, notLine, notBlock⟩ := isOrdinary_iff.mp ordinary
  intro tree isIn
  rcases List.mem_cons.mp isIn with rfl | isIn
  · refine .plain markerNotQuote ?_ ?_
    · intro isComment
      simp [Cst.isComment, Cst.kind, notLine, notBlock] at isComment
    · intro child isChild
      rw [List.mem_singleton.mp isChild]
      exact sound_tokenNode notQuote _ _
  · rw [List.mem_singleton.mp isIn]
    exact sound_withField _ (sound_tokenNode (by decide) _ _)

theorem sound_blockBody (input : Input) : ∀ tree, tree ∈ (blockBody input).1 → tree.Sound := by
  have noBody : ∀ tree, tree ∈ ([] : List Cst) → tree.Sound := nofun
  have marked (side : String) (isSide : side = "inner" ∨ side = "outer") :
      ((tokenNode (side ++ "_doc_comment_marker") input (input.advance 1)).withField side).Sound := by
    refine sound_withField _ (sound_tokenNode ?_ _ _)
    rcases isSide with rfl | rfl <;> decide
  have documented {marker : Cst} (ofMarker : marker.Sound) (final : Input) :
      ∀ tree, tree ∈ [marker, (tokenNode "doc_comment" (input.advance 1) final).withField "doc"] →
        tree.Sound := by
    refine List.forall_mem_cons.mpr ⟨ofMarker, List.forall_mem_singleton.mpr ?_⟩
    exact sound_withField _ (sound_tokenNode (by decide) _ _)
  unfold blockBody
  dsimp only
  split
  · exact noBody
  · split
    · split
      · exact List.forall_mem_singleton.mpr (marked "inner" (.inl rfl))
      · exact documented (marked "inner" (.inl rfl)) _
    · exact noBody
    · exact noBody
    · split
      · exact List.forall_mem_singleton.mpr (marked "outer" (.inr rfl))
      · exact documented (marked "outer" (.inr rfl)) _
    · exact noBody

theorem sound_blockComment {before opened final : Input} {tree : Cst}
    (isComment : blockComment before opened = some (tree, final)) :
    tree.isComment = true ∧ tree.Sound := by
  unfold blockComment at isComment
  dsimp only at isComment
  split at isComment
  · obtain ⟨rfl, -⟩ := Prod.mk.inj (Option.some.inj isComment)
    refine sound_comment (.inr rfl) (.inr rfl) ?_
    intro inner isIn
    rcases List.mem_append.mp isIn with isBody | isCloser
    · exact sound_blockBody opened inner isBody
    · rw [List.mem_singleton.mp isCloser]
      exact sound_tokenNode (by decide) _ _
  · exact nomatch isComment

theorem sound_plainCommentTail {bound : Nat} {input final : Input} {forest : Forest}
    (isTail : plainCommentTail blockComment bound input = some (forest, final)) :
    ∀ tree, tree ∈ forest → tree.Sound := by
  induction bound generalizing input forest final with
  | zero =>
      obtain ⟨rfl, -⟩ := Prod.mk.inj (Option.some.inj isTail)
      exact nofun
  | succ bound ih =>
      unfold plainCommentTail at isTail
      dsimp only at isTail
      split at isTail
      · obtain ⟨rfl, -⟩ := Prod.mk.inj (Option.some.inj isTail)
        have noBody : ∀ tree, tree ∈ ([] : List Cst) → tree.Sound := nofun
        intro tree isIn
        rw [List.mem_singleton.mp isIn]
        exact (sound_comment (.inl rfl) (.inl rfl) noBody).2
      · split at isTail
        · split at isTail
          · exact nomatch isTail
          · rename_i inner rest isInner
            split at isTail
            · exact nomatch isTail
            · rename_i later final' isLater
              obtain ⟨rfl, -⟩ := Prod.mk.inj (Option.some.inj isTail)
              intro tree isIn
              rcases List.mem_cons.mp isIn with rfl | isIn
              · exact (sound_blockComment isInner).2
              · exact ih isLater tree isIn
        · obtain ⟨rfl, -⟩ := Prod.mk.inj (Option.some.inj isTail)
          exact nofun

theorem sound_lineComment {input final : Input} {tree : Cst}
    (isComment : lineComment input = some (tree, final)) : tree.isComment = true ∧ tree.Sound := by
  have finished {tail : Forest × Input} (sound : ∀ inner, inner ∈ tail.1 → inner.Sound)
      (isFinished : some (Cst.node "line_comment" none input.offset tail.2.offset
        (tokenNode "//" input (input.advance 2) :: tail.1), tail.2) = some (tree, final)) :
      tree.isComment = true ∧ tree.Sound := by
    obtain ⟨rfl, -⟩ := Prod.mk.inj (Option.some.inj isFinished)
    exact sound_comment (.inl rfl) (.inl rfl) sound
  unfold lineComment at isComment
  dsimp only at isComment
  split at isComment
  · split at isComment
    · exact nomatch isComment
    · rename_i tail isTail
      exact finished (sound_plainCommentTail isTail) isComment
  · exact finished (sound_lineDocumentation (.inr rfl) (by decide) _) isComment
  · exact finished (sound_lineDocumentation (.inl rfl) (by decide) _) isComment
  · have noBody : ∀ tree, tree ∈ ([] : List Cst) → tree.Sound := nofun
    obtain ⟨rfl, -⟩ := Prod.mk.inj (Option.some.inj isComment)
    exact sound_comment (.inl rfl) (.inl rfl) noBody


theorem comments_advance (count : Nat) (input : Input) :
    (input.advance count).comments = input.comments := by
  fun_induction Input.advance count input with
  | case1 input => rfl
  | case2 input count isEnd => rfl
  | case3 input count c rest isRest ih => exact ih

theorem Input.Clean.advanceWhile {input : Input} (clean : input.Clean) (test : Char → Bool) :
    (input.advanceWhile test).Clean := by
  unfold Input.Clean Input.advanceWhile
  rw [comments_advance]
  exact clean

theorem clean_settleWithin {bound : Nat} {input next : Input} (clean : input.Clean)
    (isNext : settleWithin bound input = some next) : next.Clean := by
  induction bound generalizing input with
  | zero =>
      obtain rfl := Option.some.inj isNext
      exact clean
  | succ bound ih =>
      have cleanBehind := clean.advanceWhile isBlank
      -- one more comment, and the ones before it
      have kept {tree : Cst} {rest : Input} (isComment : tree.isComment = true ∧ tree.Sound) :
          ({ rest with comments := (input.advanceWhile isBlank).comments ++ [tree] } : Input).Clean := by
        intro other isIn
        rcases List.mem_append.mp isIn with isBefore | isLast
        · exact cleanBehind other isBefore
        · rw [List.mem_singleton.mp isLast]
          exact isComment
      unfold settleWithin at isNext
      dsimp only at isNext
      split at isNext
      · split at isNext
        · exact nomatch isNext
        · rename_i isComment
          exact ih (kept (sound_lineComment isComment)) isNext
      · split at isNext
        · exact nomatch isNext
        · rename_i isComment
          exact ih (kept (sound_blockComment isComment)) isNext
      · obtain rfl := Option.some.inj isNext
        exact cleanBehind

theorem clean_settle {after next : Input} (noComments : after.comments = [])
    (isNext : settle after = some next) : next.Clean := by
  refine clean_settleWithin ?_ isNext
  unfold Input.Clean
  rw [noComments]
  exact nofun

/-! ### Words and marks -/

/-- A token of the kind behind comments. -/
def Forest.Taken (kind : String) (forest : Forest) : Prop :=
  ∃ comments start stop, forest = comments ++ [.node kind none start stop []] ∧
    ∀ tree, tree ∈ comments → tree.isComment = true ∧ tree.Sound

/-- What may end a node that holds quotes. -/
structure Forest.Closing (forest : Forest) : Prop where
  each : Each .member forest
  closed : ∀ front last, (front ++ forest).getLast? = some last → last.isQuote = false

namespace Forest.Taken

variable {kind : String} {forest : Forest}

theorem each (taken : forest.Taken kind) (grade : Grade) (notQuote : kind ≠ "'") :
    Each grade forest := by
  obtain ⟨comments, start, stop, rfl, areComments⟩ := taken
  refine Forest.each_append.mpr ⟨?_, ?_⟩
  · intro tree isIn
    exact grade.ofComment (areComments tree isIn).1 (areComments tree isIn).2
  · exact Forest.each_singleton.mpr (grade.ofLeaf notQuote none start stop)

theorem member (taken : forest.Taken kind) : Each .member forest := by
  by_cases isQuote : kind = "'"
  · subst isQuote
    obtain ⟨comments, start, stop, rfl, areComments⟩ := taken
    refine Forest.each_append.mpr ⟨?_, ?_⟩
    · intro tree isIn
      exact Grade.member.ofComment (areComments tree isIn).1 (areComments tree isIn).2
    · exact Forest.each_singleton.mpr ⟨.inr rfl, rfl⟩
  · exact taken.each .member isQuote

theorem led (taken : forest.Taken kind)
    (opens : kind ∉ "line_comment" :: "block_comment" :: identifierKinds) : forest.Led := by
  obtain ⟨comments, start, stop, rfl, areComments⟩ := taken
  simp only [List.mem_cons, not_or] at opens
  refine ⟨comments, .node kind none start stop [], [], rfl,
    fun tree isIn => (areComments tree isIn).1, ?_, ?_⟩
  · simp [Cst.isComment, Cst.kind, opens]
  · simp [Cst.firstKind, opens.2.2]

theorem closing (taken : forest.Taken kind) (notQuote : kind ≠ "'") : forest.Closing := by
  refine ⟨taken.member, ?_⟩
  intro front last isLast
  obtain ⟨comments, start, stop, rfl, -⟩ := taken
  rw [← List.append_assoc, List.getLast?_concat] at isLast
  obtain rfl := Option.some.inj isLast
  simp [Cst.isQuote, Cst.kind, notQuote]

end Forest.Taken

namespace Reader

theorem gives_take (kind : String) (count : Nat) : (take kind count).Gives (Forest.Taken kind) := by
  intro input clean
  unfold take
  dsimp only
  split
  · trivial
  · rename_i next isNext
    exact ⟨⟨input.comments, _, _, rfl, clean⟩, clean_settle rfl isNext⟩

theorem gives_mark (text : String) : (mark text).Gives (Forest.Taken text) :=
  gives_choice (gives_take text text.length) (fun _ _ => trivial)

theorem gives_keyword (word : String) : (keyword word).Gives (Forest.Taken word) :=
  gives_choice (gives_take word word.length) (fun _ _ => trivial)

theorem gives_nameAs (kind : String) (reserved : List String) :
    (nameAs kind reserved).Gives (Forest.Taken kind) := by
  intro input clean
  unfold nameAs
  dsimp only
  split
  · trivial
  · exact gives_take kind _ input clean

theorem word_ne_quote (input : Input) : input.word ≠ "'" := by
  intro isQuote
  have isTaken : input.rest.take (wordLength input.rest) = ['\''] :=
    String.ofList_injective isQuote
  cases isRest : input.rest with
  | nil =>
      rw [isRest] at isTaken
      exact nomatch isTaken
  | cons c rest =>
      rw [isRest] at isTaken
      cases isLength : wordLength (c :: rest) with
      | zero =>
          rw [isLength] at isTaken
          exact nomatch isTaken
      | succ length =>
          rw [isLength, List.take_succ_cons] at isTaken
          obtain ⟨rfl, -⟩ := List.cons.inj isTaken
          exact nomatch isLength

section

variable {grade : Grade} {kind word text : String} {reserved : List String}

theorem yields_take {count : Nat} (notQuote : kind ≠ "'") : (take kind count).Yields grade :=
  (gives_take kind count).mono fun _ taken => taken.each grade notQuote

theorem yields_mark_of_ne (notQuote : text ≠ "'") : (mark text).Yields grade :=
  (gives_mark text).mono fun _ taken => taken.each grade notQuote

theorem yields_nameAs_of_ne (notQuote : kind ≠ "'") : (nameAs kind reserved).Yields grade :=
  (gives_nameAs kind reserved).mono fun _ taken => taken.each grade notQuote

theorem yields_keywordAs (notQuote : kind ≠ "'") : (keywordAs kind word).Yields grade :=
  gives_choice (yields_take notQuote) (fun _ _ => trivial)

theorem yields_keyword : (keyword word).Yields grade := by
  by_cases isQuote : word = "'"
  · intro input clean
    unfold keyword
    split
    · rename_i isWord
      exact absurd ((beq_iff_eq.mp isWord).trans isQuote) (word_ne_quote input)
    · trivial
  · exact (gives_keyword word).mono fun _ taken => taken.each grade isQuote

/-- What the kind of a token says of it. -/
def tokenGrade (kind : String) : Grade := if kind = "'" then .member else .sound

theorem each_tokenGrade {forest : Forest} (taken : forest.Taken kind) :
    Each (tokenGrade kind) forest := by
  unfold tokenGrade
  split
  · exact taken.member
  · rename_i notQuote
    exact taken.each .sound notQuote

theorem yields_mark : (mark text).Yields (tokenGrade text) :=
  (gives_mark text).mono fun _ taken => each_tokenGrade taken

theorem yields_nameAs : (nameAs kind reserved).Yields (tokenGrade kind) :=
  (gives_nameAs kind reserved).mono fun _ taken => each_tokenGrade taken

variable {reader first later : Reader Forest}

theorem yields_commaSeparated (ofFirst : first.Yields grade) (ofLater : later.Yields grade) :
    (commaSeparated first later).Yields grade :=
  yields_followedBy ofFirst
    (yields_many (yields_followedBy (yields_mark_of_ne (by decide)) ofLater))

theorem yields_commaListFrom (ofFirst : first.Yields grade) (ofLater : later.Yields grade) :
    (commaListFrom first later).Yields grade :=
  yields_followedBy (yields_optional (yields_commaSeparated ofFirst ofLater))
    (yields_optional (yields_mark_of_ne (by decide)))

theorem yields_commaList (ofReader : reader.Yields grade) : (commaList reader).Yields grade :=
  yields_commaListFrom ofReader ofReader

theorem yields_commaListOne (ofReader : reader.Yields grade) :
    (commaListOne reader).Yields grade :=
  yields_followedBy (yields_commaSeparated ofReader ofReader)
    (yields_optional (yields_mark_of_ne (by decide)))

/-! ### Literals -/

theorem yields_integer : integer.Yields grade := by
  intro input clean
  unfold integer
  split
  · trivial
  · exact yields_take (by decide) input clean

theorem yields_number : number.Yields grade := by
  intro input clean
  unfold number
  split
  · exact yields_integer input clean
  · exact yields_take (by decide) input clean

theorem sound_stringPieces {bound : Nat} {input final : Input} {pieces : Forest}
    (isRead : stringPieces bound input = some (pieces, final)) :
    ∀ tree, tree ∈ pieces → tree.Sound := by
  induction bound generalizing input pieces with
  | zero => exact nomatch isRead
  | succ bound ih =>
      have more {kind : String} (notQuote : kind ≠ "'") {after : Input}
          {joined : Forest × Input → Forest × Input}
          (joins : ∀ read, joined read = (tokenNode kind input after :: read.1, read.2))
          (isMore : (stringPieces bound after).map joined = some (pieces, final)) :
          ∀ tree, tree ∈ pieces → tree.Sound := by
        obtain ⟨⟨rest, behind⟩, isRest, same⟩ := Option.map_eq_some_iff.mp isMore
        obtain ⟨rfl, rfl⟩ := Prod.mk.inj ((joins _).symm.trans same)
        intro tree isIn
        rcases List.mem_cons.mp isIn with rfl | isIn
        · exact sound_tokenNode notQuote input after
        · exact ih isRest tree isIn
      unfold stringPieces at isRead
      split at isRead
      · exact nomatch isRead
      · obtain ⟨rfl, -⟩ := Prod.mk.inj (Option.some.inj isRead)
        intro tree isIn
        rw [List.mem_singleton.mp isIn]
        exact sound_tokenNode (by decide) _ _
      · split at isRead
        · exact nomatch isRead
        · exact more (by decide) (fun _ => rfl) isRead
      · exact more (by decide) (fun _ => rfl) isRead

theorem lone_pieces {kind mark : String} {start stop : Nat} {before after : Input}
    {pieces : List Cst} (isLiteral : kind = "string_literal" ∨ kind = "raw_string_literal")
    (isMark : mark = "\"" ∨ mark = "string_content")
    (sound : ∀ tree, tree ∈ pieces → tree.Sound) :
    Grade.lone.Holds (.node kind none start stop (tokenNode mark before after :: pieces)) := by
  have ordinary : isOrdinary kind = true ∧ mark ≠ "'" ∧ identifierKinds.contains mark = false := by
    rcases isLiteral with rfl | rfl <;> rcases isMark with rfl | rfl <;> decide
  have guarded : (Cst.node kind none start stop
      (tokenNode mark before after :: pieces)).isGuarded = true := by
    change (false || !identifierKinds.contains mark) = true
    rw [ordinary.2.2]
    rfl
  refine ⟨.plain (isOrdinary_iff.mp ordinary.1).1 (fun _ => guarded) ?_, guarded⟩
  intro tree isIn
  rcases List.mem_cons.mp isIn with rfl | isIn
  · exact sound_tokenNode ordinary.2.1 before after
  · exact sound tree isIn

theorem yields_leave {tree : Cst} (holds : grade.Holds tree) (after : Input) :
    (leave tree after).Yields grade := by
  intro input clean
  unfold leave
  split
  · trivial
  · rename_i next isNext
    exact ⟨Forest.each_append.mpr ⟨clean.each grade, Forest.each_singleton.mpr holds⟩,
      clean_settle rfl isNext⟩

theorem lone_string : string.Yields .lone := by
  intro input clean
  unfold string
  dsimp only
  split
  · trivial
  · split
    · trivial
    · rename_i isRead
      exact yields_leave (lone_pieces (.inl rfl) (.inl rfl) (sound_stringPieces isRead)) _ input clean

theorem lone_rawString : rawString.Yields .lone := by
  have noMore : ∀ tree, tree ∈ ([] : List Cst) → tree.Sound := nofun
  intro input clean
  unfold rawString
  dsimp only
  split
  · trivial
  · split
    · trivial
    · exact yields_leave (lone_pieces (.inr rfl) (.inr rfl) noMore) _ input clean

theorem lone_node {kind : String} (ordinary : isOrdinary kind = true)
    (ofReader : reader.Gives fun forest => Each .sound forest ∧ forest.Led) :
    (node kind reader).Yields .lone :=
  gives_node ofReader fun _ given => Forest.each_lone_wrap_of_led ordinary given.1 given.2

theorem lone_boolean {word : String} (isWord : word = "true" ∨ word = "false") :
    (node "boolean_literal" (keyword word)).Yields .lone := by
  have opens : word ≠ "'" ∧ word ∉ "line_comment" :: "block_comment" :: identifierKinds := by
    rcases isWord with rfl | rfl <;> decide
  exact lone_node (by decide) ((gives_keyword word).mono fun _ taken =>
    ⟨taken.each .sound opens.1, taken.led opens.2⟩)

theorem lone_literal : literal.Yields .lone := by
  intro input clean
  unfold literal
  split
  · exact lone_rawString input clean
  · split
    · exact yields_take (by decide) input clean
    · split
      · exact lone_string input clean
      · split
        · exact lone_boolean (.inl rfl) input clean
        · exact lone_boolean (.inr rfl) input clean
        · exact yields_number input clean

theorem yields_sound_of_lone (lone : reader.Yields .lone) : reader.Yields .sound :=
  lone.mono fun _ each => Forest.each_sound_of_lone each

theorem yields_member_of_lone (lone : reader.Yields .lone) : reader.Yields .member :=
  lone.mono fun _ each => Forest.each_member_of_lone each

theorem yields_sound_of_plain (plain : reader.Yields .plain) : reader.Yields .sound :=
  plain.mono fun _ each => Forest.each_sound_of_plain each

theorem sound_literal : literal.Yields .sound := yields_sound_of_lone lone_literal

theorem sound_string : string.Yields .sound := yields_sound_of_lone lone_string

theorem sound_negativeLiteral : negativeLiteral.Yields .sound :=
  sound_node (by decide) (yields_followedBy yields_mark yields_number)

theorem closing_followedBy (ofFirst : first.Yields .member) (ofRest : later.Gives Forest.Closing) :
    (followedBy first later).Gives Forest.Closing := by
  refine gives_followedBy ofFirst ofRest ?_
  intro front back ofFront ofBack
  refine ⟨Forest.each_append.mpr ⟨ofFront, ofBack.each⟩, ?_⟩
  intro before last isLast
  rw [← List.append_assoc] at isLast
  exact ofBack.closed (before ++ front) last isLast

theorem closing_last (ofReader : reader.Gives Forest.Closing) :
    (inOrder [reader]).Gives Forest.Closing := by
  refine gives_followedBy ofReader (gives_pure rfl) ?_
  intro forest none closing isNone
  subst isNone
  rw [List.append_nil]
  exact closing

theorem enclosed_followedBy (ofFirst : first.Gives (Forest.Taken kind))
    (opens : kind ∉ "line_comment" :: "block_comment" :: identifierKinds)
    (ofRest : later.Gives Forest.Closing) : (followedBy first later).Gives Enclosed := by
  refine gives_followedBy ofFirst ofRest ?_
  intro front back ofFront ofBack
  exact ⟨Forest.each_append.mpr ⟨ofFront.member, ofBack.each⟩, (ofFront.led opens).append back,
    ofBack.closed front⟩

theorem lone_holder (isHolder : kind ∈ quoteHolders) (enclosed : reader.Gives Enclosed) :
    (node kind reader).Yields .lone :=
  gives_node enclosed fun _ given => Forest.each_lone_wrap_of_enclosed isHolder given

theorem sound_quotedName (isQuoted : kind ∈ quotedKinds) : (quotedName kind).Yields .sound := by
  refine yields_sound_of_lone (lone_holder (List.mem_append_left _ isQuoted) ?_)
  refine enclosed_followedBy (gives_mark "'") (by decide) ?_
  exact (gives_nameAs "identifier" []).mono fun _ taken => taken.closing (by decide)

theorem sound_lifetime : lifetime.Yields .sound := sound_quotedName (by decide)

theorem sound_label : label.Yields .sound := sound_quotedName (by decide)

end

end Reader

/-! ### Token trees -/

/-- What is asked of the trees of a category. -/
def Category.grade : Category → Grade
  | .tokenTree _ => .lone
  | .tokens _ => .member
  | _ => .sound

/-- Readers of all categories whose trees are of the grade of the category. -/
class SoundReaders (sub : Readers) : Prop where
  yields : ∀ category, (sub category).Yields category.grade

open Reader

section

variable {sub : Readers} [SoundReaders sub] {sort : TokenTreeSort} {grade : Grade}

theorem yields_sub {category : Category} : (sub category).Yields category.grade :=
  SoundReaders.yields category

theorem sound_subTree : (sub (.tokenTree sort)).Yields .sound :=
  yields_sound_of_lone yields_sub

theorem gives_metavariable : metavariable.Gives (Forest.Taken "metavariable") := by
  intro input clean
  unfold metavariable
  split
  · trivial
  · exact gives_take _ _ input clean

theorem yields_metavariable : metavariable.Yields grade :=
  gives_metavariable.mono fun _ taken => taken.each grade (by decide)

theorem member_take (kind : String) (count : Nat) : (take kind count).Yields .member :=
  (gives_take kind count).mono fun _ taken => taken.member

theorem member_tokenMark : tokenMark.Yields .member := by
  intro input clean
  unfold tokenMark
  split
  · exact member_take _ _ input clean
  · trivial

theorem member_plainToken : plainToken.Yields .member := by
  intro input clean
  unfold plainToken
  split
  · exact yields_member_of_lone lone_literal input clean
  · split
    · exact member_tokenMark input clean
    · exact yields_member_of_lone lone_literal input clean
    · exact yields_member_of_lone lone_literal input clean
    · exact member_take _ _ input clean
    · split
      · exact member_take _ _ input clean
      · split
        · exact member_take _ _ input clean
        · exact member_take _ _ input clean

theorem closing_mark {text : String} (notQuote : text ≠ "'") : (mark text).Gives Forest.Closing :=
  (gives_mark text).mono fun _ taken => taken.closing notQuote

theorem clean_passBlockComments {bound : Nat} {input next : Input} (clean : input.Clean)
    (isNext : passBlockComments bound input = some next) : next.Clean := by
  induction bound generalizing input with
  | zero =>
      obtain rfl := Option.some.inj isNext
      exact clean
  | succ bound ih =>
      unfold passBlockComments at isNext
      dsimp only at isNext
      split at isNext
      · split at isNext
        · exact nomatch isNext
        · rename_i tree rest isComment
          refine ih ?_ isNext
          intro other isIn
          rcases List.mem_append.mp isIn with isBefore | isLast
          · exact clean other isBefore
          · rw [List.mem_singleton.mp isLast]
            exact sound_blockComment isComment
      · obtain rfl := Option.some.inj isNext
        exact clean

theorem rest_advance (count : Nat) (input : Input) :
    (input.advance count).rest = input.rest.drop count := by
  fun_induction Input.advance count input with
  | case1 input => rfl
  | case2 input count isEnd => rw [isEnd, List.drop_nil]
  | case3 input count c rest isRest ih => rw [ih, isRest, List.drop_succ_cons]

theorem rest_advanceWhile (test : Char → Bool) (input : Input) :
    (input.advanceWhile test).rest = input.rest.dropWhile test := by
  rw [Input.advanceWhile, rest_advance]
  induction input.rest with
  | nil => rfl
  | cons c rest ih =>
      by_cases passes : test c = true
      · rw [List.takeWhile_cons_of_pos passes, List.dropWhile_cons_of_pos passes, List.length_cons,
          List.drop_succ_cons, ih]
      · rw [List.takeWhile_cons_of_neg passes, List.dropWhile_cons_of_neg passes]
        rfl

theorem repeats_of_operator {passed : Input} {c : Char} {behind : List Char}
    (isOperator : (passed.advanceWhile fun c =>
      c != '+' && c != '*' && c != '?' && !isNul c).rest = c :: behind)
    (notNul : isNul c = false) : c = '+' ∨ c = '*' ∨ c = '?' := by
  rw [rest_advanceWhile] at isOperator
  have stops := List.head?_dropWhile_not
    (fun c => c != '+' && c != '*' && c != '?' && !isNul c) passed.rest
  rw [isOperator] at stops
  simp only [List.head?_cons, notNul, Bool.not_false, Bool.and_true, Bool.and_eq_false_iff,
    bne_eq_false_iff_eq] at stops
  rcases stops with (isPlus | isStar) | isQuestion
  · exact .inl isPlus
  · exact .inr (.inl isStar)
  · exact .inr (.inr isQuestion)

theorem closing_append_leaf {comments forest : Forest} {kind : String} {start stop : Nat}
    (areComments : Each .member comments) (notQuote : kind ≠ "'") (closing : forest.Closing) :
    Forest.Closing (comments ++ .node kind none start stop [] :: forest) := by
  constructor
  · refine Forest.each_append.mpr ⟨areComments, List.forall_mem_cons.mpr ⟨?_, closing.each⟩⟩
    exact Grade.member.ofLeaf notQuote none start stop
  · intro front last isLast
    rw [List.append_cons, ← List.append_assoc] at isLast
    exact closing.closed _ last isLast

theorem closing_repetitionEnd : repetitionEnd.Gives Forest.Closing := by
  intro input clean
  unfold repetitionEnd
  split
  · dsimp only
    split
    · trivial
    · rename_i passed isPassed
      have cleanPassed : passed.Clean := by
        refine clean_passBlockComments ?_ isPassed
        intro tree isIn
        exact nomatch isIn
      split
      · rename_i c behind isOperator
        split
        · trivial
        · rename_i notNul
          have notQuote : String.singleton c ≠ "'" := by
            rcases repeats_of_operator isOperator (Bool.not_eq_true _ ▸ notNul) with
              rfl | rfl | rfl <;> decide
          split
          · trivial
          · rename_i forest rest stop isTaken
            have cleanOperator := cleanPassed.advanceWhile fun c =>
              c != '+' && c != '*' && c != '?' && !isNul c
            obtain ⟨taken, cleanRest⟩ : forest.Taken (String.singleton c) ∧ rest.Clean := by
              refine (gives_take (String.singleton c) 1).done ?_ isTaken
              exact fun tree isIn => cleanOperator tree isIn
            exact ⟨closing_append_leaf (clean.each .member) (by decide) (taken.closing notQuote),
              cleanRest⟩
      · trivial
  · trivial

theorem lone_tokenTree : (tokenTree sub sort).Yields .lone := by
  have isHolder : sort.kind ∈ quoteHolders := by
    cases sort <;> decide
  have delimited (opening closing : String)
      (opens : opening ∉ "line_comment" :: "block_comment" :: identifierKinds)
      (notQuote : closing ≠ "'") :
      (inOrder [mark opening, sub (.tokens sort), mark closing]).Gives Enclosed :=
    enclosed_followedBy (gives_mark opening) opens
      (closing_followedBy yields_sub (closing_last (closing_mark notQuote)))
  refine lone_holder isHolder (gives_firstOf ?_)
  intro reader isIn
  simp only [List.mem_cons, List.not_mem_nil, or_false] at isIn
  rcases isIn with rfl | rfl | rfl
  · exact delimited "(" ")" (by decide) (by decide)
  · exact delimited "[" "]" (by decide) (by decide)
  · exact delimited "\x7b" "\x7d" (by decide) (by decide)

theorem lone_repetition {kind : String} (isHolder : kind ∈ quoteHolders) :
    (repetition sub kind sort).Yields .lone := by
  refine lone_holder isHolder (enclosed_followedBy (gives_mark "$") (by decide) ?_)
  exact closing_followedBy (yields_mark_of_ne (by decide)) (closing_followedBy yields_sub
    (closing_last closing_repetitionEnd))

theorem sound_fragment : (firstOf (fragmentKinds.map keyword)).Yields .sound := by
  refine gives_firstOf ?_
  intro reader isIn
  obtain ⟨kind, -, rfl⟩ := List.mem_map.mp isIn
  exact yields_keyword

theorem lone_boundVariable : boundVariable.Yields .lone := by
  have named : (fills "name" metavariable).Gives fun forest => Each .sound forest ∧ forest.Led := by
    refine gives_fills gives_metavariable ?_
    intro forest taken
    exact ⟨Forest.each_fill (taken.each .sound (by decide)), (taken.led (by decide)).fill "name"⟩
  have typed : (inOrder [mark ":", fills "type"
      (node "fragment_specifier" (firstOf (fragmentKinds.map keyword)))]).Yields .sound :=
    yields_inOrder ⟨yields_mark, yields_fills (sound_node (by decide) sound_fragment)⟩
  intro input clean
  unfold boundVariable
  dsimp only
  split
  · refine lone_node (by decide) (gives_followedBy named typed ?_) input clean
    intro front back ofFront ofBack
    exact ⟨Forest.each_append.mpr ⟨ofFront.1, ofBack⟩, ofFront.2.append back⟩
  · exact yields_metavariable input clean

theorem lone_dollarToken : (dollarToken sub sort).Yields .lone := by
  intro input clean
  unfold dollarToken
  dsimp only
  split
  · exact yields_mark_of_ne (by decide) input clean
  · split
    · exact yields_metavariable input clean
    · exact lone_repetition (by decide) input clean
  · split
    · exact lone_boundVariable input clean
    · exact lone_repetition (by decide) input clean

theorem member_treeToken : (treeToken sub sort).Yields .member := by
  intro input clean
  unfold treeToken
  split
  · trivial
  · split
    · exact yields_member_of_lone yields_sub input clean
    · split
      · exact yields_member_of_lone lone_dollarToken input clean
      · exact member_plainToken input clean

theorem member_treeTokens : (treeTokens sub sort).Yields .member :=
  yields_many member_treeToken

theorem sound_macroRule : (macroRule sub).Yields .sound :=
  sound_node (by decide)
    (yields_inOrder ⟨yields_fills sound_subTree, yields_mark, yields_fills sound_subTree⟩)

theorem sound_macroRules : (macroRules sub).Yields .sound :=
  yields_followedBy (yields_many (yields_followedBy sound_macroRule yields_mark))
    (yields_optional sound_macroRule)

theorem sound_macroDefinition : (macroDefinition sub).Yields .sound :=
  sound_node (by decide) (yields_inOrder ⟨yields_mark, yields_fills yields_nameAs, yields_firstOf
    ⟨yields_inOrder ⟨yields_mark, sound_macroRules, yields_mark, yields_mark⟩,
      yields_inOrder ⟨yields_mark, sound_macroRules, yields_mark, yields_mark⟩,
      yields_inOrder ⟨yields_mark, sound_macroRules, yields_mark⟩⟩⟩)

end

end Codemod.Grammar
