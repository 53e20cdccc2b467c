import Codemod.Name.Check

/-!
Which texts are accepted as names.

A name is spelled as an identifier is: a letter or an underscore, and characters that continue an
identifier, possibly behind `r#`. Before it is read, a text loses the blanks and comments around its
tokens, and a byte order mark in front.

Main statement: the texts that are accepted are the identifiers that are no reserved words, with blanks
and comments around them.
-/

set_option autoImplicit false

namespace Codemod.Name

open Codemod.Text (isIdentifierContinue isIdentifierStart isWhite)

/-! ### Spelling -/

def isPlainWord : List Char → Bool
  | [] => false
  | c :: rest => startsWord c && rest.all isIdentifierContinue

/-- Whether a text is spelled exactly as an identifier, raw or not. -/
def isSpelled : List Char → Bool
  | 'r' :: '#' :: rest => isPlainWord rest
  | text => isPlainWord text

/-- An identifier that names something: it is no reserved word, and raw only where this is allowed. -/
structure IsName (letters : List Char) : Prop where
  spelled : isSpelled letters = true
  notReserved : String.ofList letters ∉ reservedWords
  rawAllowed : ∀ word, letters = 'r' :: '#' :: word → word ∉ neverRaw

/-! ### Characters -/

/-- A character that neither continues a word nor opens a literal with it. -/
def endsWord (c : Char) : Bool :=
  !isIdentifierContinue c && !(['#', '"', '\''].contains c)

theorem of_range (test : Char → Bool) {low high c : Char} (range : low ≤ c ∧ c ≤ high)
    (all : (List.range' low.toNat (high.toNat + 1 - low.toNat)).all fun code =>
      test (Char.ofNat code)) : test c = true := by
  have atLeast : low.toNat ≤ c.toNat := range.1
  have atMost : c.toNat ≤ high.toNat := range.2
  have passes := List.all_eq_true.mp all c.toNat (List.mem_range'_1.mpr ⟨atLeast, by omega⟩)
  rw [Char.ofNat_toNat] at passes
  exact passes

theorem endsWord_of_separates {c : Char} (blank : separates c = true) : endsWord c = true := by
  unfold separates isWhite at blank
  simp only [Bool.or_eq_true, Bool.and_eq_true, decide_eq_true_eq, beq_iff_eq] at blank
  rcases blank with ((((((((((((feeds | rfl) | rfl) | rfl) | rfl) | spaces) | rfl) | rfl) | rfl) |
    rfl) | rfl) | rfl) | rfl)
  · exact of_range endsWord feeds (by decide)
  · decide
  · decide +kernel
  · decide +kernel
  · decide +kernel
  · exact of_range endsWord spaces (by decide +kernel)
  all_goals decide +kernel

theorem ne_of_startsWord {c other : Char} (starts : startsWord c = true)
    (startsNone : startsWord other = false) : c ≠ other := by
  rintro rfl
  exact nomatch starts.symm.trans startsNone

theorem not_isDigit_of_startsWord {c : Char} (starts : startsWord c = true) : c.isDigit = false := by
  cases digit : c.isDigit with
  | false => rfl
  | true =>
      unfold Char.isDigit at digit
      simp only [Bool.and_eq_true, decide_eq_true_eq] at digit
      have range : '0' ≤ c ∧ c ≤ '9' := digit
      have startsNone : (!startsWord c) = true :=
        of_range (fun c => !startsWord c) range (by decide)
      rw [starts] at startsNone
      exact nomatch startsNone

/-! ### Blanks and comments -/

/-- Blanks and comments lead from a text to the rest of it. -/
inductive Passes : List Char → List Char → Prop where
  | here (text : List Char) : Passes text text
  | blank {c : Char} {text rest : List Char} (separated : separates c = true)
      (passes : Passes text rest) : Passes (c :: text) rest
  | comment {text behind rest : List Char} (isComment : comment? text = some behind)
      (passes : Passes behind rest) : Passes text rest

/-- A text that starts with neither a blank nor a comment. -/
def AtToken (text : List Char) : Prop :=
  comment? text = none ∧ ∀ c rest, text = c :: rest → separates c = false

theorem passes_skipBlanks (bound : Nat) (text : List Char) :
    Passes text (skipBlanks bound text) := by
  fun_induction skipBlanks bound text with
  | case1 text => exact .here text
  | case2 bound text rest isComment ih => exact .comment isComment ih
  | case3 bound c rest separated noComment ih => exact .blank separated ih
  | case4 bound c rest _ noComment => exact .here _
  | case5 bound noComment => exact .here _

theorem suffix_fromLineEnd (text : List Char) : fromLineEnd text <:+ text := by
  fun_induction fromLineEnd text with
  | case1 => exact List.suffix_rfl
  | case2 rest => exact List.suffix_rfl
  | case3 rest => exact List.suffix_cons _ _
  | case4 c rest _ _ ih => exact ih.trans (List.suffix_cons _ _)

theorem suffix_behindBlock {depth : Nat} {text rest : List Char}
    (isBehind : behindBlock depth text = some rest) : rest <:+ text := by
  have twoBehind (first second : Char) (text : List Char) : text <:+ first :: second :: text :=
    List.suffix_append [first, second] text
  fun_induction behindBlock depth text with
  | case1 => exact nomatch isBehind
  | case2 depth text ih => exact (ih isBehind).trans (twoBehind _ _ _)
  | case3 text =>
      obtain rfl := Option.some.inj isBehind
      exact twoBehind _ _ _
  | case4 text =>
      obtain rfl := Option.some.inj isBehind
      exact twoBehind _ _ _
  | case5 text depth ih => exact (ih isBehind).trans (twoBehind _ _ _)
  | case6 depth c text _ _ ih => exact (ih isBehind).trans (List.suffix_cons _ _)

/-- A comment starts with a slash and ends behind it. -/
theorem slash_of_comment? {text behind : List Char} (isComment : comment? text = some behind) :
    ∃ rest, text = '/' :: rest ∧ behind <:+ rest := by
  unfold comment? at isComment
  split at isComment
  case h_1 =>
      obtain rfl := Option.some.inj isComment
      exact ⟨_, rfl, (suffix_fromLineEnd _).trans (List.suffix_append ['/', '/', '/'] _)⟩
  case h_4 =>
      obtain rfl := Option.some.inj isComment
      exact ⟨_, rfl, (suffix_fromLineEnd _).trans (List.suffix_cons _ _)⟩
  case h_5 =>
      obtain rfl := Option.some.inj isComment
      exact ⟨_, rfl, List.suffix_append ['*', '*', '/'] _⟩
  case h_6 => exact ⟨_, rfl, (suffix_behindBlock isComment).trans (List.suffix_cons _ _)⟩
  case h_9 => exact ⟨_, rfl, (suffix_behindBlock isComment).trans (List.suffix_cons _ _)⟩
  all_goals exact nomatch isComment

theorem suffix_of_passes {text rest : List Char} (passes : Passes text rest) : rest <:+ text := by
  induction passes with
  | here text => exact List.suffix_rfl
  | blank _ _ ih => exact ih.trans (List.suffix_cons _ _)
  | comment isComment _ ih =>
      obtain ⟨_, rfl, isBehind⟩ := slash_of_comment? isComment
      exact (ih.trans isBehind).trans (List.suffix_cons _ _)

/-- With room enough, all blanks and comments in front of a token are skipped. -/
theorem atToken_skipBlanks (bound : Nat) (text : List Char) (room : text.length ≤ bound) :
    AtToken (skipBlanks bound text) := by
  fun_induction skipBlanks bound text with
  | case1 text =>
      obtain rfl := List.eq_nil_of_length_eq_zero (Nat.le_zero.mp room)
      exact ⟨rfl, nofun⟩
  | case2 bound text rest isComment ih =>
      obtain ⟨_, rfl, isBehind⟩ := slash_of_comment? isComment
      exact ih (Nat.le_trans isBehind.length_le (Nat.le_of_succ_le_succ room))
  | case3 bound c rest separated noComment ih => exact ih (Nat.le_of_succ_le_succ room)
  | case4 bound c rest joined noComment =>
      refine ⟨noComment, ?_⟩
      rintro _ _ ⟨⟩
      exact Bool.not_eq_true _ ▸ joined
  | case5 bound noComment => exact ⟨noComment, nofun⟩

theorem passes_unique {text rest rest' : List Char} (passes : Passes text rest)
    (atToken : AtToken rest) (passes' : Passes text rest') (atToken' : AtToken rest') :
    rest = rest' := by
  induction passes with
  | here text =>
      cases passes' with
      | here => rfl
      | blank separated _ => exact nomatch (atToken.2 _ _ rfl).symm.trans separated
      | comment isComment _ => exact nomatch atToken.1.symm.trans isComment
  | @blank c text rest separated _ ih =>
      cases passes' with
      | here => exact nomatch (atToken'.2 _ _ rfl).symm.trans separated
      | blank _ passes' => exact ih atToken passes'
      | comment isComment _ =>
          obtain ⟨_, isSlash, -⟩ := slash_of_comment? isComment
          obtain ⟨rfl, _⟩ := List.cons.inj isSlash
          exact absurd separated (by decide)
  | comment isComment _ ih =>
      cases passes' with
      | here => exact nomatch atToken'.1.symm.trans isComment
      | blank separated _ =>
          obtain ⟨_, isSlash, -⟩ := slash_of_comment? isComment
          obtain ⟨rfl, _⟩ := List.cons.inj isSlash
          exact absurd separated (by decide)
      | comment isComment' passes' =>
          obtain rfl := Option.some.inj (isComment.symm.trans isComment')
          exact ih atToken passes'

theorem skipBlanks_eq_iff {text rest : List Char} (atToken : AtToken rest) :
    skipBlanks text.length text = rest ↔ Passes text rest := by
  constructor
  · rintro rfl
    exact passes_skipBlanks _ text
  · intro passes
    exact passes_unique (passes_skipBlanks _ text) (atToken_skipBlanks _ text (Nat.le_refl _)) passes
      atToken

/-- What is passed over up to the end of a text starts with a character that ends a word. -/
theorem endsWord_of_passes {text : List Char} (passes : Passes text []) (c : Char)
    (rest : List Char) (starts : text = c :: rest) : endsWord c = true := by
  cases passes with
  | here => exact nomatch starts
  | blank separated _ =>
      obtain ⟨rfl, _⟩ := List.cons.inj starts
      exact endsWord_of_separates separated
  | comment isComment _ =>
      obtain ⟨_, isSlash, -⟩ := slash_of_comment? isComment
      obtain ⟨rfl, _⟩ := List.cons.inj (starts.symm.trans isSlash)
      decide

/-! ### Words -/

theorem isIdentifierContinue_of_startsWord {c : Char} (starts : startsWord c = true) :
    isIdentifierContinue c = true := by
  unfold startsWord at starts
  simp only [Bool.or_eq_true, beq_iff_eq] at starts
  rcases starts with rfl | starts
  · decide
  · exact Text.isIdentifierContinue_of_start c starts

theorem not_separates_of_startsWord {c : Char} (starts : startsWord c = true) :
    separates c = false := by
  cases separated : separates c with
  | false => rfl
  | true =>
      have ends := endsWord_of_separates separated
      unfold endsWord at ends
      rw [isIdentifierContinue_of_startsWord starts] at ends
      exact nomatch ends

/-- A text that goes on with a word, which may be over at once, and then with its end. -/
def GoesOn (text : List Char) : Prop :=
  ∃ letters behind, text = letters ++ behind ∧ letters.all isIdentifierContinue = true ∧
    ∀ c rest, behind = c :: rest → endsWord c = true

theorem GoesOn.head {c : Char} {rest : List Char} (goesOn : GoesOn (c :: rest)) :
    c ∉ ['#', '"', '\''] := by
  obtain ⟨letters, behind, cut, continues, ends⟩ := goesOn
  cases letters with
  | nil =>
      have ended := ends c rest cut.symm
      unfold endsWord at ended
      simp only [Bool.and_eq_true, Bool.not_eq_true', List.contains_eq_mem,
        decide_eq_false_iff_not] at ended
      exact ended.2
  | cons first letters =>
      obtain ⟨rfl, -⟩ := List.cons.inj cut
      simp only [List.all_cons, Bool.and_eq_true] at continues
      intro isOpener
      simp only [List.mem_cons, List.not_mem_nil, or_false] at isOpener
      rcases isOpener with rfl | rfl | rfl
      all_goals exact absurd continues.1 (by decide)

theorem GoesOn.tail {c : Char} {rest : List Char} (goesOn : GoesOn (c :: rest))
    (continues : isIdentifierContinue c = true) : GoesOn rest := by
  obtain ⟨letters, behind, cut, allContinue, ends⟩ := goesOn
  cases letters with
  | nil =>
      have ended := ends c rest cut.symm
      unfold endsWord at ended
      rw [continues] at ended
      exact nomatch ended
  | cons first letters =>
      obtain ⟨rfl, sameRest⟩ := List.cons.inj cut
      simp only [List.all_cons, Bool.and_eq_true] at allContinue
      exact ⟨letters, behind, sameRest, allContinue.2, ends⟩

theorem rawString_of_goesOn (admits : Char → Bool) {text : List Char} (goesOn : GoesOn text) :
    rawString admits text = none := by
  cases text with
  | nil => rfl
  | cons c rest =>
      have opensNone := goesOn.head
      simp only [List.mem_cons, List.not_mem_nil, or_false, not_or] at opensNone
      have noHash : ((c :: rest).takeWhile (· == '#')).length = 0 := by
        rw [List.takeWhile_cons_of_neg (by simpa using opensNone.1)]
        rfl
      unfold rawString
      simp only [noHash, List.drop_zero]
      split
      · rename_i isQuote
        exact absurd (List.cons.inj isQuote).1 opensNone.2.1
      · rfl

theorem textLiteral_of_goesOn {c : Char} {rest : List Char} (starts : startsWord c = true)
    (goesOn : GoesOn rest) : textLiteral (c :: rest) = none := by
  unfold textLiteral
  split
  case h_1 isQuote =>
      exact absurd (List.cons.inj isQuote).1 (ne_of_startsWord starts (by decide))
  case h_2 same =>
      obtain ⟨-, rfl⟩ := List.cons.inj same
      exact rawString_of_goesOn _ goesOn
  case h_4 same =>
      obtain ⟨-, rfl⟩ := List.cons.inj same
      exact rawString_of_goesOn _ (goesOn.tail (by decide))
  case h_7 same =>
      obtain ⟨-, rfl⟩ := List.cons.inj same
      exact rawString_of_goesOn _ (goesOn.tail (by decide))
  case h_8 isQuote =>
      exact absurd (List.cons.inj isQuote).1 (ne_of_startsWord starts (by decide))
  case h_9 => rfl
  -- a quote right behind the first letter
  all_goals
    rename_i same
    obtain ⟨-, rfl⟩ := List.cons.inj same
    exact absurd (by decide) goesOn.head

theorem numberLiteral_of_startsWord {c : Char} (rest : List Char) (starts : startsWord c = true) :
    numberLiteral (c :: rest) = none := by
  have noDigit := not_isDigit_of_startsWord starts
  have noFraction : fractionDigits (c :: rest) = none := by
    unfold fractionDigits
    simp only [noDigit, Bool.false_eq_true, if_false]
  have noInteger : integerDigits (c :: rest) = none := by
    unfold integerDigits
    split
    case h_4 => rfl
    case h_5 noLine =>
        have noBar : (c == '_') = false := beq_false_of_ne fun isBar => noLine rest (by rw [isBar])
        simp [noDigit, noBar]
    all_goals
      rename_i isZero
      exact absurd (List.cons.inj isZero).1 (ne_of_startsWord starts (by decide))
  unfold numberLiteral
  rw [noFraction, noInteger]
  rfl

theorem mark_of_startsWord {c : Char} (rest : List Char) (starts : startsWord c = true) :
    mark (c :: rest) = none := by
  have noMark : marks.contains c = false := by
    rw [List.contains_eq_mem, decide_eq_false_iff_not]
    intro isMark
    have startsNone : marks.all (fun c => !startsWord c) = true := by decide
    have startsNot := List.all_eq_true.mp startsNone c isMark
    rw [starts] at startsNot
    exact nomatch startsNot
  unfold mark
  split
  case h_4 same =>
      obtain ⟨rfl, -⟩ := List.cons.inj same
      rw [noMark]
      rfl
  case h_5 => rfl
  all_goals
    rename_i isSign
    exact absurd (List.cons.inj isSign).1 (ne_of_startsWord starts (by decide))

theorem word_append {letters behind : List Char} (plain : isPlainWord letters = true)
    (ends : ∀ c rest, behind = c :: rest → endsWord c = true) :
    word (letters ++ behind) = some (letters, behind) := by
  cases letters with
  | nil => exact nomatch plain
  | cons c letters =>
      unfold isPlainWord at plain
      simp only [Bool.and_eq_true, List.all_eq_true] at plain
      have stops : behind.takeWhile isIdentifierContinue = [] ∧
          behind.dropWhile isIdentifierContinue = behind := by
        cases behind with
        | nil => exact ⟨rfl, rfl⟩
        | cons first rest =>
            have ended := ends first rest rfl
            unfold endsWord at ended
            simp only [Bool.and_eq_true, Bool.not_eq_true'] at ended
            simp [ended.1]
      simp only [List.cons_append, word, plain.1, if_true,
        List.takeWhile_append_of_pos plain.2, List.dropWhile_append_of_pos plain.2, stops,
        List.append_nil]

theorem identifier_of_goesOn {c : Char} {rest : List Char} (goesOn : GoesOn rest) :
    identifier (c :: rest) = word (c :: rest) := by
  have opensNone : (literalOpeners.any fun opener => opener.isPrefixOf (c :: rest)) = false := by
    cases rest with
    | nil => simp [literalOpeners, List.isPrefixOf]
    | cons second rest =>
        have secondOpensNone := goesOn.head
        simp only [List.mem_cons, List.not_mem_nil, or_false, not_or] at secondOpensNone
        by_cases isRaw : second = 'r'
        · subst isRaw
          cases rest with
          | nil => simp [literalOpeners, List.isPrefixOf]
          | cons third rest =>
              have thirdOpensNone := (goesOn.tail (by decide)).head
              simp only [List.mem_cons, List.not_mem_nil, or_false, not_or] at thirdOpensNone
              simp [literalOpeners, List.isPrefixOf, Ne.symm thirdOpensNone.1,
                Ne.symm thirdOpensNone.2.1]
        · simp [literalOpeners, List.isPrefixOf, Ne.symm isRaw, Ne.symm secondOpensNone.1,
            Ne.symm secondOpensNone.2.1, Ne.symm secondOpensNone.2.2]
  unfold identifier rawOrPlainWord
  rw [opensNone]
  simp only [Bool.false_eq_true, if_false]
  split
  · rename_i same
    obtain ⟨-, rfl⟩ := List.cons.inj same
    exact absurd (by decide) goesOn.head
  · rfl

theorem leaf_plain {letters behind : List Char} (plain : isPlainWord letters = true)
    (ends : ∀ c rest, behind = c :: rest → endsWord c = true) :
    leaf (letters ++ behind) = some (.identifier letters, behind) := by
  cases letters with
  | nil => exact nomatch plain
  | cons c letters =>
      have isWord := word_append plain ends
      unfold isPlainWord at plain
      simp only [Bool.and_eq_true] at plain
      have goesOn : GoesOn (letters ++ behind) := ⟨letters, behind, rfl, plain.2, ends⟩
      rw [List.cons_append] at isWord ⊢
      unfold leaf
      rw [textLiteral_of_goesOn plain.1 goesOn, numberLiteral_of_startsWord _ plain.1,
        mark_of_startsWord _ plain.1, identifier_of_goesOn goesOn, isWord]
      rfl

theorem leaf_raw {letters behind : List Char} (plain : isPlainWord letters = true)
    (allowed : letters ∉ neverRaw) (ends : ∀ c rest, behind = c :: rest → endsWord c = true) :
    leaf ('r' :: '#' :: (letters ++ behind)) = some (.identifier ('r' :: '#' :: letters), behind) := by
  have isWord := word_append plain ends
  cases letters with
  | nil => exact nomatch plain
  | cons c letters =>
      unfold isPlainWord at plain
      simp only [Bool.and_eq_true] at plain
      have noHash : c ≠ '#' := ne_of_startsWord plain.1 (by decide)
      have noQuote : c ≠ '"' := ne_of_startsWord plain.1 (by decide)
      have isNoText : textLiteral ('r' :: '#' :: (c :: letters ++ behind)) = none := by
        simp [textLiteral, rawString, noHash, noQuote]
      have isIdentifier : identifier ('r' :: '#' :: (c :: letters ++ behind)) =
          some ('r' :: '#' :: c :: letters, behind) := by
        have opensNone : (literalOpeners.any fun opener =>
            opener.isPrefixOf ('r' :: '#' :: (c :: letters ++ behind))) = false := by
          simp [literalOpeners, List.isPrefixOf, Ne.symm noHash, Ne.symm noQuote]
        simp only [identifier, opensNone, Bool.false_eq_true, if_false, rawOrPlainWord, isWord,
          List.contains_eq_mem, allowed, decide_false]
      unfold leaf
      rw [isNoText, numberLiteral_of_startsWord _ (by decide),
        mark_of_startsWord _ (by decide), isIdentifier]
      rfl

theorem leaf_of_isName {letters behind : List Char} (isName : IsName letters)
    (ends : ∀ c rest, behind = c :: rest → endsWord c = true) :
    leaf (letters ++ behind) = some (.identifier letters, behind) := by
  have spelled := isName.spelled
  unfold isSpelled at spelled
  split at spelled
  · rename_i word
    exact leaf_raw spelled (isName.rawAllowed word rfl) ends
  · exact leaf_plain spelled ends

/-! ### What is read as an identifier -/

theorem eq_append_of_word {text letters behind : List Char}
    (isWord : word text = some (letters, behind)) :
    text = letters ++ behind ∧ isPlainWord letters = true := by
  unfold word at isWord
  split at isWord
  · exact nomatch isWord
  · split at isWord
    · rename_i c rest starts
      obtain ⟨rfl, rfl⟩ := Prod.mk.inj (Option.some.inj isWord)
      refine ⟨?_, ?_⟩
      · rw [List.cons_append, List.takeWhile_append_dropWhile]
      · simp only [isPlainWord, starts, Bool.true_and, List.all_takeWhile]
    · exact nomatch isWord

theorem ne_raw_of_isPlainWord {letters rest : List Char} (plain : isPlainWord letters = true) :
    letters ≠ 'r' :: '#' :: rest := by
  rintro rfl
  simp only [isPlainWord, List.all_cons, Bool.and_eq_true] at plain
  exact absurd plain.2.1 (by decide)

theorem isSpelled_of_isPlainWord {letters : List Char} (plain : isPlainWord letters = true) :
    isSpelled letters = true := by
  unfold isSpelled
  split
  · exact absurd rfl (ne_raw_of_isPlainWord plain)
  · exact plain

/-- An identifier that is read is spelled as one, and raw only where this is allowed. -/
theorem eq_append_of_identifier {text letters behind : List Char}
    (isIdentifier : identifier text = some (letters, behind)) :
    text = letters ++ behind ∧ isSpelled letters = true ∧
      ∀ word, letters = 'r' :: '#' :: word → word ∉ neverRaw := by
  unfold identifier at isIdentifier
  split at isIdentifier
  · exact nomatch isIdentifier
  · unfold rawOrPlainWord at isIdentifier
    split at isIdentifier
    · split at isIdentifier
      · rename_i isWord
        split at isIdentifier
        · exact nomatch isIdentifier
        · rename_i allowed
          obtain ⟨rfl, rfl⟩ := Prod.mk.inj (Option.some.inj isIdentifier)
          obtain ⟨rfl, plain⟩ := eq_append_of_word isWord
          refine ⟨rfl, plain, ?_⟩
          rintro _ ⟨⟩
          simpa using allowed
      · exact nomatch isIdentifier
    · obtain ⟨rfl, plain⟩ := eq_append_of_word isIdentifier
      exact ⟨rfl, isSpelled_of_isPlainWord plain,
        fun _ isRaw => absurd isRaw (ne_raw_of_isPlainWord plain)⟩

theorem identifier_of_leaf {text letters behind : List Char}
    (isLeaf : leaf text = some (.identifier letters, behind)) :
    identifier text = some (letters, behind) := by
  unfold leaf at isLeaf
  split at isLeaf
  · exact nomatch isLeaf
  · split at isLeaf
    · rename_i isIdentifier
      obtain ⟨⟨⟩, rfl⟩ := Prod.mk.inj (Option.some.inj isLeaf)
      exact isIdentifier
    · exact nomatch isLeaf

/-! ### Whole texts -/

/-- What is read of a text outside all brackets: nothing where the text is over, else a token that is
either no identifier or a leaf, and what is read behind it. -/
theorem lexemesWithin_cases {bound : Nat} {text : List Char} {read : List Lexeme}
    (isRead : lexemesWithin (bound + 1) [] text = some read) :
    (skipBlanks text.length text = [] ∧ read = []) ∨
    ∃ lexeme more, read = lexeme :: more ∧
      (lexeme = .other ∨ ∃ behind, leaf (skipBlanks text.length text) = some (lexeme, behind) ∧
        lexemesWithin bound [] behind = some more) := by
  unfold lexemesWithin at isRead
  simp only [List.isEmpty_nil, if_true] at isRead
  generalize skipBlanks text.length text = tokens at isRead ⊢
  split at isRead
  · obtain ⟨more, -, rfl⟩ := Option.map_eq_some_iff.mp isRead
    exact .inr ⟨.other, more, rfl, .inl rfl⟩
  · split at isRead
    · exact .inl ⟨rfl, (Option.some.inj isRead).symm⟩
    · split at isRead
      · obtain ⟨more, -, rfl⟩ := Option.map_eq_some_iff.mp isRead
        exact .inr ⟨.other, more, rfl, .inl rfl⟩
      · split at isRead
        · exact nomatch isRead
        · split at isRead
          · rename_i lexeme behind isLeaf
            obtain ⟨more, isMore, rfl⟩ := Option.map_eq_some_iff.mp isRead
            exact .inr ⟨lexeme, more, rfl, .inr ⟨behind, isLeaf, isMore⟩⟩
          · exact nomatch isRead

theorem atToken_nil : AtToken [] := ⟨rfl, nofun⟩

theorem lexemesWithin_eq_nil_iff (bound : Nat) (text : List Char) :
    lexemesWithin (bound + 1) [] text = some [] ↔ Passes text [] := by
  rw [← skipBlanks_eq_iff atToken_nil]
  constructor
  · intro isRead
    rcases lexemesWithin_cases isRead with ⟨isOver, -⟩ | ⟨lexeme, more, isCons, -⟩
    · exact isOver
    · exact nomatch isCons
  · intro isOver
    unfold lexemesWithin
    rw [isOver]
    rfl

theorem startsWord_of_isSpelled {letters : List Char} (spelled : isSpelled letters = true) :
    ∃ c rest, letters = c :: rest ∧ startsWord c = true := by
  unfold isSpelled at spelled
  split at spelled
  · exact ⟨'r', _, rfl, by decide⟩
  · cases letters with
    | nil => exact nomatch spelled
    | cons c rest => exact ⟨c, rest, rfl, (Bool.and_eq_true_iff.mp spelled).1⟩

theorem atToken_of_isSpelled {letters : List Char} (behind : List Char)
    (spelled : isSpelled letters = true) : AtToken (letters ++ behind) := by
  obtain ⟨c, rest, rfl, starts⟩ := startsWord_of_isSpelled spelled
  refine ⟨?_, ?_⟩
  · cases isComment : comment? (c :: rest ++ behind) with
    | none => rfl
    | some text =>
        obtain ⟨_, isSlash, -⟩ := slash_of_comment? isComment
        exact absurd (List.cons.inj isSlash).1 (ne_of_startsWord starts (by decide))
  · intro first more same
    obtain ⟨rfl, -⟩ := List.cons.inj same
    exact not_separates_of_startsWord starts

theorem lexemesWithin_of_startsWord (bound : Nat) {text rest behind : List Char} {c : Char}
    {lexeme : Lexeme} (tokens : skipBlanks text.length text = c :: rest)
    (starts : startsWord c = true) (isLeaf : leaf (c :: rest) = some (lexeme, behind)) :
    lexemesWithin (bound + 1) [] text = (lexemesWithin bound [] behind).map (lexeme :: ·) := by
  have differs (other : Char) (startsNone : startsWord other = false) : c ≠ other :=
    ne_of_startsWord starts startsNone
  have noDocument : documentation? (c :: rest) = none := by
    unfold documentation?
    split
    case h_7 => rfl
    all_goals
      rename_i isSlash
      exact absurd (List.cons.inj isSlash).1 (differs _ (by decide))
  have opensNone : closerOf c = none := by
    unfold closerOf
    split
    case h_4 => rfl
    all_goals exact absurd rfl (differs _ (by decide))
  have closesNone : (c == ')' || c == ']' || c == '\x7d') = false := by
    simp only [Bool.or_eq_false_iff, beq_eq_false_iff_ne]
    exact ⟨⟨differs _ (by decide), differs _ (by decide)⟩,
      differs _ (by decide)⟩
  rw [lexemesWithin]
  simp only [tokens, noDocument, opensNone, closesNone, isLeaf, Bool.false_eq_true, if_false]

/-- A text with an identifier as its only token is the identifier, with blanks and comments in front
of it and behind it. -/
theorem lexemesWithin_eq_identifier_iff (bound : Nat) (text letters : List Char)
    (notReserved : String.ofList letters ∉ reservedWords) :
    lexemesWithin (bound + 2) [] text = some [.identifier letters] ↔
      IsName letters ∧ ∃ back, Passes text (letters ++ back) ∧ Passes back [] := by
  constructor
  · intro isRead
    rcases lexemesWithin_cases isRead with ⟨-, isNil⟩ | ⟨lexeme, more, isCons, isOther | isLeaf⟩
    · exact nomatch isNil
    · obtain ⟨isIdentifier, -⟩ := List.cons.inj isCons
      exact nomatch isIdentifier.trans isOther
    · obtain ⟨back, isLeaf, isOver⟩ := isLeaf
      obtain ⟨rfl, rfl⟩ := List.cons.inj isCons
      obtain ⟨cut, spelled, rawAllowed⟩ := eq_append_of_identifier (identifier_of_leaf isLeaf)
      refine ⟨⟨spelled, notReserved, rawAllowed⟩, back, ?_, ?_⟩
      · exact (skipBlanks_eq_iff (atToken_of_isSpelled back spelled)).mp cut
      · exact (lexemesWithin_eq_nil_iff bound back).mp isOver
  · rintro ⟨isName, back, passesFront, passesBack⟩
    have isLeaf := leaf_of_isName isName (endsWord_of_passes passesBack)
    have isOver := (lexemesWithin_eq_nil_iff bound back).mpr passesBack
    have tokens := (skipBlanks_eq_iff (atToken_of_isSpelled back isName.spelled)).mpr passesFront
    obtain ⟨c, rest, rfl, starts⟩ := startsWord_of_isSpelled isName.spelled
    rw [lexemesWithin_of_startsWord (bound + 1) tokens starts isLeaf, isOver]
    rfl

/-- A text without the byte order mark in front. -/
def behindMark (text : List Char) : List Char :=
  match text with
  | '\uFEFF' :: rest => rest
  | _ => text

theorem suffix_behindMark (text : List Char) : behindMark text <:+ text := by
  unfold behindMark
  split
  · exact List.suffix_cons _ _
  · exact List.suffix_rfl

/-- A text that is a name with blanks and comments around it, behind a byte order mark if it has one. -/
structure Framed (text front letters back : List Char) : Prop where
  cut : text = front ++ (letters ++ back)
  isName : IsName letters
  passesFront : Passes (behindMark text) (letters ++ back)
  passesBack : Passes back []

theorem lexemes_eq_identifier_iff (text letters : List Char)
    (notReserved : String.ofList letters ∉ reservedWords) :
    lexemes text = some [.identifier letters] ↔
      IsName letters ∧ ∃ back, Passes (behindMark text) (letters ++ back) ∧ Passes back [] := by
  change lexemesWithin ((behindMark text).length + 1) [] (behindMark text) = _ ↔ _
  cases behindMark text with
  | nil =>
      constructor
      · intro isRead
        exact nomatch isRead
      · rintro ⟨isName, back, passesFront, -⟩
        obtain ⟨c, rest, rfl, -⟩ := startsWord_of_isSpelled isName.spelled
        exact nomatch List.suffix_nil.mp (suffix_of_passes passesFront)
  | cons c rest => exact lexemesWithin_eq_identifier_iff rest.length (c :: rest) letters notReserved

theorem flaw?_eq_none_iff_lexemes (name : String) :
    flaw? name = none ↔ ∃ letters, String.ofList letters ∉ reservedWords ∧
      lexemes name.toList = some [.identifier letters] := by
  constructor
  · intro accepted
    unfold flaw? at accepted
    split at accepted
    case h_4 letters rest isRead =>
        simp only at accepted
        split at accepted
        · exact nomatch accepted
        · rename_i notReserved
          split at accepted
          · rename_i isLast
            rw [List.isEmpty_iff.mp isLast] at isRead
            exact ⟨letters, by simpa using notReserved, isRead⟩
          · exact nomatch accepted
    all_goals exact nomatch accepted
  · rintro ⟨letters, notReserved, isRead⟩
    simp [flaw?, isRead, notReserved]

theorem flaw?_eq_none_iff (name : String) :
    flaw? name = none ↔ ∃ front letters back, Framed name.toList front letters back := by
  rw [flaw?_eq_none_iff_lexemes]
  constructor
  · rintro ⟨letters, notReserved, isRead⟩
    obtain ⟨isName, back, passesFront, passesBack⟩ :=
      (lexemes_eq_identifier_iff _ letters notReserved).mp isRead
    obtain ⟨front, cut⟩ := (suffix_of_passes passesFront).trans (suffix_behindMark name.toList)
    exact ⟨front, letters, back, cut.symm, isName, passesFront, passesBack⟩
  · rintro ⟨front, letters, back, framed⟩
    exact ⟨letters, framed.isName.notReserved,
      (lexemes_eq_identifier_iff _ letters framed.isName.notReserved).mpr
        ⟨framed.isName, back, framed.passesFront, framed.passesBack⟩⟩

/-! ### Exact names -/

theorem mem_of_isSpelled {text : List Char} (spelled : isSpelled text = true) {c : Char}
    (isIn : c ∈ text) : isIdentifierContinue c = true ∨ c = '#' := by
  have ofPlain {word : List Char} (plain : isPlainWord word = true) (isIn : c ∈ word) :
      isIdentifierContinue c = true := by
    cases word with
    | nil => exact nomatch isIn
    | cons first rest =>
        unfold isPlainWord at plain
        simp only [Bool.and_eq_true, List.all_eq_true] at plain
        rcases List.mem_cons.mp isIn with rfl | isIn
        · exact isIdentifierContinue_of_startsWord plain.1
        · exact plain.2 c isIn
  unfold isSpelled at spelled
  split at spelled
  · rcases List.mem_cons.mp isIn with rfl | isIn
    · exact .inl (by decide)
    · rcases List.mem_cons.mp isIn with rfl | isIn
      · exact .inr rfl
      · exact .inl (ofPlain spelled isIn)
  · exact .inl (ofPlain spelled isIn)

theorem not_mem_of_endsWord {text : List Char} (spelled : isSpelled text = true) {c : Char}
    (ends : endsWord c = true) : c ∉ text := by
  intro isIn
  unfold endsWord at ends
  simp only [Bool.and_eq_true, Bool.not_eq_true'] at ends
  rcases mem_of_isSpelled spelled isIn with continues | rfl
  · exact nomatch ends.1.symm.trans continues
  · exact nomatch ends.2

/-- Blanks and comments are passed over only where the text starts with a character that ends a
word. -/
theorem eq_of_passes {text rest : List Char} (spelled : isSpelled text = true)
    (passes : Passes text rest) : text = rest := by
  cases passes with
  | here => rfl
  | blank separated _ =>
      exact absurd List.mem_cons_self (not_mem_of_endsWord spelled (endsWord_of_separates separated))
  | comment isComment _ =>
      obtain ⟨_, rfl, -⟩ := slash_of_comment? isComment
      exact absurd List.mem_cons_self (not_mem_of_endsWord spelled (by decide))

/-- An accepted text is spelled as an identifier only if nothing stands around the name in it. -/
theorem Framed.isSpelled_iff {text front letters back : List Char}
    (framed : Framed text front letters back) :
    isSpelled text = true ↔ front = [] ∧ back = [] := by
  constructor
  · intro spelled
    have noMark : behindMark text = text := by
      unfold behindMark
      split
      · exact absurd List.mem_cons_self (not_mem_of_endsWord spelled (by decide +kernel))
      · rfl
    have sameText := eq_of_passes spelled (noMark ▸ framed.passesFront)
    refine ⟨List.self_eq_append_left.mp (sameText.symm.trans framed.cut), ?_⟩
    cases isBack : back with
    | nil => rfl
    | cons c rest =>
        have isIn : c ∈ text := by simp [sameText, isBack]
        exact absurd isIn
          (not_mem_of_endsWord spelled (endsWord_of_passes framed.passesBack c rest isBack))
  · rintro ⟨rfl, rfl⟩
    have cut := framed.cut
    rw [List.nil_append, List.append_nil] at cut
    rw [cut]
    exact framed.isName.spelled

end Codemod.Name
