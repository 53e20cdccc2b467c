import Codemod.Proofs.Tree.Holder
import Mathlib.Data.List.Chain

/-!
Where quotes stand in a concrete tree.

A quote is held by a lifetime, a label or a token tree, and it is never the last token of the node that
holds it. What stands beside it there is a token, or a node that does not open with a name. So a name
right behind a quote is held by the same node.
-/

set_option autoImplicit false

namespace Codemod.Grammar

open Codemod.Tree (heldKinds heldKindsOf identifierKinds quotedKinds)

/-- The kinds of nodes that hold tokens as they come. -/
def tokenTreeKinds : List String :=
  ["token_tree", "token_tree_pattern", "token_repetition", "token_repetition_pattern"]

/-- The kinds of nodes that may hold a quote. -/
def quoteHolders : List String := quotedKinds ++ tokenTreeKinds

namespace Cst

def isQuote (tree : Cst) : Bool := tree.kind == "'" && tree.children.isEmpty

/-- The kind of the first token of a node. -/
def firstKind : Cst → String
  | .node kind _ _ _ [] => kind
  | .node _ _ _ _ (child :: _) => child.firstKind

/-- Whether a node is a token or opens with something else than a name. -/
def isGuarded (tree : Cst) : Bool :=
  tree.children.isEmpty || !identifierKinds.contains tree.firstKind

/-- Quotes stand only where they may. A comment opens with its mark. -/
inductive Sound : Cst → Prop where
  | plain {kind : String} {field : Option String} {start stop : Nat} {children : List Cst}
      (notQuote : kind ≠ "'")
      (commentOpens : (node kind field start stop children).isComment = true →
        (node kind field start stop children).isGuarded = true)
      (sound : ∀ child, child ∈ children → Sound child) :
      Sound (node kind field start stop children)
  | holder {kind : String} {field : Option String} {start stop : Nat} {children : List Cst}
      (isHolder : kind ∈ quoteHolders)
      (soundUnlessQuote : ∀ child, child ∈ children → child.isQuote = false → Sound child)
      (guarded : ∀ child, child ∈ children → child.isGuarded = true)
      (closed : ∀ last, children.getLast? = some last → last.isQuote = false) :
      Sound (node kind field start stop children)

end Cst

/-! ### Names behind quotes -/

/-- What follows a quote is no name, unless the node that holds it may hold a quote. -/
def Follows (quote next : String × String) : Prop :=
  quote.2 = "'" → identifierKinds.contains next.2 = true → next.1 ∈ quoteHolders

/-- Tokens of which no name behind a quote stands where it may not, and of which the last is no
quote. -/
structure Quiet (kinds : List (String × String)) : Prop where
  chain : kinds.IsChain Follows
  closed : ∀ last, kinds.getLast? = some last → last.2 ≠ "'"

theorem quiet_singleton (holder : String) {kind : String} (notQuote : kind ≠ "'") :
    Quiet [(holder, kind)] := by
  refine ⟨.singleton _, ?_⟩
  intro last isLast
  rw [← Option.some.inj isLast]
  exact notQuote

theorem Quiet.append {front back : List (String × String)} (ofFront : Quiet front)
    (ofBack : Quiet back) : Quiet (front ++ back) := by
  constructor
  · refine List.isChain_append.mpr ⟨ofFront.chain, ofBack.chain, ?_⟩
    intro last isLast first _ isQuote
    exact absurd isQuote (ofFront.closed last isLast)
  · intro last isLast
    rw [List.getLast?_append] at isLast
    rcases Option.or_eq_some_iff.mp isLast with isBack | ⟨-, isFront⟩
    · exact ofBack.closed last isBack
    · exact ofFront.closed last isFront

/-- A quote may stand in front of tokens of which the first is no name held elsewhere. -/
theorem Quiet.cons_quote {holder : String} {first : String × String}
    {back : List (String × String)} (ofBack : Quiet back) (isFirst : back.head? = some first)
    (follows : Follows (holder, "'") first) : Quiet ((holder, "'") :: back) := by
  cases back with
  | nil => exact nomatch isFirst
  | cons other rest =>
      obtain rfl := Option.some.inj isFirst
      refine ⟨List.isChain_cons_cons.mpr ⟨follows, ofBack.chain⟩, ?_⟩
      intro last isLast
      rw [List.getLast?_cons_cons] at isLast
      exact ofBack.closed last isLast

theorem quiet_heldKindsOf {holder : String} {children : List Cst}
    (quiet : ∀ child, child ∈ children → Quiet (heldKinds holder child)) :
    Quiet (heldKindsOf holder children) := by
  induction children with
  | nil => exact ⟨.nil, nofun⟩
  | cons child rest ih =>
      have ofRest := ih fun other isIn => quiet other (List.mem_cons_of_mem _ isIn)
      exact (quiet child List.mem_cons_self).append ofRest

theorem head?_heldKinds (holder : String) (tree : Cst) :
    ∃ inner, (heldKinds holder tree).head? = some (inner, tree.firstKind) ∧
      (tree.children = [] → inner = holder) := by
  fun_induction Cst.firstKind tree generalizing holder with
  | case1 kind => exact ⟨holder, rfl, fun _ => rfl⟩
  | case2 kind field start stop child rest ih =>
      obtain ⟨inner, isFirst, -⟩ := ih kind
      refine ⟨inner, ?_, nofun⟩
      rw [heldKinds, heldKindsOf, List.head?_append, isFirst]
      rfl

theorem heldKinds_of_isQuote {holder : String} {tree : Cst} (isQuote : tree.isQuote = true) :
    heldKinds holder tree = [(holder, "'")] := by
  obtain ⟨kind, field, start, stop, children⟩ := tree
  simp only [Cst.isQuote, Cst.kind, Cst.children, Bool.and_eq_true, beq_iff_eq,
    List.isEmpty_iff] at isQuote
  rw [isQuote.1, isQuote.2, heldKinds]

/-- Between tokens and nodes that open with no name, a node that may hold quotes may hold them
anywhere but at its end. -/
theorem quiet_of_isHolder {holder : String} (isHolder : holder ∈ quoteHolders) {children : List Cst}
    (quietUnlessQuote : ∀ child, child ∈ children → child.isQuote = false →
      Quiet (heldKinds holder child))
    (guarded : ∀ child, child ∈ children → child.isGuarded = true)
    (closed : ∀ last, children.getLast? = some last → last.isQuote = false) :
    Quiet (heldKindsOf holder children) := by
  induction children with
  | nil => exact ⟨.nil, nofun⟩
  | cons child rest ih =>
      cases rest with
      | nil =>
          have isQuiet := quietUnlessQuote child List.mem_cons_self (closed child rfl)
          rw [heldKindsOf, heldKindsOf, List.append_nil]
          exact isQuiet
      | cons next rest =>
          have ofRest : Quiet (heldKindsOf holder (next :: rest)) :=
            ih (fun other isIn => quietUnlessQuote other (List.mem_cons_of_mem _ isIn))
              (fun other isIn => guarded other (List.mem_cons_of_mem _ isIn))
              (fun last isLast => closed last (by rw [List.getLast?_cons_cons]; exact isLast))
          cases isQuote : child.isQuote with
          | false => exact (quietUnlessQuote child List.mem_cons_self isQuote).append ofRest
          | true =>
              obtain ⟨inner, isNext, sameHolder⟩ := head?_heldKinds holder next
              have isFirst : (heldKindsOf holder (next :: rest)).head? =
                  some (inner, next.firstKind) := by
                rw [heldKindsOf, List.head?_append, isNext]
                rfl
              rw [heldKindsOf, heldKinds_of_isQuote isQuote]
              refine ofRest.cons_quote isFirst ?_
              intro _ isName
              have nextGuarded := guarded next (by simp)
              unfold Cst.isGuarded at nextGuarded
              rw [isName, Bool.not_true, Bool.or_false, List.isEmpty_iff] at nextGuarded
              rw [sameHolder nextGuarded]
              exact isHolder

/-- In a sound tree, a name right behind a quote is held by a node that may hold the quote. -/
theorem quiet_of_sound {tree : Cst} (sound : tree.Sound) (holder : String) :
    Quiet (heldKinds holder tree) := by
  induction sound generalizing holder with
  | @plain kind field start stop children notQuote _ _ ih =>
      cases children with
      | nil => exact quiet_singleton holder notQuote
      | cons child rest => exact quiet_heldKindsOf fun other isIn => ih other isIn kind
  | @holder kind field start stop children isHolder _ guarded closed ih =>
      cases children with
      | nil =>
          refine quiet_singleton holder ?_
          intro isQuote
          rw [isQuote] at isHolder
          exact absurd isHolder (by decide)
      | cons child rest =>
          exact quiet_of_isHolder isHolder (fun other isIn notQuote => ih other isIn notQuote kind)
            guarded closed

/-! ### Grades of trees -/

/-- What is asked of the trees that a reader reads. -/
inductive Grade where
  /-- Quotes stand where they may, whatever kind the tree is given. -/
  | plain
  | sound
  /-- Fit to stand beside a quote. -/
  | lone
  /-- A quote, or fit to stand beside one. -/
  | member

def Grade.Holds : Grade → Cst → Prop
  | .plain, tree =>
      tree.kind ≠ "'" ∧ (tree.isComment = true → tree.isGuarded = true) ∧
        ∀ child, child ∈ tree.children → child.Sound
  | .sound, tree => tree.Sound
  | .lone, tree => tree.Sound ∧ tree.isGuarded = true
  | .member, tree => (tree.Sound ∨ tree.isQuote = true) ∧ tree.isGuarded = true

theorem sound_of_plain {tree : Cst} (plain : Grade.plain.Holds tree) : tree.Sound := by
  obtain ⟨kind, field, start, stop, children⟩ := tree
  exact .plain plain.1 plain.2.1 plain.2.2

theorem not_isComment_of_isHolder {tree : Cst} (isHolder : tree.kind ∈ quoteHolders) :
    tree.isComment = false := by
  cases isComment : tree.isComment with
  | false => rfl
  | true =>
      simp only [Cst.isComment, Bool.or_eq_true, beq_iff_eq] at isComment
      rcases isComment with isLine | isBlock
      · rw [isLine] at isHolder
        exact absurd isHolder (by decide)
      · rw [isBlock] at isHolder
        exact absurd isHolder (by decide)

theorem plain_of_sound {tree : Cst} (sound : tree.Sound) (notHolder : tree.kind ∉ quoteHolders) :
    Grade.plain.Holds tree := by
  cases sound with
  | plain notQuote commentOpens sound => exact ⟨notQuote, commentOpens, sound⟩
  | holder isHolder _ _ _ => exact absurd isHolder notHolder

theorem Grade.ofComment (grade : Grade) {tree : Cst} (isComment : tree.isComment = true)
    (sound : tree.Sound) : grade.Holds tree := by
  have plain : Grade.plain.Holds tree := by
    refine plain_of_sound sound ?_
    intro isHolder
    exact nomatch (not_isComment_of_isHolder isHolder).symm.trans isComment
  cases grade with
  | plain => exact plain
  | sound => exact sound
  | lone => exact ⟨sound, plain.2.1 isComment⟩
  | member => exact ⟨.inl sound, plain.2.1 isComment⟩

theorem Grade.ofLeaf (grade : Grade) {kind : String} (notQuote : kind ≠ "'") (field : Option String)
    (start stop : Nat) : grade.Holds (.node kind field start stop []) := by
  have plain : Grade.plain.Holds (.node kind field start stop []) := ⟨notQuote, fun _ => rfl, nofun⟩
  cases grade with
  | plain => exact plain
  | sound => exact sound_of_plain plain
  | lone => exact ⟨sound_of_plain plain, rfl⟩
  | member => exact ⟨.inl (sound_of_plain plain), rfl⟩

theorem sound_of_isComment {grade : Grade} {tree : Cst} (holds : grade.Holds tree)
    (isComment : tree.isComment = true) : tree.Sound := by
  cases grade with
  | plain => exact sound_of_plain holds
  | sound => exact holds
  | lone => exact holds.1
  | member =>
      rcases holds.1 with sound | isQuote
      · exact sound
      · simp only [Cst.isQuote, Bool.and_eq_true, beq_iff_eq] at isQuote
        simp [Cst.isComment, isQuote.1] at isComment

theorem Grade.holds_congr (grade : Grade) {kind : String} {field field' : Option String}
    {start start' stop stop' : Nat} {children : List Cst}
    (holds : grade.Holds (.node kind field start stop children)) :
    grade.Holds (.node kind field' start' stop' children) := by
  have sameGuard : (Cst.node kind field' start' stop' children).isGuarded =
      (Cst.node kind field start stop children).isGuarded := by
    cases children with
    | nil => rfl
    | cons child rest => rfl
  have sound (before : (Cst.node kind field start stop children).Sound) :
      (Cst.node kind field' start' stop' children).Sound := by
    cases before with
    | plain notQuote commentOpens sound =>
        exact .plain notQuote (fun isComment => sameGuard ▸ commentOpens isComment) sound
    | holder isHolder sound guarded closed => exact .holder isHolder sound guarded closed
  cases grade with
  | plain => exact ⟨holds.1, fun isComment => sameGuard ▸ holds.2.1 isComment, holds.2.2⟩
  | sound => exact sound holds
  | lone => exact ⟨sound holds.1, sameGuard ▸ holds.2⟩
  | member => exact ⟨holds.1.imp sound id, sameGuard ▸ holds.2⟩

/-! ### Forests -/

def Forest.Each (grade : Grade) (forest : Forest) : Prop :=
  ∀ tree, tree ∈ forest → grade.Holds tree

/-- A kind of nodes that are neither quotes nor comments. -/
def isOrdinary (kind : String) : Bool :=
  kind != "'" && kind != "line_comment" && kind != "block_comment"

theorem isOrdinary_iff {kind : String} :
    isOrdinary kind = true ↔ kind ≠ "'" ∧ kind ≠ "line_comment" ∧ kind ≠ "block_comment" := by
  simp [isOrdinary, and_assoc]

namespace Forest

section

variable {grade : Grade} {kind name : String} {forest : Forest}

theorem each_nil : Each grade [] := nofun

theorem each_append {front back : Forest} :
    Each grade (front ++ back) ↔ Each grade front ∧ Each grade back :=
  List.forall_mem_append

theorem each_singleton {tree : Cst} : Each grade [tree] ↔ grade.Holds tree :=
  List.forall_mem_singleton

theorem each_sound_of_plain (plain : Each .plain forest) : Each .sound forest :=
  fun tree isIn => sound_of_plain (plain tree isIn)

theorem each_sound_of_lone (lone : Each .lone forest) : Each .sound forest :=
  fun tree isIn => (lone tree isIn).1

theorem each_member_of_lone (lone : Each .lone forest) : Each .member forest :=
  fun tree isIn => ⟨.inl (lone tree isIn).1, (lone tree isIn).2⟩

theorem each_fill (each : Each grade forest) : Each grade (forest.fill name) := by
  intro tree isIn
  obtain ⟨before, isBefore, rfl⟩ := List.mem_map.mp isIn
  have holds := each before isBefore
  split
  · exact holds
  · obtain ⟨kind, field, start, stop, children⟩ := before
    cases field with
    | none => exact grade.holds_congr holds
    | some inner => exact holds

theorem each_comments (grade' : Grade) (each : Each grade forest) :
    Each grade' (forest.takeWhile Cst.isComment) := by
  intro tree isIn
  have isComment := List.all_eq_true.mp List.all_takeWhile tree isIn
  exact grade'.ofComment isComment
    (sound_of_isComment (each tree (List.takeWhile_subset _ isIn)) isComment)

theorem each_wrap_of_holds {grade' : Grade} (each : Each grade forest)
    (holds : ∀ first rest start stop, forest.dropWhile Cst.isComment = first :: rest →
      grade'.Holds (.node kind none start stop (first :: rest))) :
    Each grade' (forest.wrap kind) := by
  unfold wrap
  split
  · exact each_comments grade' each
  · rename_i first rest isRest
    exact each_append.mpr ⟨each_comments grade' each,
      each_singleton.mpr (holds first rest _ _ isRest)⟩

theorem each_plain_wrap (ordinary : isOrdinary kind = true) (each : Each .sound forest) :
    Each .plain (forest.wrap kind) := by
  obtain ⟨notQuote, notLine, notBlock⟩ := isOrdinary_iff.mp ordinary
  refine each_wrap_of_holds each ?_
  intro first rest start stop isRest
  refine ⟨notQuote, ?_, ?_⟩
  · intro isComment
    simp [Cst.isComment, Cst.kind, notLine, notBlock] at isComment
  · intro child isIn
    refine each child ?_
    rw [Cst.children, ← isRest] at isIn
    exact List.dropWhile_subset _ isIn

theorem each_sound_wrap (ordinary : isOrdinary kind = true) (each : Each .sound forest) :
    Each .sound (forest.wrap kind) :=
  each_sound_of_plain (each_plain_wrap ordinary each)

theorem plain_withKind (ordinary : isOrdinary kind = true) {tree : Cst}
    (plain : Grade.plain.Holds tree) : Grade.plain.Holds (tree.withKind kind) := by
  obtain ⟨notQuote, notLine, notBlock⟩ := isOrdinary_iff.mp ordinary
  obtain ⟨before, field, start, stop, children⟩ := tree
  refine ⟨notQuote, ?_, plain.2.2⟩
  intro isComment
  simp [Cst.isComment, Cst.withKind, Cst.kind, notLine, notBlock] at isComment

theorem each_relabel (ordinary : isOrdinary kind = true) (each : Each .plain forest) :
    Each .plain (forest.relabel kind) := by
  fun_induction Forest.relabel kind forest with
  | case1 => exact each
  | case2 tree => exact each_singleton.mpr (plain_withKind ordinary (each_singleton.mp each))
  | case3 tree rest _ ih =>
      have ofRest := ih fun other isIn => each other (List.mem_cons_of_mem _ isIn)
      exact List.forall_mem_cons.mpr ⟨each tree List.mem_cons_self, ofRest⟩

end

/-! ### Nodes that hold quotes -/

/-- A forest that starts, behind comments, with something that does not open with a name. -/
def Led (forest : Forest) : Prop :=
  ∃ comments first rest, forest = comments ++ first :: rest ∧
    (∀ tree, tree ∈ comments → tree.isComment = true) ∧ first.isComment = false ∧
    identifierKinds.contains first.firstKind = false

/-- What a node that may hold quotes is made of. -/
structure Enclosed (forest : Forest) : Prop where
  each : Each .member forest
  led : forest.Led
  closed : ∀ last, forest.getLast? = some last → last.isQuote = false

theorem Led.append {front : Forest} (led : front.Led) (back : Forest) : (front ++ back).Led := by
  obtain ⟨comments, first, rest, rfl, areComments, notComment, noName⟩ := led
  exact ⟨comments, first, rest ++ back, by simp, areComments, notComment, noName⟩

theorem firstKind_withField (name : String) (tree : Cst) :
    (tree.withField name).firstKind = tree.firstKind := by
  obtain ⟨kind, field, start, stop, children⟩ := tree
  cases field <;> cases children <;> rfl

theorem isComment_withField (name : String) (tree : Cst) :
    (tree.withField name).isComment = tree.isComment := by
  obtain ⟨kind, field, start, stop, children⟩ := tree
  cases field <;> rfl

theorem Led.fill {forest : Forest} (led : forest.Led) (name : String) : (forest.fill name).Led := by
  obtain ⟨comments, first, rest, rfl, areComments, notComment, noName⟩ := led
  refine ⟨Forest.fill name comments, first.withField name, Forest.fill name rest, ?_, ?_, ?_, ?_⟩
  · simp [Forest.fill, notComment]
  · intro tree isIn
    obtain ⟨before, isBefore, rfl⟩ := List.mem_map.mp isIn
    rw [if_pos (areComments before isBefore)]
    exact areComments before isBefore
  · rw [isComment_withField]
    exact notComment
  · rw [firstKind_withField]
    exact noName

theorem Led.dropWhile {forest : Forest} (led : forest.Led) :
    ∃ first rest, forest.dropWhile Cst.isComment = first :: rest ∧
      identifierKinds.contains first.firstKind = false := by
  obtain ⟨comments, first, rest, rfl, areComments, notComment, noName⟩ := led
  refine ⟨first, rest, ?_, noName⟩
  rw [List.dropWhile_append_of_pos areComments, List.dropWhile_cons_of_neg (by simp [notComment])]

theorem isGuarded_of_led {forest : Forest} (led : forest.Led) {first : Cst} {rest : List Cst}
    (isRest : forest.dropWhile Cst.isComment = first :: rest) (kind : String) (start stop : Nat) :
    (Cst.node kind none start stop (first :: rest)).isGuarded = true := by
  obtain ⟨first', rest', isRest', noName⟩ := led.dropWhile
  obtain ⟨rfl, rfl⟩ := List.cons.inj (isRest.symm.trans isRest')
  simp only [Cst.isGuarded, Cst.firstKind, noName, Bool.not_false, Bool.or_true]

theorem each_lone_wrap_of_led {kind : String} {forest : Forest} (ordinary : isOrdinary kind = true)
    (each : Each .sound forest) (led : forest.Led) : Each .lone (forest.wrap kind) := by
  refine each_wrap_of_holds each ?_
  intro first rest start stop isRest
  have guarded := isGuarded_of_led led isRest kind start stop
  refine ⟨.plain (isOrdinary_iff.mp ordinary).1 (fun _ => guarded) ?_, guarded⟩
  intro child isChild
  rw [← isRest] at isChild
  exact each child (List.dropWhile_subset _ isChild)

theorem each_lone_wrap_of_enclosed {kind : String} {forest : Forest}
    (isHolder : kind ∈ quoteHolders) (enclosed : forest.Enclosed) :
    Each .lone (forest.wrap kind) := by
  refine each_wrap_of_holds enclosed.each ?_
  intro first rest start stop isRest
  have isIn (child : Cst) (isChild : child ∈ first :: rest) : child ∈ forest := by
    rw [← isRest] at isChild
    exact List.dropWhile_subset _ isChild
  refine ⟨.holder isHolder ?_ ?_ ?_, isGuarded_of_led enclosed.led isRest kind start stop⟩
  · intro child isChild notQuote
    rcases (enclosed.each child (isIn child isChild)).1 with sound | isQuote
    · exact sound
    · exact nomatch notQuote.symm.trans isQuote
  · intro child isChild
    exact (enclosed.each child (isIn child isChild)).2
  · intro last isLast
    refine enclosed.closed last ?_
    rw [← List.takeWhile_append_dropWhile (p := Cst.isComment) (l := forest), isRest,
      List.getLast?_append, isLast]
    rfl

end Forest

end Codemod.Grammar
