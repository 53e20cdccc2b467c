/-!
The concrete tree a source file is read into.

A node has the kind the grammar gives it, the field it fills in its parent, the bytes it
covers and its children. A token is a node without children; a punctuation mark or keyword
has its own text as kind. Comments are nodes too: they may stand between any two tokens, and
belong to the innermost node that holds the token before and the token after them. A forest
is a run of siblings in source order, comments included, and `Forest.wrap` is the one place
where that ownership is decided.
-/

set_option autoImplicit false

namespace Codemod.Grammar

/-- One node of the concrete tree, with the half-open byte range it covers. -/
inductive Cst where
  | node (kind : String) (field : Option String) (start stop : Nat) (children : List Cst)

abbrev Forest := List Cst

namespace Cst

def kind : Cst → String
  | node kind _ _ _ _ => kind

def field : Cst → Option String
  | node _ field _ _ _ => field

def start : Cst → Nat
  | node _ _ start _ _ => start

def stop : Cst → Nat
  | node _ _ _ stop _ => stop

def children : Cst → List Cst
  | node _ _ _ _ children => children

/-- Comments fill no field and never decide how the tokens around them group. -/
def isComment (tree : Cst) : Bool :=
  tree.kind == "line_comment" || tree.kind == "block_comment"

/-- Name the field a node fills, unless a closer node already named one. -/
def withField (name : String) : Cst → Cst
  | node kind none start stop children => node kind (some name) start stop children
  | node kind (some inner) start stop children => node kind (some inner) start stop children

def withKind (kind : String) : Cst → Cst
  | node _ field start stop children => node kind field start stop children

mutual

def lastToken : Cst → Cst
  | node kind field start stop children =>
      (lastTokenOf children).getD (node kind field start stop children)

def lastTokenOf : List Cst → Option Cst
  | [] => none
  | tree :: rest => (lastTokenOf rest).or (some tree.lastToken)

end

end Cst

namespace Forest

/-- Let every node of the forest fill the field, comments apart. -/
def fill (name : String) (forest : Forest) : Forest :=
  forest.map fun tree => if tree.isComment then tree else tree.withField name

def relabel (kind : String) : Forest → Forest
  | [] => []
  | [tree] => [tree.withKind kind]
  | tree :: rest => tree :: relabel kind rest

/-- Group a forest under one node. Comments in front of its first token stay outside. -/
def wrap (kind : String) (forest : Forest) : Forest :=
  let comments := forest.takeWhile Cst.isComment
  match forest.dropWhile Cst.isComment with
  | [] => comments
  | first :: rest =>
      comments ++ [.node kind none first.start ((first :: rest).getLast (by simp)).stop
        (first :: rest)]

def lastToken? (forest : Forest) : Option Cst := Cst.lastTokenOf forest

def kind (forest : Forest) : String :=
  match forest.getLast? with
  | some tree => tree.kind
  | none => ""

end Forest

end Codemod.Grammar
