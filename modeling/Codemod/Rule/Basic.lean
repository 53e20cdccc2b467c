import Codemod.Rule.Renaming

/-!
Rules: renamings, and changes of trees that a caller brings along.
-/

set_option autoImplicit false

namespace Codemod

open Codemod.Tree (Hook LeafEdit SyntaxTree Token)

/-- A named change of trees. -/
inductive Rule where
  | rename (rule : Renaming)
  | custom (name : String) (change : SyntaxTree → RuleResult)

namespace Rule

def name : Rule → String
  | rename rule => rule.name
  | custom name _ => name

def apply : Rule → SyntaxTree → RuleResult
  | rename rule, tree => rule.apply tree
  | custom _ change, tree => change tree

def ofEdit (name : String) (change : LeafEdit) : Rule :=
  custom name fun tree => ⟨tree.edit change, none⟩

def idle (name : String) : Rule :=
  custom name fun tree => ⟨tree, none⟩

def failing (name message : String) : Rule :=
  custom name fun tree => ⟨tree, some (.failed message)⟩

end Rule

inductive LeafTarget where
  | ident
  | token
  | any
deriving DecidableEq, Repr

def setText (old : Option String) (new : String) (target : LeafTarget) (enters : Hook → Bool) :
    LeafEdit :=
  let set (leaf : Token) : Token :=
    match old with
    | none => { leaf with text := new }
    | some text => if leaf.text = text then { leaf with text := new } else leaf
  ⟨if target = .token then id else set, if target = .ident then id else set, enters⟩

def addSuffix (suffix : String) : LeafEdit :=
  ⟨fun leaf => { leaf with text := leaf.text ++ suffix }, id, fun _ => true⟩

end Codemod
