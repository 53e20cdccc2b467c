import Codemod.Rule.Error
import Codemod.Tree.Visit

/-!
Renaming.

A renaming reaches either every identifier that reads the old name, or only the names of
declarations outside all blocks, possibly of one kind. Before it changes anything it looks for a
declaration of the new name that shares a scope and a namespace with one about to be renamed; if
there is one, it fails and changes nothing.
-/

set_option autoImplicit false

namespace Codemod

open Codemod.Tree (DeclKind Declaration LeafEdit Node SyntaxTree Token)

inductive Reach where
  /-- Every identifier. -/
  | everywhere
  /-- Names of declarations at the level of items, of one kind if it is given. -/
  | declarations (kind : Option DeclKind)
deriving DecidableEq, Repr

def Reach.admits : Reach → DeclKind → Bool
  | everywhere, _ => true
  | declarations none, _ => true
  | declarations (some only), kind => only == kind

structure Renaming where
  /-- What the rule is called. -/
  name : String
  old : String
  new : String
  reach : Reach
deriving DecidableEq, Repr

namespace Renaming

/-! ### Making renamings -/

def defaultName (old new : String) : Reach → String
  | .everywhere => s!"rename-ident({old} -> {new})"
  | .declarations none => s!"rename-decl({old} -> {new})"
  | .declarations (some kind) => s!"rename-decl({kind.name} {old} -> {new})"

def checkName (name : String) : Except RuleError Unit :=
  match Name.flaw? name with
  | none => .ok ()
  | some flaw => .error (.invalidIdentifier name flaw)

def make (old new : String) (reach : Reach) : Except RuleError Renaming := do
  checkName old
  checkName new
  if old = new then .error (.sameName old)
  else .ok ⟨defaultName old new reach, old, new, reach⟩

def named (rule : Renaming) (name : String) : Renaming := { rule with name := name }

/-! ### Collisions -/

def isSource (rule : Renaming) (declaration : Declaration) : Bool :=
  rule.reach.admits declaration.kind && declaration.nameText? == some rule.old

def isInTheWay (rule : Renaming) (source other : Declaration) : Bool :=
  other.nameText? == some rule.new && other.sharesNamespace source

/-- The first declaration in the way inside one scope. -/
def collisionIn? (rule : Renaming) (scope : List Declaration) : Option Declaration :=
  (scope.filter rule.isSource).findSome? fun source =>
    scope.find? (rule.isInTheWay source)

def collision? (rule : Renaming) (tree : SyntaxTree) : Option Declaration :=
  tree.scopes.findSome? rule.collisionIn?

def collisionError (rule : Renaming) (existing : Declaration) : RuleError :=
  .nameCollision rule.old rule.new existing.kind existing.line

/-! ### Changing the tree -/

def renameLeaf (rule : Renaming) (leaf : Token) : Token :=
  if leaf.text = rule.old then { leaf with text := rule.new } else leaf

def everywhereEdit (rule : Renaming) : LeafEdit :=
  ⟨rule.renameLeaf, id, fun _ => true⟩

mutual

/-- Rename the declarations of a node outside all blocks. -/
def renameNames (rule : Renaming) : Node → Node
  | .ident leaf => .ident leaf
  | .token leaf => .token leaf
  | .branch .block label children => .branch .block label children
  | .branch (.declaration kind) label children =>
      .branch (.declaration kind) label
        (renameNamesOf rule (rule.reach.admits kind) children)
  | .branch construct label children =>
      .branch construct label (renameNamesOf rule false children)

/-- Rename the declarations of a run of nodes; with `ownName`, also the first name leaf of the
run, which is the name of the declaration above it. -/
def renameNamesOf (rule : Renaming) (ownName : Bool) : List Node → List Node
  | [] => []
  | node :: rest =>
      match ownName, node.nameLeaf? with
      | true, some leaf => .ident (rule.renameLeaf leaf) :: renameNamesOf rule false rest
      | _, _ => renameNames rule node :: renameNamesOf rule ownName rest

end

/-- Whether there is nothing to rename. Declarations are looked for in the scopes. -/
def isIdle (rule : Renaming) (tree : SyntaxTree) : Bool :=
  match rule.reach with
  | .everywhere => tree.countIdentifier rule.old == 0
  | .declarations _ => !tree.scopes.any fun scope => scope.any rule.isSource

def rename (rule : Renaming) (tree : SyntaxTree) : SyntaxTree :=
  match rule.reach with
  | .everywhere => tree.edit rule.everywhereEdit
  | .declarations _ => { tree with root := rule.renameNames tree.root }

end Renaming

structure RuleResult where
  tree : SyntaxTree
  error : Option RuleError

def Renaming.apply (rule : Renaming) (tree : SyntaxTree) : RuleResult :=
  if rule.isIdle tree then ⟨tree, none⟩
  else
    match rule.collision? tree with
    | some existing => ⟨tree, some (rule.collisionError existing)⟩
    | none => ⟨rule.rename tree, none⟩

end Codemod
