import Codemod.Grammar.Type

/-!
Where clauses.

A type in front of bounds is read with fewer keywords than elsewhere, because functions, sums and
types known by a trait cannot be constrained. What a reference or a quantifier stands in front of
may be a sum all the same.
-/

set_option autoImplicit false

namespace Codemod.Grammar

open Reader

/-- The kinds of paths a where clause may constrain. -/
def constrainedKinds : List String :=
  ["type_identifier", "scoped_type_identifier", "generic_type", "primitive_type"]

def constrained (sub : Readers) : Reader Forest :=
  fun input =>
    match input.rest with
    | '\'' :: _ => lifetime input
    | '&' :: _ => referenceType sub true false input
    | '*' :: _ => pointerType sub true input
    | '(' :: _ => typeOfKind (tupleType sub false) ["tuple_type"] input
    | '[' :: _ => arrayType sub false input
    | _ =>
        if input.word == "for" then higherRanked sub true input
        else typeOfKind (typePath sub pathWords) constrainedKinds input

def wherePredicate (sub : Readers) : Reader Forest :=
  node "where_predicate"
    (followedBy (fills "left" (constrained sub)) (fills "bounds" (traitBounds sub)))

/-- A where clause, which may be empty. A lifetime behind a comma is constrained, and no label of
what follows the clause. -/
def whereClause (sub : Readers) : Reader Forest :=
  node "where_clause" (followedBy (keyword "where")
    (onlyIf (fun input =>
        !(input.startsWith "\x7b" || input.startsWith ";" || input.startsWith "="))
      (followedBy (commaSeparated (wherePredicate sub) (wherePredicate sub)) fun input =>
        if input.startsWith "," && atQuote (input.behind 1) then .stuck (.ofInput input)
        else optional (mark ",") input)))

def whereClause? (sub : Readers) : Reader Forest :=
  onlyIf (·.word == "where") (whereClause sub)

end Codemod.Grammar
