import Paging.Sql.Value

/-!
# Conditions

A condition joins terms by `AND` or `OR` and may be negated; a term is a comparison of one column or
a condition again. A condition that is not negated and has a single term means the same as the term
and is replaced by it when it becomes a term itself. A condition without terms is a constant.

`Expr` is the binary form in which conditions are written out.
-/

namespace Paging.Sql

/-- How two values are compared. -/
inductive Relation where
  | eq
  | ne
  | gt
  | gte
  | lt
  | lte
deriving DecidableEq, Repr

/-- A comparison of one column. -/
inductive Atom where
  | isNull (column : String)
  | isNotNull (column : String)
  | compare (column : String) (relation : Relation) (value : Value)
  | isIn (column : String) (values : List Value)
deriving DecidableEq

/-- How the terms of a condition are joined. -/
inductive Connective where
  | all
  | any
deriving DecidableEq, Repr

/-- A part of a condition. -/
inductive Term where
  | atom (atom : Atom)
  | group (negated : Bool) (connective : Connective) (terms : List Term)

/-- Terms under one connective, negated perhaps. -/
structure Condition where
  negated : Bool
  connective : Connective
  terms : List Term

namespace Condition

/-- The condition as a term. -/
def toTerm (condition : Condition) : Term :=
  match condition with
  | ⟨false, _, [term]⟩ => term
  | ⟨negated, connective, terms⟩ => .group negated connective terms

/-- Comparisons under one connective. -/
def ofAtoms (connective : Connective) (atoms : List Atom) : Condition :=
  ⟨false, connective, atoms.map .atom⟩

/-- Conditions under one connective. -/
def join (connective : Connective) (conditions : List Condition) : Condition :=
  ⟨false, connective, conditions.map toTerm⟩

/-- The opposite condition. -/
def negate (condition : Condition) : Condition := { condition with negated := !condition.negated }

end Condition

/-! ## Expressions -/

/-- A condition in the form in which it is written. -/
inductive Expr where
  | constant (value : Bool)
  | atom (atom : Atom)
  | binary (connective : Connective) (left right : Expr)
  | not (expr : Expr)
deriving DecidableEq

namespace Expr

/-- Expressions under one connective, nested to the left. Without any the constant that changes
nothing remains. -/
def fold (connective : Connective) : List Expr → Expr
  | [] => .constant (connective == .all)
  | first :: rest => rest.foldl (.binary connective) first

/-- An expression, or its negation. -/
def negatedIf (negated : Bool) (expr : Expr) : Expr := if negated then .not expr else expr

mutual

/-- The expression of a term. -/
def ofTerm : Term → Expr
  | .atom a => .atom a
  | .group negated connective terms => negatedIf negated (fold connective (ofTerms terms))

/-- The expressions of terms. -/
def ofTerms : List Term → List Expr
  | [] => []
  | term :: rest => ofTerm term :: ofTerms rest

end

/-- The expression of a condition. -/
def ofCondition (condition : Condition) : Expr :=
  negatedIf condition.negated (fold condition.connective (ofTerms condition.terms))

end Expr

end Paging.Sql
