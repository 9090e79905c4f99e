import Paging.Sort
import Paging.Sql.Condition

/-!
# Statements

A statement is text with values in it. `sql` puts a placeholder in the place of every value, `values`
lists them in the same order, and `inline` writes them out as literals. The truth constants of empty
conditions are part of the text.
-/

namespace Paging.Sql

/-- A stretch of text, or the place of a value. -/
inductive Piece where
  | text (chars : List Char)
  | value (value : Value)
deriving DecidableEq

/-- A statement for one dialect. -/
structure Statement where
  dialect : Dialect
  pieces : List Piece
deriving DecidableEq

namespace Statement

/-- The placeholder of the value with the given number, counted from one. -/
def placeholder (dialect : Dialect) (number : Nat) : List Char :=
  match dialect with
  | .postgres => '$' :: Nat.toDigits 10 number
  | .sqlite | .mysql => ['?']

/-- The text of pieces, the first value of which has the given number. -/
def sqlFrom (dialect : Dialect) (number : Nat) : List Piece → List Char
  | [] => []
  | .text chars :: rest => chars ++ sqlFrom dialect number rest
  | .value _ :: rest => placeholder dialect number ++ sqlFrom dialect (number + 1) rest

/-- The text with placeholders. -/
def sql (statement : Statement) : String :=
  String.ofList (sqlFrom statement.dialect 1 statement.pieces)

/-- The values in the order of their placeholders. -/
def values (statement : Statement) : List Value :=
  statement.pieces.filterMap fun
    | .text _ => none
    | .value value => some value

/-- The text with literals. -/
def inline (statement : Statement) : String :=
  String.ofList (statement.pieces.flatMap fun
    | .text chars => chars
    | .value value => value.literal statement.dialect)

end Statement

/-! ## Writing expressions -/

/-- Text as a piece. -/
def word (text : String) : Piece := .text text.toList

/-- The sign of a relation, with blanks around it. -/
def Relation.sign : Relation → String
  | .eq => " = "
  | .ne => " <> "
  | .gt => " > "
  | .gte => " >= "
  | .lt => " < "
  | .lte => " <= "

/-- The keyword of a connective, with blanks around it. -/
def Connective.keyword : Connective → String
  | .all => " AND "
  | .any => " OR "

/-- Values with commas between them. -/
def listed : List Value → List Piece
  | [] => []
  | [value] => [.value value]
  | value :: rest => .value value :: word ", " :: listed rest

/-- A comparison. Nothing is a member of an empty list, which is written as a comparison of two
different numbers. -/
def Atom.pieces (dialect : Dialect) : Atom → List Piece
  | .isNull column => [.text (dialect.identifier column), word " IS NULL"]
  | .isNotNull column => [.text (dialect.identifier column), word " IS NOT NULL"]
  | .compare column relation value =>
      [.text (dialect.identifier column), word relation.sign, .value value]
  | .isIn _ [] => [.value (.int 1), word Relation.eq.sign, .value (.int 2)]
  | .isIn column values =>
      .text (dialect.identifier column) :: word " IN (" :: listed values ++ [word ")"]

namespace Expr

/-- Whether an operand stands without parentheses on either side. -/
def isSimple : Expr → Bool
  | .constant _ | .atom _ => true
  | .binary _ _ _ | .not _ => false

/-- Whether an expression joins two others by the given connective. -/
def joinsBy (connective : Connective) : Expr → Bool
  | .binary own _ _ => own == connective
  | _ => false

/-- Pieces in parentheses, unless they may stand without. -/
def parenthesized (bare : Bool) (pieces : List Piece) : List Piece :=
  if bare then pieces else word "(" :: pieces ++ [word ")"]

/-- An expression. Operands that are no comparisons are put into parentheses, except on the left of
the connective that they use themselves. -/
def pieces (dialect : Dialect) : Expr → List Piece
  | .constant true => [word "TRUE"]
  | .constant false => [word "FALSE"]
  | .atom a => a.pieces dialect
  | .binary connective left right =>
      parenthesized (left.isSimple || left.joinsBy connective) (left.pieces dialect)
        ++ word connective.keyword :: parenthesized right.isSimple (right.pieces dialect)
  | .not expr => word "NOT " :: parenthesized expr.isSimple (expr.pieces dialect)

end Expr

/-! ## The two statements of a store -/

/-- A query for the records of one page. -/
structure Select where
  model : String
  /-- The columns fetched; all of them if the list is empty. -/
  columns : List String
  where? : Option Condition
  order : List (String × Sort.Direction)
  limit : UInt64
  offset : UInt64

/-- A query for the number of records. -/
structure Count where
  model : String
  where? : Option Condition

/-- The condition of a query, if there is one. -/
def whereClause (dialect : Dialect) : Option Condition → List Piece
  | none => []
  | some condition => word " WHERE " :: (Expr.ofCondition condition).pieces dialect

/-- Names with commas between them. -/
def identifiers (dialect : Dialect) (names : List String) : List Char :=
  [',', ' '].intercalate (names.map dialect.identifier)

/-- A column and its direction. -/
def orderEntry (dialect : Dialect) (entry : String × Sort.Direction) : List Char :=
  dialect.identifier entry.1 ++
    match entry.2 with
    | .asc => " ASC".toList
    | .desc => " DESC".toList

/-- The order of a query, if it has entries. -/
def orderClause (dialect : Dialect) (order : List (String × Sort.Direction)) : List Piece :=
  if order.isEmpty then []
  else [word " ORDER BY ", .text ([',', ' '].intercalate (order.map (orderEntry dialect)))]

/-- The statement of a query for records. -/
def Select.statement (dialect : Dialect) (select : Select) : Statement :=
  let columns := if select.columns.isEmpty then ['*'] else identifiers dialect select.columns
  { dialect
    pieces := [word "SELECT ", .text columns, word " FROM ",
        .text (dialect.identifier select.model)]
      ++ whereClause dialect select.where?
      ++ orderClause dialect select.order
      ++ [word " LIMIT ", .value (.word select.limit), word " OFFSET ",
        .value (.word select.offset)] }

/-- The statement of a query for a number. -/
def Count.statement (dialect : Dialect) (count : Count) : Statement :=
  { dialect
    pieces := [word "SELECT COUNT(*) FROM ", .text (dialect.identifier count.model)]
      ++ whereClause dialect count.where? }

end Paging.Sql
