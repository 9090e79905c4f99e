import Paging.Sql.Compile
import Paging.Store

/-!
# The SQL store

A database executes statements and gives rows back, cells by column name. As a store it validates a
query by compiling it, so that a query that it accepts never fails for its form.
-/

namespace Paging.Sql

/-- A value in a row. -/
inductive Cell where
  | null
  | bool (value : Bool)
  | int (value : Int)
  | text (value : String)
deriving DecidableEq, Repr

/-- Cells by the names of their columns. -/
abbrev Row := Table String Cell

/-- A cell as JSON. -/
def Cell.toJson : Cell → Json
  | .null => .null
  | .bool b => .bool b
  | .int n => .num (.int n)
  | .text s => .str s

/-- A row as an object. -/
def Row.toJson (row : Row) : Json := .obj (row.map fun (column, cell) => (column, cell.toJson))

/-- What can go wrong in a database. -/
inductive DbError where
  /-- An error with a text of its own. -/
  | custom (text : String)
  /-- A row that has to be there is missing. -/
  | recordNotFound (text : String)
  /-- A cell does not have the type that is asked for. -/
  | type (text : String)
deriving DecidableEq, Repr

/-- The text of an error. -/
def DbError.message : DbError → String
  | .custom text => "Custom Error: " ++ text
  | .recordNotFound text => "RecordNotFound Error: " ++ text
  | .type text => "Type Error: " ++ text

/-- A database: its dialect, and what statements give. -/
structure Database where
  dialect : Dialect
  /-- All rows that a statement gives. -/
  rows : Statement → Except DbError (List Row)
  /-- The first row that a statement gives, if there is one. -/
  row : Statement → Except DbError (Option Row)

/-- A query that cannot be compiled as an error of the database. -/
def DbError.ofQueryError (error : QueryError) : DbError := .custom error.message

/-- The count that the first column of a row holds. -/
def countOfRow (row : Row) : Except DbError UInt64 :=
  match row with
  | (_, .int n) :: _ =>
      if Number.minInt ≤ n ∧ n ≤ Number.maxInt then
        if 0 ≤ n then .ok (UInt64.ofNat n.toNat)
        else .error (.custom "number too small to fit in target type")
      else .error (.type "A null value was encountered while decoding 0")
  | _ => .error (.type "A null value was encountered while decoding 0")

namespace Database

/-- The records of one page. -/
def findMany (db : Database) (model : String) (args : Args) : Outcome DbError (List Json) := do
  let select ← ExceptT.adapt DbError.ofQueryError (Select.ofArgs model args)
  let rows ← db.rows (select.statement db.dialect)
  return rows.map Row.toJson

/-- How many records satisfy a condition. -/
def count (db : Database) (model : String) (filter : Option Json) : Except DbError UInt64 := do
  let count ← (Count.ofFilter model filter).mapError DbError.ofQueryError
  match ← db.row (count.statement db.dialect) with
  | some row => countOfRow row
  | none => .error (.recordNotFound ("count of " ++ model))

/-- The database as a store. -/
def store (db : Database) : Store Json DbError where
  validate := fun model args => do discard (Select.ofArgs model args)
  findMany := db.findMany
  count := fun model filter => liftM (db.count model filter)

/-- The statement that a call to the store sends. -/
def statement? (dialect : Dialect) : Call → Option Statement
  | .findMany model args =>
      (Select.ofArgs model args).run.value.toOption.map (·.statement dialect)
  | .count model filter => (Count.ofFilter model filter).toOption.map (·.statement dialect)

end Database

end Paging.Sql
