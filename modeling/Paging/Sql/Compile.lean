import Paging.Plan
import Paging.Sql.Statement
import Paging.Text.Letters

/-!
# From where-objects to conditions

In a where-object the keys `AND`, `OR` and `NOT` join objects; every other key is a column, whose
value is compared directly or by an object of operators. Null is compared by `IS NULL`, and only for
equality. Objects that ask for related records cannot be compiled.

The walk reports the first fault that it meets, going through keys in order.
-/

namespace Paging.Sql

/-! ## Operands -/

/-- The error for a value in the place of an object. -/
def notAnObject (value : Json) : QueryError :=
  .unsupported ("expected a filter object, found " ++ value.text)

/-- The value that a number is bound as: an integer of 64 bits if it is one, else a double. -/
def ofNumber : Number → Value
  | .float x => .double x
  | .int n => if Number.minInt ≤ n ∧ n ≤ Number.maxInt then .bigInt n else .double (.ofInt n)

/-- The value that an operand is bound as. -/
def scalar : Json → Except QueryError Value
  | .bool b => .ok (.bool b)
  | .num n => .ok (ofNumber n)
  | .str s => .ok (.text s)
  | value => .error (.unsupported ("expected a scalar value, found " ++ value.text))

/-- The comparison with an operand under `equals`. -/
def equals (column : String) (operand : Json) : Except QueryError Atom :=
  if operand.isNull then .ok (.isNull column)
  else (scalar operand).map (.compare column .eq)

/-- The comparison with an operand under `NOT`. -/
def differs (column : String) (operand : Json) : Except QueryError Atom :=
  if operand.isNull then .ok (.isNotNull column)
  else (scalar operand).map (.compare column .ne)

/-- The values of a list operand; a single value is a list of one. -/
def listValues : Json → Except QueryError (List Value)
  | .arr items => items.mapM scalar
  | operand => (scalar operand).map ([·])

/-- The keys that ask for related records. -/
def relationKeys : List String := ["is", "isNot", "some", "every", "none"]

/-- The comparison of a column under the key of an operator. -/
def comparison (column key : String) (operand : Json) : Except QueryError Atom :=
  let compareBy := fun (relation : Relation) => (scalar operand).map (.compare column relation)
  if key = "equals" then equals column operand
  else if key = "NOT" ∨ key = "not" then differs column operand
  else if key = "gt" then compareBy .gt
  else if key = "gte" then compareBy .gte
  else if key = "lt" then compareBy .lt
  else if key = "lte" then compareBy .lte
  else if key = "in" then (listValues operand).map (.isIn column)
  else if key ∈ relationKeys then
    .error (.unsupported
      ("relation filter on '" ++ column ++ "' is not supported by the SQL store"))
  else .error (.unsupported ("unsupported operator '" ++ key ++ "' on field '" ++ column ++ "'"))

/-- The condition on a column. -/
def columnCondition (column : String) : Json → Except QueryError Condition
  | .obj operators => do
      let atoms ← operators.mapM fun (key, operand) => comparison column key operand
      return .ofAtoms .all atoms
  | value => do return .ofAtoms .all [← equals column value]

/-! ## Objects -/

/-- A key that joins objects instead of naming a column. -/
inductive Joint where
  | all
  | any
  | none
deriving DecidableEq, Repr

/-- The joint that a key names. -/
def Joint.ofKey? (key : String) : Option Joint :=
  if key = "AND" then some .all
  else if key = "OR" then some .any
  else if key = "NOT" then some .none
  else Option.none

/-- The conditions of several objects, joined. -/
def Joint.join : Joint → List Condition → Condition
  | .all, conditions => .join .all conditions
  | .any, conditions => .join .any conditions
  | .none, conditions => (Condition.join .all conditions).negate

mutual

/-- The condition of a where-object. -/
def filterCondition : Json → Except QueryError Condition
  | .obj entries => do return .join .all (← entryConditions entries)
  | value => .error (notAnObject value)

/-- The conditions of an object's entries. -/
def entryConditions : List (String × Json) → Except QueryError (List Condition)
  | [] => return []
  | (key, value) :: rest => do
      let condition ←
        match Joint.ofKey? key with
        | some joint => do pure (joint.join (← memberConditions value))
        | none => columnCondition key value
      return condition :: (← entryConditions rest)

/-- The conditions of the objects under a joint: those of an array, or the one that stands there. -/
def memberConditions : Json → Except QueryError (List Condition)
  | .arr items => itemConditions items
  | .obj entries => do return [.join .all (← entryConditions entries)]
  | value => .error (notAnObject value)

/-- The conditions of the objects in an array. -/
def itemConditions : List Json → Except QueryError (List Condition)
  | [] => return []
  | item :: rest => do
      let condition ← filterCondition item
      return condition :: (← itemConditions rest)

end

/-! ## Statements -/

/-- The entries of a value that has to be an object. -/
def objectEntries : Json → Except QueryError (List (String × Json))
  | .obj entries => .ok entries
  | value => .error (notAnObject value)

/-- The direction that a value of an order entry names, in any letter case. -/
def direction? : Json → Option Sort.Direction
  | .str s =>
      if Text.sameWord s.toList "asc".toList then some .asc
      else if Text.sameWord s.toList "desc".toList then some .desc
      else none
  | _ => none

/-- A column with its direction. -/
def orderPair (entry : String × Json) : Except QueryError (String × Sort.Direction) :=
  match direction? entry.2 with
  | some direction => .ok (entry.1, direction)
  | none =>
      .error (.unsupported
        ("invalid sort direction " ++ entry.2.text ++ " for '" ++ entry.1 ++ "'"))

/-- The order that a value asks for: an object, or an array of objects. That all are objects is
checked first. -/
def orderPairs : Option Json → Except QueryError (List (String × Sort.Direction))
  | none => return []
  | some value => do
      let objects ←
        match value with
        | .arr items => items.mapM objectEntries
        | other => (objectEntries other).map ([·])
      objects.flatten.mapM orderPair

/-- The columns that a selection enables. -/
def selectedColumns : Option Json → Except QueryError (List String)
  | none => return []
  | some value => do
      let entries ← objectEntries value
      return entries.filterMap fun (column, enabled) =>
        match enabled with
        | .bool true => some column
        | _ => none

/-- The condition of a query, if there is one. -/
def whereCondition : Option Json → Except QueryError (Option Condition)
  | none => return none
  | some value => (filterCondition value).map some

/-- The query for the records of one page. An inclusion is ignored, which is noted once the
selection has been found to be sound. -/
def Select.ofArgs (model : String) (args : Args) : Outcome QueryError Select := do
  let columns ← selectedColumns args.select?
  if args.include?.isSome then Logged.note (.includeIgnored model)
  let where? ← whereCondition args.where?
  let order ← orderPairs args.orderBy?
  return { model, columns, where?, order, limit := args.take, offset := args.skip }

/-- The query for the number of records. -/
def Count.ofFilter (model : String) (filter : Option Json) : Except QueryError Count := do
  return { model, where? := ← whereCondition filter }

end Paging.Sql
