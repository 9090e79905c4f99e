import Paging.Plan

/-!
# Record stores

A store answers two questions about a model: which records a query selects, and how many records a
condition admits. It may declare beforehand that it cannot evaluate a query.
-/

namespace Paging

/-- What a store can do. Records and errors are its own. -/
structure Store (ρ ε : Type) where
  /-- Accepts or rejects a query before any call is made. -/
  validate : String → Args → Outcome QueryError Unit := fun _ _ => pure ()
  /-- The records of one page. -/
  findMany : String → Args → Outcome ε (List ρ)
  /-- How many records satisfy a condition. -/
  count : String → Option Json → Outcome ε UInt64

/-- A call made to a store. -/
inductive Call where
  | findMany (model : String) (args : Args)
  | count (model : String) (where? : Option Json)

/-- Why no page is returned. -/
inductive Failure (ε : Type) where
  /-- The request is at fault. -/
  | query (error : QueryError)
  /-- The store is at fault. -/
  | store (error : ε)

/-- The text of a failure, given the text of the store's errors. -/
def Failure.message {ε : Type} (text : ε → String) : Failure ε → String
  | .query error => error.message
  | .store error => "store error: " ++ text error

end Paging
