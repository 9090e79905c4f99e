import Paging.Filter.Operator

/-!
# Rejected requests

A request that cannot be compiled, or that a store declares it cannot evaluate, is the caller's
mistake. `QueryError` says which mistake it is and `message` words it.
-/

namespace Paging

/-- The direction words of sort tokens, in the order in which messages list them. -/
def directionWords : List String := ["desc", "asc", "DESC", "ASC"]

/-- Why a request is rejected. -/
inductive QueryError where
  /-- A filter token does not hold exactly one operator, or has no field. -/
  | invalidFilter (token : String)
  /-- A sort token is not a field, an equals sign and a direction word. -/
  | invalidSort (token : String)
  /-- The tokens of one nested group do not lie below one relation. -/
  | mismatchedPrefix (expected found : String)
  /-- The page or the size is out of range. -/
  | invalidPage (message : String)
  /-- The store cannot evaluate the query. -/
  | unsupported (message : String)
deriving DecidableEq, Repr

namespace QueryError

/-- The text of the error for users. -/
def message : QueryError → String
  | .invalidFilter token =>
      "Invalid filter format '" ++ token ++ "': expected 'field<operator>value'. "
        ++ "Operators available " ++ ",".intercalate (Filter.Operator.all.map (·.symbol))
  | .invalidSort token =>
      "Invalid sort format '" ++ token ++ "': expected \"field=order\". Values available "
        ++ ",".intercalate directionWords
  | .mismatchedPrefix expected found =>
      "Invalid nested filter '" ++ found ++ "': expected relation prefix '" ++ expected ++ "'"
  | .invalidPage text => text
  | .unsupported text => text

end QueryError

end Paging
