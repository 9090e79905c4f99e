import Paging.Json.Printer
import Paging.Store

/-!
# Responses

How a failure is shown to a user. A mistake in the request is explained. An error of the store is
hidden behind a fixed text; what it was goes to the log.
-/

namespace Paging

/-- The answer to an HTTP request. -/
structure Response where
  status : Nat
  contentType : String
  body : String
deriving DecidableEq, Repr

namespace Response

/-- The response that shows an error text. -/
def ofError (status : Nat) (text : String) : Response :=
  { status
    contentType := "application/json"
    body := (Json.obj [("error", .str text)]).text }

/-- The response to a rejected request. -/
def ofQueryError (error : QueryError) : Response := ofError 400 error.message

/-- The text that stands for every store error. -/
def hiddenText : String := "A database error occurred"

/-- The response to a failure. -/
def ofFailure {ε : Type} (text : ε → String) : Failure ε → Logged Response
  | .query error => return ofQueryError error
  | .store error => do
      Logged.note (.storeFailed (text error))
      return ofError 500 hiddenText

end Response

end Paging
