import Paging.Filter.Compile
import Paging.Sort
import Paging.Window

/-!
# Plans

A plan is all that is known about a page before the store is asked: the window, the arguments of the
store call, and the order that is reported back. Flat filters are written over the caller's
condition and nested filters over both; sort tokens go behind the caller's order; of a selection and
an inclusion the selection counts.
-/

namespace Paging

/-- What a store is asked for. -/
structure Args where
  skip : UInt64
  take : UInt64
  where? : Option Json := none
  select? : Option Json := none
  include? : Option Json := none
  orderBy? : Option Json := none

/-- The arguments as an object; what is absent has no field. -/
def Args.toJson (args : Args) : Json :=
  .record [
    ("skip", some (.nat args.skip.toNat)),
    ("take", some (.nat args.take.toNat)),
    ("where", args.where?),
    ("select", args.select?),
    ("include", args.include?),
    ("orderBy", args.orderBy?)]

/-- A compiled request. -/
structure Plan where
  window : Window
  args : Args
  /-- The order that the sort tokens ask for, if there are any. -/
  sort? : Option (List Sort.Spec)

namespace Plan

/-- Writes the entries of a clause over the caller's condition. A condition that is no object gives
way, which is noted. -/
def layerClause (base : Option Json) (clause : Filter.Clause) : Logged Json :=
  match base with
  | some (.obj entries) =>
      return .obj (Table.insertAll (Filter.entriesToJson clause) entries)
  | some other => do
      Logged.note (.callerWhereReplaced other)
      return clause.toJson
  | none => return clause.toJson

/-- Compiles the tokens of a list, if there are any, and writes them over the condition. -/
def layerFilters (mode : Filter.Mode) (list : Option (List String)) (base : Option Json) :
    Outcome QueryError (Option Json) :=
  match Request.tokens? list with
  | none => return base
  | some tokens => do
      let clause ← Filter.compile mode tokens
      return some (← layerClause base clause)

/-- The caller's entries and after them those of the sort tokens. -/
def appendOrder (base : Option Json) (specs : List Sort.Spec) : Json :=
  let entries :=
    match base with
    | some (.arr entries) => entries
    | some entry => [entry]
    | none => []
  .arr (entries ++ specs.map Sort.Spec.toJson)

/-- The order of the plan, and what is reported of it. -/
def order (list : Option (List String)) (base : Option Json) :
    Except QueryError (Option Json × Option (List Sort.Spec)) :=
  match Request.tokens? list with
  | none => return (base, none)
  | some tokens => do
      let specs ← Sort.parseAll tokens
      return (some (appendOrder base specs), some specs)

/-- The inclusion that remains beside the selection. -/
def remainingInclude (params : Params) : Logged (Option Json) := do
  if params.select?.isSome && params.include?.isSome then
    Logged.note .includeDropped
    return none
  else return params.include?

/-- Compiles a request. -/
def make (request : Request) (params : Params) (settings : Settings) : Outcome QueryError Plan := do
  let window ← Window.resolve request settings
  let flat ← layerFilters .flat request.filter params.where?
  let nested ← layerFilters .nested request.nestedFilter flat
  let (orderBy?, sort?) ← order request.sort params.orderBy?
  let include? ← remainingInclude params
  return {
    window
    args := {
      skip := window.skip
      take := window.take
      where? := nested
      select? := params.select?
      include?
      orderBy? }
    sort? }

end Plan

end Paging
