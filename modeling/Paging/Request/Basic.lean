import Paging.Json.Basic

/-!
# Requests and settings

What a caller asks for and what the operator of a service has laid down. A request says which page
is wanted, in which order and under which filters; parameters are passed through to the store;
settings give the defaults and the greatest size of a page. Pages, sizes and counts are 64-bit words.
-/

namespace Paging

/-- A page request. A list that is empty is told apart from one that is absent only in the JSON
form. -/
structure Request where
  page : Option UInt64 := none
  size : Option UInt64 := none
  /-- Sort tokens. -/
  sort : Option (List String) := none
  /-- Filter tokens whose dots are part of the field. -/
  filter : Option (List String) := none
  /-- Filter tokens whose dots separate relations. -/
  nestedFilter : Option (List String) := none
  /-- What links begin with. -/
  route : Option String := none
deriving DecidableEq

namespace Request

/-- The tokens of a list, if there are any. -/
def tokens? (list : Option (List String)) : Option (List String) :=
  list.filter (!·.isEmpty)

/-- Whether any filter was given. -/
def hasFilters (request : Request) : Bool :=
  (tokens? request.filter).isSome || (tokens? request.nestedFilter).isSome

/-- The sort tokens, if there are any. -/
def sortTokens? (request : Request) : Option (List String) := tokens? request.sort

/-- The request as an object; what is absent has no field. -/
def toJson (request : Request) : Json :=
  .record [
    ("page", request.page.map fun n => .nat n.toNat),
    ("size", request.size.map fun n => .nat n.toNat),
    ("sort", request.sort.map .strings),
    ("filter", request.filter.map .strings),
    ("nestedFilter", request.nestedFilter.map .strings),
    ("route", request.route.map .str)]

end Request

/-- What is passed through to the store beside the request. -/
structure Params where
  /-- The condition that compiled filters are written over. -/
  where? : Option Json := none
  include? : Option Json := none
  select? : Option Json := none
  /-- The order that sort tokens are appended to. -/
  orderBy? : Option Json := none

/-- The parameters as an object; what is absent has no field. -/
def Params.toJson (params : Params) : Json :=
  .record [
    ("where", params.where?),
    ("include", params.include?),
    ("select", params.select?),
    ("orderBy", params.orderBy?)]

/-- Defaults and limits for all requests. -/
structure Settings where
  defaultPage : UInt64 := 1
  defaultSize : UInt64 := 20
  /-- Greater sizes are cut down to this one. -/
  maxSize : Option UInt64 := none
deriving DecidableEq

namespace Settings

/-- The settings with another default size. -/
def withDefaultSize (settings : Settings) (size : UInt64) : Settings :=
  { settings with defaultSize := size }

/-- The settings with a greatest size. -/
def withMaxSize (settings : Settings) (size : UInt64) : Settings :=
  { settings with maxSize := some size }

/-- The settings as an object; without a greatest size its field is null. -/
def toJson (settings : Settings) : Json :=
  .obj [
    ("default_page", .nat settings.defaultPage.toNat),
    ("default_size", .nat settings.defaultSize.toNat),
    ("max_size", (settings.maxSize.map fun n => .nat n.toNat).getD .null)]

end Settings

end Paging
