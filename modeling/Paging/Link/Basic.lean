import Paging.Json.Printer
import Paging.Text.Form
import Paging.Window

/-!
# Navigation links

A link is a route with a query string behind it. Its parameters are the page, the size and the sort
tokens, the last as the JSON text of an array. A route that has a query string already is continued
with an ampersand. The link to the first page leaves the page out; a link that leads nowhere is the
empty string.
-/

namespace Paging

/-- The parameters of a link, in order. -/
structure LinkQuery where
  params : List (String × String) := []
deriving DecidableEq

namespace LinkQuery

/-- Appends a parameter. -/
def param (query : LinkQuery) (name value : String) : LinkQuery :=
  ⟨query.params ++ [(name, value)]⟩

/-- The decimal text of a word. -/
def wordText (n : UInt64) : String := String.ofList (Nat.toDigits 10 n.toNat)

/-- Appends the page. -/
def page (query : LinkQuery) (page : UInt64) : LinkQuery := query.param "page" (wordText page)

/-- Appends the size. -/
def size (query : LinkQuery) (size : UInt64) : LinkQuery := query.param "size" (wordText size)

/-- Appends the sort tokens, if there are any. -/
def sort (query : LinkQuery) (tokens : Option (List String)) : LinkQuery :=
  match Request.tokens? tokens with
  | some tokens => query.param "sort" (Json.strings tokens).text
  | none => query

/-- The parameters as a query string. -/
def encode (query : LinkQuery) : List Char := Text.Form.encode query.params

/-- The route with the query string behind it. -/
def url (query : LinkQuery) (route : String) : String :=
  let separator := if '?' ∈ route.toList then '&' else '?'
  String.ofList (route.toList ++ separator :: query.encode)

end LinkQuery

/-- The four links of a page. -/
structure Links where
  first : String
  prev : String
  next : String
  last : String
deriving DecidableEq

namespace Links

/-- The links of a window among so many pages. -/
def make (route : String) (window : Window) (totalPages : UInt64) (sort : Option (List String)) :
    Links :=
  let link := fun (query : LinkQuery) => ((query.size window.size).sort sort).url route
  let linkTo := fun (page : UInt64) => link (LinkQuery.page {} page)
  { first := link {}
    prev := if window.hasPrev then linkTo (window.page - 1) else ""
    next := if window.hasNext totalPages then linkTo (window.page + 1) else ""
    last := linkTo totalPages }

/-- The links as an object. -/
def toJson (links : Links) : Json :=
  .obj [("first", .str links.first), ("prev", .str links.prev), ("next", .str links.next),
    ("last", .str links.last)]

end Links

end Paging
