import Paging.Link.Follow
import Paging.Paginate

/-!
# Sessions

A user who pages through records: each step either asks for a page or follows a link of the last page
that was shown. `Shelf` is a store that holds fixed records, for which everything a store can do is
set from outside; steps may change it.
-/

namespace Paging

/-- A store with fixed answers. -/
structure Shelf where
  /-- What every query finds. -/
  records : List Json := []
  /-- What every count gives. -/
  total : UInt64 := 0
  /-- Finding fails with this error. -/
  findError : Option String := none
  /-- Counting fails with this error. -/
  countError : Option String := none
  /-- Validation fails with this text. -/
  reject : Option String := none

namespace Shelf

/-- The shelf as a store; `validates` says whether it rejects queries. -/
def store (shelf : Shelf) (validates : Bool) : Store Json String where
  validate := fun _ _ =>
    match validates, shelf.reject with
    | true, some text => throw (.unsupported text)
    | _, _ => pure ()
  findMany := fun _ _ =>
    match shelf.findError with
    | some error => throw error
    | none => pure shelf.records
  count := fun _ _ =>
    match shelf.countError with
    | some error => throw error
    | none => pure shelf.total

end Shelf

/-- Which of the four links. -/
inductive LinkName where
  | first
  | prev
  | next
  | last
deriving DecidableEq, Repr

/-- The link of that name. -/
def Links.get (links : Links) : LinkName → String
  | .first => links.first
  | .prev => links.prev
  | .next => links.next
  | .last => links.last

/-- Where a user stands: the last page that was shown, with the request it answered. -/
structure Session where
  last? : Option (Request × Page Json) := none

namespace Session

/-- Why there is no request to answer. -/
inductive StepError where
  /-- No page was shown yet, it has no links, or the link leads nowhere. -/
  | noLink
  /-- The link cannot be followed. -/
  | follow (error : Link.FollowError)
deriving DecidableEq, Repr

/-- The request that following a link of the last page makes. Its route is that of the request
before, since links do not carry it. -/
def followLink (session : Session) (name : LinkName) : Except StepError Request := do
  let some (request, page) := session.last? | throw .noLink
  let some links := page.links? | throw .noLink
  let link := links.get name
  if link.isEmpty then throw .noLink
  match Link.follow link with
  | .error error => throw (.follow error)
  | .ok followed => return { followed with route := request.route }

/-- The session after a request has been answered: only a page that was shown is remembered. -/
def remember {ε : Type} (session : Session) (request : Request) (run : Run Json ε) : Session :=
  match run.result with
  | .ok page => ⟨some (request, page)⟩
  | .error _ => session

end Session

end Paging
