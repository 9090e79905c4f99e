import Paging.Link.Basic
import Paging.Store

/-!
# Pages

`paginate` answers a request from a store: it plans the query, lets the store validate it, asks for
the records and then for the total count. Nothing is asked of the store if the plan or the validation
fails, and the count is not asked for if the records cannot be had.

A program may await the two answers of the store together. They are modelled one after the other, so
that a run has one order of calls and of notes, and of two failures it keeps that of the records.
-/

namespace Paging

/-- What is known about a page beside its records. -/
structure MetaData where
  page : UInt64
  size : UInt64
  totalPages : UInt64
  totalCount : UInt64
  sort? : Option (List Sort.Spec)
deriving DecidableEq

/-- One page of records. -/
structure Page (ρ : Type) where
  content : List ρ
  metaData : MetaData
  /-- Present if the request has a route and no filters. -/
  links? : Option Links

/-- The metadata as an object. -/
def MetaData.toJson (metaData : MetaData) : Json :=
  .record [
    ("page", some (.nat metaData.page.toNat)),
    ("size", some (.nat metaData.size.toNat)),
    ("totalPages", some (.nat metaData.totalPages.toNat)),
    ("totalCount", some (.nat metaData.totalCount.toNat)),
    ("sort", metaData.sort?.map Sort.specsJson)]

/-- A page of JSON records as an object. -/
def Page.toJson (page : Page Json) : Json :=
  .record [
    ("content", some (.arr page.content)),
    ("metaData", some page.metaData.toJson),
    ("links", page.links?.map Links.toJson)]

/-- The page that the answers of a store make up. -/
def Plan.page {ρ : Type} (plan : Plan) (request : Request) (content : List ρ)
    (totalCount : UInt64) : Page ρ :=
  let totalPages := plan.window.totalPages totalCount
  { content
    metaData := {
      page := plan.window.page
      size := plan.window.size
      totalPages
      totalCount
      sort? := plan.sort? }
    links? :=
      if request.hasFilters then none
      else request.route.map fun route =>
        Links.make route plan.window totalPages request.sortTokens? }

/-- The course of one request: the calls made, the notes, and the page or the failure. -/
structure Run (ρ ε : Type) where
  calls : List Call
  log : List Event
  result : Except (Failure ε) (Page ρ)

/-- Plans a request and lets the store validate the plan. -/
def prepare {ρ ε : Type} (store : Store ρ ε) (settings : Settings) (model : String)
    (request : Request) (params : Params) : Outcome QueryError Plan := do
  let plan ← Plan.make request params settings
  store.validate model plan.args
  return plan

/-- Asks the store for the records of a plan and for the total count. The two calls may be awaited
together; they are modelled one after the other, the records first, and the count is not asked for
once these have failed. -/
def fetch {ρ ε : Type} (store : Store ρ ε) (model : String) (request : Request) (plan : Plan) :
    Run ρ ε :=
  let find := Call.findMany model plan.args
  let count := Call.count model plan.args.where?
  match (store.findMany model plan.args).run with
  | ⟨log, .error error⟩ => ⟨[find], log, .error (.store error)⟩
  | ⟨log, .ok content⟩ =>
      match (store.count model plan.args.where?).run with
      | ⟨more, .error error⟩ => ⟨[find, count], log ++ more, .error (.store error)⟩
      | ⟨more, .ok totalCount⟩ =>
          ⟨[find, count], log ++ more, .ok (plan.page request content totalCount)⟩

/-- Answers a request from a store. -/
def paginate {ρ ε : Type} (store : Store ρ ε) (settings : Settings) (model : String)
    (request : Request) (params : Params) : Run ρ ε :=
  match (prepare store settings model request params).run with
  | ⟨log, .error error⟩ => ⟨[], log, .error (.query error)⟩
  | ⟨log, .ok plan⟩ =>
      let run := fetch store model request plan
      { run with log := log ++ run.log }

end Paging
