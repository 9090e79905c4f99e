import Paging.Plan
import Paging.Link.Follow
import Paging.Proofs.RequestTexts

/-!
# Where links lead

The query of a link reads as the pairs that the route has of its own, and behind them the parameters
of the link (`Link.pairs_url`). Unless the route uses their names, these are read back as the page,
the size and the sort tokens (`Request.ofPairs?_params`). A request without filters is planned from
just these, and its size is clamped no further. So a link changes the page of a plan and nothing
else (`Links.leadsTo_of_ne_empty`).
-/

namespace Paging

/-! ## The query of a link -/

namespace Link

/-- The pairs of the query that a text has behind its first question mark. -/
def pairs (target : String) : List (String × String) :=
  Text.Form.decode (splitQuery target.toList).2

/-- A link has the pairs of its route and its own parameters. -/
theorem pairs_url (query : LinkQuery) (route : String) :
    pairs (query.url route) = pairs route ++ query.params := by
  unfold pairs LinkQuery.url splitQuery
  rw [String.toList_ofList]
  by_cases hMem : '?' ∈ route.toList
  · rw [if_pos hMem, Text.cut_append_right hMem, Text.Form.decode_append]
    rw [LinkQuery.encode, Text.Form.decode_encode]
  · rw [if_neg hMem, Text.cut_append hMem, Text.cut_of_not_mem hMem, LinkQuery.encode,
      Text.Form.decode_encode]
    rfl

end Link

namespace Request

theorem tokens?_eq_some_iff {list : Option (List String)} {tokens : List String} :
    tokens? list = some tokens ↔ list = some tokens ∧ tokens ≠ [] := by
  rw [tokens?, Option.filter_eq_some_iff]
  simp

theorem tokens?_eq_none_iff {list : Option (List String)} :
    tokens? list = none ↔ list.getD [] = [] := by
  match list with
  | none => exact iff_of_true rfl rfl
  | some [] => exact iff_of_true rfl rfl
  | some (_ :: _) => exact iff_of_false nofun nofun

theorem tokens?_tokens? (list : Option (List String)) : tokens? (tokens? list) = tokens? list := by
  cases hTokens : tokens? list with
  | none => rfl
  | some tokens => exact tokens?_eq_some_iff.2 ⟨rfl, (tokens?_eq_some_iff.1 hTokens).2⟩

theorem pairValue?_append {own : List (String × String)} {name : String}
    (hOwn : ∀ pair ∈ own, pair.1 ≠ name) (pairs : List (String × String)) :
    pairValue? (own ++ pairs) name = pairValue? pairs name := by
  have hNone : own.filter (fun pair => pair.1 == name) = [] := by
    rw [List.filter_eq_nil_iff]
    intro pair hMem hEq
    exact hOwn pair hMem (by simpa using hEq)
  rw [pairValue?, List.filter_append, hNone, List.nil_append]
  rfl

/-- Names that are no fields of a request do not matter. -/
theorem ofPairs?_append {own : List (String × String)} (hOwn : ∀ pair ∈ own, pair.1 ∉ fieldNames)
    (pairs : List (String × String)) : ofPairs? (own ++ pairs) = ofPairs? pairs := by
  have hValue : ∀ name ∈ fieldNames, pairValue? (own ++ pairs) name = pairValue? pairs name := by
    intro name hName
    apply pairValue?_append
    intro pair hMem hEq
    exact hOwn pair hMem (hEq ▸ hName)
  unfold ofPairs?
  dsimp only
  rw [hValue "page" (by decide), hValue "size" (by decide), hValue "sort" (by decide),
    hValue "filter" (by decide), hValue "nestedFilter" (by decide), hValue "route" (by decide)]

/-- The sort tokens are read back behind a page and a size. -/
theorem ofPairs?_sort {query : LinkQuery} (page : Option UInt64) (size : UInt64)
    (sort : Option (List String))
    (hParams : query.params = spelledPairs { page, size := some size } none none none) :
    ofPairs? (query.sort sort).params =
      some { page, size := some size, sort := tokens? sort } := by
  have hSorted : (query.sort sort).params = spelledPairs { page, size := some size }
      ((tokens? sort).map fun tokens => (Json.strings tokens).text) none none := by
    unfold LinkQuery.sort
    cases tokens? sort with
    | none => exact hParams
    | some tokens =>
        show query.params ++ [("sort", (Json.strings tokens).text)] = _
        rw [hParams]
        cases page <;> rfl
  rw [hSorted]
  exact ofPairs?_spelledPairs { page, size := some size, sort := tokens? sort }
    (spelledBy_text (tokens? sort)) .none .none

/-- The parameters of a link are read as the page, the size and the sort tokens. -/
theorem ofPairs?_params (page size : UInt64) (sort : Option (List String)) :
    ofPairs? (((LinkQuery.page {} page).size size).sort sort).params =
      some { page := some page, size := some size, sort := tokens? sort } :=
  ofPairs?_sort (some page) size sort rfl

end Request

/-! ## Plans without filters -/

namespace Window

theorem make_eq_ok_iff {page size : UInt64} {window : Window} :
    make page size = .ok window ↔ window.page = page ∧ window.size = size := by
  unfold make
  constructor
  · intro hOk
    split at hOk
    · split at hOk
      · cases hOk
        exact ⟨rfl, rfl⟩
      · cases hOk
    · cases hOk
  · intro h
    obtain ⟨rfl, rfl⟩ := h
    rw [dif_pos window.page_pos, dif_pos window.size_pos]

/-- A size that was clamped once is not clamped again. -/
theorem effectiveSize_eq {request followed : Request} {settings : Settings}
    (hSize : followed.size = some (effectiveSize request settings)) :
    effectiveSize followed settings = effectiveSize request settings := by
  unfold effectiveSize at hSize ⊢
  rw [hSize, Option.getD_some]
  cases settings.maxSize with
  | none => rfl
  | some limit =>
      dsimp only
      by_cases hLt : limit < request.size.getD settings.defaultSize
      · rw [if_pos hLt, ite_self]
      · rw [if_neg hLt, if_neg hLt]

end Window

namespace Plan

theorem order_tokens? (list : Option (List String)) (base : Option Json) :
    order (Request.tokens? list) base = order list base := by
  unfold order
  rw [Request.tokens?_tokens?]

/-- The plan of a request without filters. -/
def unfiltered (params : Params) (window : Window)
    (order : Option Json × Option (List Sort.Spec)) : Plan where
  window
  args := {
    skip := window.skip
    take := window.take
    where? := params.where?
    select? := params.select?
    include? := (remainingInclude params).value
    orderBy? := order.1 }
  sort? := order.2

section Unfiltered

variable {request : Request} {params : Params} {settings : Settings}

theorem make_eq_unfiltered (hFilters : request.hasFilters = false) :
    make request params settings = (do
      let window ← Window.resolve request settings
      let order ← order request.sort params.orderBy?
      let _ ← remainingInclude params
      return unfiltered params window order) := by
  simp only [Request.hasFilters, Bool.or_eq_false_iff, Option.isSome_eq_false_iff,
    Option.isNone_iff_eq_none] at hFilters
  unfold make layerFilters
  rw [hFilters.1, hFilters.2]
  rfl

/-- What goes into the plan of a request without filters: the window, the order and nothing else of
the request. -/
theorem run_make_eq_ok_iff {log : List Event} {plan : Plan}
    (hFilters : request.hasFilters = false) :
    (make request params settings).run = ⟨log, .ok plan⟩ ↔
      ∃ window both, Window.resolve request settings = .ok window ∧
        order request.sort params.orderBy? = .ok both ∧
        log = (remainingInclude params).log ∧ plan = unfiltered params window both := by
  rw [make_eq_unfiltered hFilters]
  cases hWindow : Window.resolve request settings with
  | error e =>
      constructor
      · intro hRun
        cases hRun
      · intro h
        obtain ⟨window, both, hOk, -⟩ := h
        cases hOk
  | ok window =>
      cases hOrder : order request.sort params.orderBy? with
      | error e =>
          constructor
          · intro hRun
            cases hRun
          · intro h
            obtain ⟨window, both, -, hOk, -⟩ := h
            cases hOk
      | ok both =>
          show (⟨((remainingInclude params).log ++ []) ++ [], .ok (unfiltered params window both)⟩ :
            Logged (Except QueryError Plan)) = ⟨log, .ok plan⟩ ↔ _
          rw [List.append_nil, List.append_nil]
          constructor
          · intro hRun
            cases hRun
            exact ⟨window, both, rfl, rfl, rfl, rfl⟩
          · intro h
            obtain ⟨window', both', hOk, hOk', rfl, rfl⟩ := h
            cases hOk
            cases hOk'
            rfl

end Unfiltered

/-- The plan with another page in its window. -/
def turnTo (plan : Plan) (page : UInt64) (hPage : 0 < page.toNat) : Plan :=
  let window := { plan.window with page, page_pos := hPage }
  { plan with window, args := { plan.args with skip := window.skip } }

/-- A request for another page with the size and the order of a plan gives that plan with the other
page. -/
theorem run_make_turnTo {request : Request} {params : Params} {settings : Settings}
    {log : List Event} {plan : Plan} (hFilters : request.hasFilters = false)
    (hPlan : (make request params settings).run = ⟨log, .ok plan⟩) (page : UInt64)
    (hPage : 0 < page.toNat) :
    (make { page := some page, size := some plan.window.size, sort := request.sortTokens? }
      params settings).run = ⟨log, .ok (plan.turnTo page hPage)⟩ := by
  obtain ⟨window, both, hWindow, hOrder, rfl, rfl⟩ := (run_make_eq_ok_iff hFilters).1 hPlan
  obtain ⟨-, hSize⟩ := Window.make_eq_ok_iff.1 hWindow
  refine (run_make_eq_ok_iff rfl).2 ⟨⟨page, window.size, hPage, window.size_pos⟩, both, ?_, ?_,
    rfl, rfl⟩
  · refine Window.make_eq_ok_iff.2 ⟨rfl, ?_⟩
    rw [hSize]
    exact (Window.effectiveSize_eq (congrArg some hSize)).symm
  · rw [← hOrder]
    exact order_tokens? request.sort params.orderBy?

end Plan

/-! ## Links -/

namespace Links

/-- A link is read as a request, and the plan of that request is the given one with a page of the
given number. -/
def LeadsTo (params : Params) (settings : Settings) (log : List Event) (plan : Plan) (number : Nat)
    (link : String) : Prop :=
  ∃ followed page, ∃ hPage : 0 < page.toNat, page.toNat = number ∧
    Request.ofQuery? (Link.splitQuery link.toList).2 = some followed ∧
    (Plan.make followed params settings).run = ⟨log, .ok (plan.turnTo page hPage)⟩

section Follow

variable {request : Request} {params : Params} {settings : Settings} {log : List Event}
  {plan : Plan} {route : String}

theorem leadsTo_url (hFilters : request.hasFilters = false)
    (hPlan : (Plan.make request params settings).run = ⟨log, .ok plan⟩)
    (hRoute : ∀ pair ∈ Link.pairs route, pair.1 ∉ Request.fieldNames)
    {page : UInt64} (hPage : 0 < page.toNat) :
    LeadsTo params settings log plan page.toNat
      ((((LinkQuery.page {} page).size plan.window.size).sort request.sortTokens?).url route) := by
  refine ⟨_, page, hPage, rfl, ?_, Plan.run_make_turnTo hFilters hPlan page hPage⟩
  show Request.ofPairs? (Link.pairs _) = _
  rw [Link.pairs_url, Request.ofPairs?_append hRoute, Request.ofPairs?_params,
    Request.sortTokens?, Request.tokens?_tokens?]

/-- **Following a link changes the page and nothing else.** The links of a request without filters
lead to the plan of the request with the page before, the page after, and the last page. -/
theorem leadsTo_of_ne_empty (hPlan : (Plan.make request params settings).run = ⟨log, .ok plan⟩)
    (hFilters : request.hasFilters = false)
    (hRoute : ∀ pair ∈ Link.pairs route, pair.1 ∉ Request.fieldNames) (totalCount : UInt64) :
    let totalPages := plan.window.totalPages totalCount
    let links := make route plan.window totalPages request.sortTokens?
    (links.prev ≠ "" →
      LeadsTo params settings log plan (plan.window.page.toNat - 1) links.prev) ∧
    (links.next ≠ "" →
      LeadsTo params settings log plan (plan.window.page.toNat + 1) links.next) ∧
    (1 ≤ totalPages.toNat →
      LeadsTo params settings log plan totalPages.toNat links.last) := by
  intro totalPages links
  refine ⟨?_, ?_, ?_⟩
  · intro hNonempty
    by_cases hPrev : plan.window.hasPrev = true
    · have hLink : links.prev = ((((LinkQuery.page {} (plan.window.page - 1)).size
          plan.window.size).sort request.sortTokens?).url route) := if_pos hPrev
      have hOne : 1 < plan.window.page.toNat := of_decide_eq_true hPrev
      have hNumber : (plan.window.page - 1).toNat = plan.window.page.toNat - 1 :=
        UInt64.toNat_sub_of_le _ _ (UInt64.le_iff_toNat_le.2 (Nat.le_of_lt hOne))
      rw [hLink, ← hNumber]
      exact leadsTo_url hFilters hPlan hRoute (by omega)
    · exact absurd (if_neg hPrev) hNonempty
  · intro hNonempty
    by_cases hNext : plan.window.hasNext totalPages = true
    · have hLink : links.next = ((((LinkQuery.page {} (plan.window.page + 1)).size
          plan.window.size).sort request.sortTokens?).url route) := if_pos hNext
      have hLast : plan.window.page.toNat < totalPages.toNat := of_decide_eq_true hNext
      have hNumber : (plan.window.page + 1).toNat = plan.window.page.toNat + 1 := by
        have hMax := totalPages.toNat_lt_size
        rw [UInt64.toNat_add]
        exact Nat.mod_eq_of_lt (show plan.window.page.toNat + 1 < UInt64.size by omega)
      rw [hLink, ← hNumber]
      exact leadsTo_url hFilters hPlan hRoute (by omega)
    · exact absurd (if_neg hNext) hNonempty
  · intro hPages
    exact leadsTo_url hFilters hPlan hRoute hPages

/-- The size is clamped before the link is written, and the route has a query of its own. -/
theorem leadsTo_of_ne_empty_users :
    ∃ plan : Plan,
      (Plan.make { page := some 2, size := some 500, sort := some ["naïve=asc"] } {}
        { maxSize := some 100 }).run = ⟨[], .ok plan⟩ ∧
      LeadsTo {} { maxSize := some 100 } [] plan 3
        (make "/users?active=1" plan.window (plan.window.totalPages 1000)
          (some ["naïve=asc"])).next := by
  let plan : Plan := {
    window := ⟨2, 100, by decide, by decide⟩
    args := { skip := 100, take := 100, orderBy? := some (.arr [.obj [("naïve", .str "asc")]]) }
    sort? := some [⟨"naïve", .asc⟩] }
  have hPlan : (Plan.make { page := some 2, size := some 500, sort := some ["naïve=asc"] } {}
      { maxSize := some 100 }).run = ⟨[], .ok plan⟩ := by
    rfl
  have hRoute : ∀ pair ∈ Link.pairs "/users?active=1", pair.1 ∉ Request.fieldNames := by
    decide
  have hNext : (make "/users?active=1" plan.window (plan.window.totalPages 1000)
      (some ["naïve=asc"])).next ≠ "" := by
    decide
  exact ⟨plan, hPlan, (leadsTo_of_ne_empty hPlan rfl hRoute 1000).2.1 hNext⟩

end Follow

end Links

end Paging
