import Paging.Session
import Paging.Proofs.Navigation
import Paging.Proofs.Results
import Paging.Proofs.Windows

/-!
# The four links of a page

A page that is returned carries the links of its window (`exists_plan_of_links`), and each link that
is not empty can be read back as a request (`read?_first`, `read?_toPage`).

The first link names no page, so that the settings decide where it leads: to the first page exactly
if they make it the default (`first_leads_to_first_iff`). The last link names the number of pages,
so that it is refused where no records were counted, and only there (`acceptable_get_iff`).
-/

namespace Paging

/-! ## Pages that are returned -/

section Returned

variable {ρ ε : Type} {store : Store ρ ε} {settings : Settings} {model : String}
  {request : Request} {params : Params}

theorem value_prepare_eq_ok_iff {plan : Plan} :
    (prepare store settings model request params).run.value = .ok plan ↔
      (Plan.make request params settings).run.value = .ok plan ∧
        (store.validate model plan.args).run.value = .ok () := by
  rw [prepare, Results.value_bind_eq_ok_iff]
  constructor
  · intro h
    obtain ⟨planned, hPlan, hRest⟩ := h
    obtain ⟨_, hValid, hPure⟩ := Results.value_bind_eq_ok_iff.1 hRest
    cases hPure
    exact ⟨hPlan, hValid⟩
  · intro h
    exact ⟨plan, h.1, Results.value_bind_eq_ok_iff.2 ⟨(), h.2, rfl⟩⟩

theorem result_fetch_eq_ok_iff {plan : Plan} {page : Page ρ} :
    (fetch store model request plan).result = .ok page ↔
      ∃ content totalCount, (store.findMany model plan.args).run.value = .ok content ∧
        (store.count model plan.args.where?).run.value = .ok totalCount ∧
        page = plan.page request content totalCount := by
  rw [fetch]
  rcases (store.findMany model plan.args).run with ⟨log, error | content⟩
  · simp
  · rcases (store.count model plan.args.where?).run with ⟨more, error | totalCount⟩
    · simp
    · simp [eq_comm]

/-- A page is returned where the request has a plan, the store accepts the plan, and both calls to
the store succeed. -/
theorem result_paginate_eq_ok_iff {page : Page ρ} :
    (paginate store settings model request params).result = .ok page ↔
      ∃ plan, ((Plan.make request params settings).run.value = .ok plan ∧
          (store.validate model plan.args).run.value = .ok ()) ∧
        (fetch store model request plan).result = .ok page := by
  simp only [← value_prepare_eq_ok_iff]
  rw [paginate]
  rcases (prepare store settings model request params).run with ⟨log, error | plan⟩
  · simp
  · simp

/-- The links of a page are those of its window, for a request without filters. -/
theorem exists_plan_of_links {page : Page ρ} {links : Links} {route : String}
    (hPage : (paginate store settings model request params).result = .ok page)
    (hLinks : page.links? = some links) (hRoute : request.route = some route) :
    ∃ plan, (Plan.make request params settings).run.value = .ok plan ∧
      request.hasFilters = false ∧ page.metaData.size = plan.window.size ∧
      links = .make route plan.window (plan.window.totalPages page.metaData.totalCount)
        request.sortTokens? := by
  obtain ⟨plan, ⟨hPlan, -⟩, hFetch⟩ := result_paginate_eq_ok_iff.1 hPage
  obtain ⟨content, totalCount, -, -, rfl⟩ := result_fetch_eq_ok_iff.1 hFetch
  have hPageLinks : (if request.hasFilters then none else request.route.map fun route =>
      Links.make route plan.window (plan.window.totalPages totalCount) request.sortTokens?) =
      some links := hLinks
  rw [hRoute] at hPageLinks
  by_cases hFilters : request.hasFilters = true
  · rw [if_pos hFilters] at hPageLinks
    cases hPageLinks
  · rw [if_neg hFilters] at hPageLinks
    cases hPageLinks
    exact ⟨plan, hPlan, eq_false_of_ne_true hFilters, rfl, rfl⟩

end Returned

theorem Plan.value_make_eq_ok_iff {request : Request} {params : Params} {settings : Settings}
    {plan : Plan} (hFilters : request.hasFilters = false) :
    (make request params settings).run.value = .ok plan ↔
      ∃ window both, Window.resolve request settings = .ok window ∧
        order request.sort params.orderBy? = .ok both ∧ plan = unfiltered params window both := by
  constructor
  · intro hPlan
    obtain ⟨window, both, hWindow, hOrder, -, hUnfiltered⟩ := (run_make_eq_ok_iff hFilters).1
      (Results.run_eq_of_value_eq hPlan)
    exact ⟨window, both, hWindow, hOrder, hUnfiltered⟩
  · intro h
    obtain ⟨window, both, hWindow, hOrder, hUnfiltered⟩ := h
    rw [(run_make_eq_ok_iff hFilters).2 ⟨window, both, hWindow, hOrder, rfl, hUnfiltered⟩]

/-! ## Reading links -/

namespace Link

/-- The request that a link spells in its query. What comes after a number sign is not sent. The
link need not be a request target, which `follow` asks for besides. -/
def read? (link : String) : Option Request :=
  Request.ofQuery? (splitQuery (Text.cut '#' link.toList).1).2

end Link

namespace Request

/-- A link without a page is read as the size and the sort tokens. -/
theorem ofPairs?_params_of_size (size : UInt64) (sort : Option (List String)) :
    ofPairs? ((LinkQuery.size {} size).sort sort).params =
      some { size := some size, sort := tokens? sort } :=
  ofPairs?_sort none size sort rfl

end Request

/-! ## Links of a plain route -/

namespace Links

/-- The request that a link spells for a page, or for whichever page is the default. -/
def spelled (page : Option UInt64) (size : UInt64) (sort : Option (List String)) : Request :=
  { page, size := some size, sort := Request.tokens? sort }

section Plain

variable {route : String} (hQuery : '?' ∉ route.toList) (hFragment : '#' ∉ route.toList)

include hQuery hFragment

theorem read?_url (query : LinkQuery) :
    Link.read? (query.url route) = Request.ofPairs? query.params := by
  have hUrl : (query.url route).toList = route.toList ++ '?' :: query.encode := by
    rw [LinkQuery.url, if_neg hQuery, String.toList_ofList]
  have hNone : '#' ∉ route.toList ++ '?' :: query.encode := by
    rw [List.mem_append, List.mem_cons, not_or, not_or]
    refine ⟨hFragment, by decide, ?_⟩
    exact Text.Form.not_mem_encode (by decide) (by decide) (by decide) (by decide) (by decide) _
  rw [Link.read?, hUrl, Text.cut_of_not_mem hNone]
  show Request.ofPairs? (Text.Form.decode (Text.cut '?' _).2) = _
  rw [Text.cut_append hQuery, LinkQuery.encode, Text.Form.decode_encode]

theorem read?_toPage (page size : UInt64) (sort : Option (List String)) :
    Link.read? ((((LinkQuery.page {} page).size size).sort sort).url route) =
      some (spelled page size sort) := by
  rw [read?_url hQuery hFragment, Request.ofPairs?_params]
  rfl

variable (window : Window) (totalPages : UInt64) (sort : Option (List String))

theorem read?_first :
    Link.read? (make route window totalPages sort).first =
      some (spelled none window.size sort) := by
  show Link.read? (((LinkQuery.size {} window.size).sort sort).url route) = _
  rw [read?_url hQuery hFragment, Request.ofPairs?_params_of_size]
  rfl

theorem read?_prev (hPrev : window.hasPrev = true) :
    Link.read? (make route window totalPages sort).prev =
      some (spelled (some (window.page - 1)) window.size sort) := by
  rw [← read?_toPage hQuery hFragment]
  exact congrArg Link.read? (if_pos hPrev)

theorem read?_next (hNext : window.hasNext totalPages = true) :
    Link.read? (make route window totalPages sort).next =
      some (spelled (some (window.page + 1)) window.size sort) := by
  rw [← read?_toPage hQuery hFragment]
  exact congrArg Link.read? (if_pos hNext)

theorem read?_last :
    Link.read? (make route window totalPages sort).last =
      some (spelled totalPages window.size sort) :=
  read?_toPage hQuery hFragment totalPages window.size sort

end Plain

theorem url_ne_empty (query : LinkQuery) (route : String) : query.url route ≠ "" := by
  intro hEmpty
  have hList := congrArg String.toList hEmpty
  rw [LinkQuery.url, String.toList_ofList] at hList
  simp at hList

theorem prev_ne_empty {window : Window} (hPrev : window.hasPrev = true) (route : String)
    (totalPages : UInt64) (sort : Option (List String)) :
    (make route window totalPages sort).prev ≠ "" :=
  (congrArg (· ≠ "") (if_pos hPrev)).mpr (url_ne_empty _ route)

theorem next_ne_empty {window : Window} {totalPages : UInt64}
    (hNext : window.hasNext totalPages = true) (route : String) (sort : Option (List String)) :
    (make route window totalPages sort).next ≠ "" :=
  (congrArg (· ≠ "") (if_pos hNext)).mpr (url_ne_empty _ route)

section Followed

variable {ρ ε : Type} {store : Store ρ ε} {settings : Settings} {model : String}
  {request : Request} {params : Params} {page : Page ρ} {links : Links} {route : String}

section Planned

variable {plan : Plan} (hPlan : (Plan.make request params settings).run.value = .ok plan)
  (hFilters : request.hasFilters = false)

include hPlan hFilters

/-- The size in a link was clamped when the page was made, and is not clamped again. -/
theorem resolve_spelled (number : Option UInt64) :
    Window.resolve (spelled number plan.window.size request.sortTokens?) settings =
      Window.make (number.getD settings.defaultPage) plan.window.size := by
  obtain ⟨window, both, hWindow, -, rfl⟩ := (Plan.value_make_eq_ok_iff hFilters).1 hPlan
  have hSize : window.size = Window.effectiveSize request settings :=
    (Window.make_eq_ok_iff.1 hWindow).2
  have hSame : Window.effectiveSize (spelled number window.size request.sortTokens?) settings =
      window.size := by
    rw [hSize]
    exact Window.effectiveSize_eq rfl
  exact congrArg (Window.make (number.getD settings.defaultPage)) hSame

/-- A link to a page has the plan of the page that it stands on, turned to the other page. -/
theorem value_make_spelled (number : UInt64) (hNumber : 0 < number.toNat) :
    (Plan.make (spelled number plan.window.size request.sortTokens?) params settings).run.value =
      .ok (plan.turnTo number hNumber) := by
  have hTurned :=
    Plan.run_make_turnTo hFilters (Results.run_eq_of_value_eq hPlan) number hNumber
  rw [spelled, Request.sortTokens?, Request.tokens?_tokens?]
  exact congrArg Logged.value hTurned

end Planned

/-! ## The first link -/

/-- **Where the first link leads.** It asks for the default page, in the size of the page that it
stands on. That is the first page, before which there are no records, exactly if the settings say
so. -/
theorem first_leads_to_first_iff
    (hPage : (paginate store settings model request params).result = .ok page)
    (hLinks : page.links? = some links) (hRoute : request.route = some route)
    (hQuery : '?' ∉ route.toList) (hFragment : '#' ∉ route.toList) :
    ∃ followed, Link.read? links.first = some followed ∧
      Window.resolve followed settings =
        Window.make settings.defaultPage page.metaData.size ∧
      ((∃ plan, (Plan.make followed params settings).run.value = .ok plan ∧
          plan.window.page = 1 ∧ plan.args.skip = 0 ∧ plan.window.size = page.metaData.size) ↔
        settings.defaultPage = 1) := by
  obtain ⟨plan, hPlan, hFilters, hSize, rfl⟩ := exists_plan_of_links hPage hLinks hRoute
  rw [hSize]
  refine ⟨_, read?_first hQuery hFragment _ _ _, resolve_spelled hPlan hFilters none, ?_⟩
  constructor
  · intro h
    obtain ⟨first, hFirst, hOne, -, -⟩ := h
    obtain ⟨window, both, hWindow, -, rfl⟩ := (Plan.value_make_eq_ok_iff rfl).1 hFirst
    exact (Window.make_eq_ok_iff.1 hWindow).1.symm.trans hOne
  · intro hOne
    -- Leaving the page out is asking for the default page, here the first one.
    have hSame : Plan.make (spelled none plan.window.size request.sortTokens?) params settings =
        Plan.make (spelled (some 1) plan.window.size request.sortTokens?) params settings := by
      rw [← hOne]
      rfl
    have hFirst := value_make_spelled hPlan hFilters 1 (by decide)
    rw [← hSame] at hFirst
    refine ⟨_, hFirst, rfl, ?_, rfl⟩
    show saturated (0 * plan.window.size.toNat) = 0
    rw [Nat.zero_mul]
    rfl

/-- The second of three pages, in a size that was clamped. -/
theorem first_leads_to_first_users :
    ∃ page links, (paginate (({ total := 25 } : Shelf).store false) { maxSize := some 10 } "users"
        { page := some 2, size := some 50, route := some "/users" } {}).result = .ok page ∧
      page.links? = some links ∧
      ∃ followed plan, Link.read? links.first = some followed ∧
        (Plan.make followed {} { maxSize := some 10 }).run.value = .ok plan ∧
        plan.window.page = 1 ∧ plan.args.skip = 0 ∧ plan.window.size = page.metaData.size := by
  let window : Window := ⟨2, 10, by decide, by decide⟩
  let links : Links := make "/users" window 3 none
  let page : Page Json := {
    content := []
    metaData := { page := 2, size := 10, totalPages := 3, totalCount := 25, sort? := none }
    links? := some links }
  have hPage : (paginate (({ total := 25 } : Shelf).store false) { maxSize := some 10 } "users"
      { page := some 2, size := some 50, route := some "/users" } {}).result = .ok page := by
    rfl
  obtain ⟨followed, hRead, -, hFirst⟩ :=
    first_leads_to_first_iff hPage rfl rfl (by decide) (by decide)
  obtain ⟨plan, hPlan⟩ := hFirst.2 rfl
  exact ⟨page, links, hPage, rfl, followed, plan, hRead, hPlan⟩

/-- Where the third page is the default, the first link of the first page leads to the third. -/
theorem first_leads_to_third :
    ∃ page links, (paginate (({ total := 100 } : Shelf).store false) { defaultPage := 3 } "users"
        { page := some 1, size := some 20, route := some "/users" } {}).result = .ok page ∧
      page.links? = some links ∧
      ¬∃ followed plan, Link.read? links.first = some followed ∧
        (Plan.make followed {} { defaultPage := 3 }).run.value = .ok plan ∧
        plan.window.page = 1 ∧ plan.args.skip = 0 ∧ plan.window.size = page.metaData.size := by
  let window : Window := ⟨1, 20, by decide, by decide⟩
  let links : Links := make "/users" window 5 none
  let page : Page Json := {
    content := []
    metaData := { page := 1, size := 20, totalPages := 5, totalCount := 100, sort? := none }
    links? := some links }
  refine ⟨page, links, rfl, rfl, ?_⟩
  intro h
  obtain ⟨followed, plan, hRead, hPlan, hOne, -⟩ := h
  have hFirst : Link.read? links.first = some (spelled none 20 none) :=
    read?_first (by decide) (by decide) window 5 none
  rw [hFirst] at hRead
  cases hRead
  cases hPlan
  exact absurd hOne (by decide)

/-! ## Links that are refused -/

/-- A link is acceptable if it is empty, which says that there is no such page, or if the request
that it spells has a window. -/
def Acceptable (settings : Settings) (link : String) : Prop :=
  link = "" ∨ ∃ followed window, Link.read? link = some followed ∧
    Window.resolve followed settings = .ok window

section Planned

variable {plan : Plan} {number : Option UInt64} {link : String}
  (hPlan : (Plan.make request params settings).run.value = .ok plan)
  (hFilters : request.hasFilters = false)
  (hRead : Link.read? link = some (spelled number plan.window.size request.sortTokens?))

include hPlan hFilters hRead

theorem acceptable_of_read? (hPos : 0 < (number.getD settings.defaultPage).toNat) :
    Acceptable settings link := by
  have hOk : Window.make (number.getD settings.defaultPage) plan.window.size =
      .ok ⟨number.getD settings.defaultPage, plan.window.size, hPos, plan.window.size_pos⟩ :=
    Window.make_eq_ok_iff.2 ⟨rfl, rfl⟩
  exact .inr ⟨_, _, hRead, (resolve_spelled hPlan hFilters number).trans hOk⟩

theorem pos_of_acceptable (hNonempty : link ≠ "") (hAcceptable : Acceptable settings link) :
    0 < (number.getD settings.defaultPage).toNat := by
  rcases hAcceptable with hEmpty | ⟨followed, window, hFollowed, hWindow⟩
  · exact absurd hEmpty hNonempty
  · rw [hRead] at hFollowed
    cases hFollowed
    rw [resolve_spelled hPlan hFilters number] at hWindow
    rw [← (Window.make_eq_ok_iff.1 hWindow).1]
    exact window.page_pos

end Planned

/-- **Which links are refused.** With the first page as the default every link of a page is
acceptable, except for the last one where no records were counted. -/
theorem acceptable_get_iff
    (hPage : (paginate store settings model request params).result = .ok page)
    (hLinks : page.links? = some links) (hRoute : request.route = some route)
    (hQuery : '?' ∉ route.toList) (hFragment : '#' ∉ route.toList)
    (hDefault : settings.defaultPage = 1) (name : LinkName) :
    Acceptable settings (links.get name) ↔ (name = .last → page.metaData.totalCount ≠ 0) := by
  obtain ⟨plan, hPlan, hFilters, -, rfl⟩ := exists_plan_of_links hPage hLinks hRoute
  cases name with
  | first =>
      have hAcceptable := acceptable_of_read? hPlan hFilters
        (read?_first hQuery hFragment plan.window
          (plan.window.totalPages page.metaData.totalCount) request.sortTokens?)
        (by rw [Option.getD_none, hDefault]; decide)
      exact iff_of_true hAcceptable nofun
  | prev =>
      by_cases hPrev : plan.window.hasPrev = true
      · have hAcceptable := acceptable_of_read? hPlan hFilters
          (read?_prev hQuery hFragment plan.window
            (plan.window.totalPages page.metaData.totalCount) request.sortTokens? hPrev)
          (Window.toNat_page_sub_one hPrev).2
        exact iff_of_true hAcceptable nofun
      · exact iff_of_true (.inl (if_neg hPrev)) nofun
  | next =>
      by_cases hNext :
          plan.window.hasNext (plan.window.totalPages page.metaData.totalCount) = true
      · have hNumber := Window.toNat_page_add_one hNext
        have hAcceptable := acceptable_of_read? hPlan hFilters
          (read?_next hQuery hFragment plan.window
            (plan.window.totalPages page.metaData.totalCount) request.sortTokens? hNext)
          (by rw [Option.getD_some]; omega)
        exact iff_of_true hAcceptable nofun
      · exact iff_of_true (.inl (if_neg hNext)) nofun
  | last =>
      have hRead := read?_last hQuery hFragment plan.window
        (plan.window.totalPages page.metaData.totalCount) request.sortTokens?
      have hPages : 0 < (plan.window.totalPages page.metaData.totalCount).toNat ↔
          page.metaData.totalCount ≠ 0 := by
        rw [Window.lt_totalPages_iff, Nat.zero_mul, Nat.pos_iff_ne_zero, ← UInt64.toNat_zero]
        exact not_congr UInt64.toNat_inj
      constructor
      · intro hAcceptable _
        exact hPages.1 (pos_of_acceptable hPlan hFilters hRead (url_ne_empty _ route) hAcceptable)
      · intro hCount
        exact acceptable_of_read? hPlan hFilters hRead (hPages.2 (hCount rfl))

/-- One record fills one page, and the link to it is acceptable. -/
theorem acceptable_get_users :
    ∃ page links, (paginate (({ total := 1 } : Shelf).store false) {} "users"
        { route := some "/users" } {}).result = .ok page ∧ page.links? = some links ∧
      Acceptable {} (links.get .last) := by
  let window : Window := ⟨1, 20, by decide, by decide⟩
  let links : Links := make "/users" window 1 none
  let page : Page Json := {
    content := []
    metaData := { page := 1, size := 20, totalPages := 1, totalCount := 1, sort? := none }
    links? := some links }
  have hPage : (paginate (({ total := 1 } : Shelf).store false) {} "users"
      { route := some "/users" } {}).result = .ok page := by
    rfl
  have hAcceptable := acceptable_get_iff hPage rfl rfl (by decide) (by decide) rfl .last
  exact ⟨page, links, hPage, rfl, hAcceptable.2 fun _ => by decide⟩

/-- Where nothing was counted, the last link asks for a page with the number zero. -/
theorem last_refused_of_no_records :
    ∃ page links, (paginate (({ total := 0 } : Shelf).store false) {} "users"
        { route := some "/users" } {}).result = .ok page ∧ page.links? = some links ∧
      ¬Acceptable {} (links.get .last) := by
  let window : Window := ⟨1, 20, by decide, by decide⟩
  let links : Links := make "/users" window 0 none
  let page : Page Json := {
    content := []
    metaData := { page := 1, size := 20, totalPages := 0, totalCount := 0, sort? := none }
    links? := some links }
  refine ⟨page, links, rfl, rfl, ?_⟩
  intro h
  rcases h with hEmpty | ⟨followed, window', hRead, hWindow⟩
  · exact url_ne_empty _ "/users" hEmpty
  · have hLast : Link.read? (links.get .last) = some (spelled (some 0) 20 none) :=
      read?_last (by decide) (by decide) window 0 none
    rw [hLast] at hRead
    cases hRead
    cases hWindow

end Followed

end Links

end Paging
