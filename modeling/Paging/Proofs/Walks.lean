import Paging.Proofs.ListedRecords

/-!
# Walking through all pages

A user who starts at the first page and takes the next link of every page that is shown sees the
pages of one plan, turned from number to number (`answer_spelled`). The walk ends at the last page,
since that one has no next link, and what was shown on the way is what the store holds, record by
record (`walk_shows_all_records`). Taking the previous link and then the next one leads back
(`exists_turn?_prev`).

All of it needs a store that does not refuse a page for where it begins (`Store.IgnoresSkip`): one
that did would end the walk with a failure.

The invariant that carries the walk is that the pages from number `n` on show the records that come
behind `n - 1` full pages (`Trail`, `exists_trail`).
-/

namespace Paging

variable {ρ ε : Type}

/-! ## Turning pages -/

/-- What stays the same while pages are turned. -/
structure Listing (ρ ε : Type) where
  store : Store ρ ε
  settings : Settings
  model : String
  params : Params
  route : String

namespace Listing

/-- The answer to a request. -/
def answer (listing : Listing ρ ε) (request : Request) : Except (Failure ε) (Page ρ) :=
  (paginate listing.store listing.settings listing.model request listing.params).result

/-- The page that a link shows. An empty link shows none; other links do not carry the route. -/
def turn? (listing : Listing ρ ε) (link : String) : Option (Page ρ) :=
  if link = "" then none
  else (Link.read? link).bind fun followed =>
    (listing.answer { followed with route := some listing.route }).toOption

/-- The pages that are shown from a page on by taking next links until there is none. -/
inductive Walk (listing : Listing ρ ε) : Page ρ → List (Page ρ) → Prop
  | stop {page : Page ρ} {links : Links} (hLinks : page.links? = some links)
      (hNext : links.next = "") : Walk listing page [page]
  | step {page following : Page ρ} {links : Links} {pages : List (Page ρ)}
      (hLinks : page.links? = some links) (hNext : listing.turn? links.next = some following)
      (hRest : Walk listing following pages) : Walk listing page (page :: pages)

variable {listing : Listing ρ ε}

theorem turn?_empty (listing : Listing ρ ε) : listing.turn? "" = none := if_pos rfl

/-- There is one walk from a page at most. -/
theorem Walk.unique {page : Page ρ} {pages pages' : List (Page ρ)}
    (hWalk : listing.Walk page pages) (hWalk' : listing.Walk page pages') : pages = pages' := by
  induction hWalk generalizing pages' with
  | stop hLinks hEnd =>
      cases hWalk' with
      | stop => rfl
      | step hLinks' hNext' =>
          rw [hLinks] at hLinks'
          cases hLinks'
          rw [hEnd, turn?_empty] at hNext'
          cases hNext'
  | step hLinks hNext hRest ih =>
      cases hWalk' with
      | stop hLinks' hEnd' =>
          rw [hLinks] at hLinks'
          cases hLinks'
          rw [hEnd', turn?_empty] at hNext
          cases hNext
      | step hLinks' hNext' hRest' =>
          rw [hLinks] at hLinks'
          cases hLinks'
          rw [hNext] at hNext'
          cases hNext'
          rw [ih hRest']

/-! ## The pages of a plan -/

/-- The page with a number, as the plan of a request gives it for listed records. -/
def pageAt (request : Request) (plan : Plan) (records : List ρ) (number : UInt64)
    (hNumber : 0 < number.toNat) : Page ρ :=
  let turned := plan.turnTo number hNumber
  turned.page request ((records.drop turned.window.skip.toNat).take turned.window.size.toNat)
    (.ofNat records.length)

/-- How many pages of a plan the records fill. -/
def lastNumber (plan : Plan) (records : List ρ) : UInt64 :=
  plan.window.totalPages (.ofNat records.length)

/-- What is needed of a request for the pages of its plan to be shown in turn. -/
structure Shown (listing : Listing ρ ε) (records : List ρ) (request : Request) (plan : Plan) :
    Prop where
  holds : listing.store.Holds listing.model records
  ignoresSkip : listing.store.IgnoresSkip listing.model
  make_eq : (Plan.make request listing.params listing.settings).run.value = .ok plan
  validate_eq : (listing.store.validate listing.model plan.args).run.value = .ok ()
  noFilters : request.hasFilters = false
  route_eq : request.route = some listing.route
  plainQuery : '?' ∉ listing.route.toList
  plainFragment : '#' ∉ listing.route.toList

namespace Shown

variable {records : List ρ} {request : Request} {plan : Plan}
  (hShown : listing.Shown records request plan)

include hShown

theorem skip_eq : plan.args.skip = plan.window.skip := by
  obtain ⟨window, both, -, -, rfl⟩ :=
    (Plan.value_make_eq_ok_iff hShown.noFilters).1 hShown.make_eq
  rfl

theorem take_eq : plan.args.take = plan.window.size := by
  obtain ⟨window, both, -, -, rfl⟩ :=
    (Plan.value_make_eq_ok_iff hShown.noFilters).1 hShown.make_eq
  rfl

theorem toNat_count : (UInt64.ofNat records.length).toNat = records.length :=
  UInt64.toNat_ofNat_of_lt' hShown.holds.length_lt

/-- The store accepts the pages of all numbers. -/
theorem validate_turnTo (number : UInt64) (hNumber : 0 < number.toNat) :
    (listing.store.validate listing.model (plan.turnTo number hNumber).args).run.value = .ok () :=
  (hShown.ignoresSkip plan.args _).trans hShown.validate_eq

/-- The page that the store makes up for the plan, turned to a number. -/
theorem result_fetch_turnTo {other : Request} (hFilters : other.hasFilters = false)
    (hRoute : other.route = some listing.route) (hSort : other.sortTokens? = request.sortTokens?)
    (number : UInt64) (hNumber : 0 < number.toNat) :
    (fetch listing.store listing.model other (plan.turnTo number hNumber)).result =
      .ok (pageAt request plan records number hNumber) := by
  have hValid := hShown.validate_turnTo number hNumber
  refine result_fetch_eq_ok_iff.2
    ⟨_, _, hShown.holds.findMany_eq _ hValid, hShown.holds.count_eq _ hValid, ?_⟩
  have hTake : (plan.turnTo number hNumber).args.take =
      (plan.turnTo number hNumber).window.size := hShown.take_eq
  rw [hTake, pageAt, Plan.page, Plan.page, hFilters, hShown.noFilters, hRoute, hShown.route_eq,
    hSort]
  rfl

/-- The request in a link to a page is answered with that page. -/
theorem answer_spelled (number : UInt64) (hNumber : 0 < number.toNat) :
    listing.answer { Links.spelled number plan.window.size request.sortTokens? with
        route := some listing.route } =
      .ok (pageAt request plan records number hNumber) := by
  let followed : Request := { Links.spelled number plan.window.size request.sortTokens? with
    route := some listing.route }
  have hMake := Links.value_make_spelled hShown.make_eq hShown.noFilters number hNumber
  have hValid := hShown.validate_turnTo number hNumber
  have hSort : followed.sortTokens? = request.sortTokens? := by
    show Request.tokens? (Request.tokens? (Request.tokens? request.sort)) = _
    rw [Request.tokens?_tokens?, Request.tokens?_tokens?]
    rfl
  have hFetch : (fetch listing.store listing.model followed (plan.turnTo number hNumber)).result =
      .ok (pageAt request plan records number hNumber) :=
    hShown.result_fetch_turnTo rfl rfl hSort number hNumber
  exact result_paginate_eq_ok_iff.2 ⟨_, ⟨hMake, hValid⟩, hFetch⟩

/-- The request itself is answered with the page that it asks for. -/
theorem answer_eq : listing.answer request =
    .ok (pageAt request plan records plan.window.page plan.window.page_pos) := by
  have hSelf : plan.turnTo plan.window.page plan.window.page_pos = plan := by
    rw [Plan.turnTo]
    simp only [← hShown.skip_eq]
  refine result_paginate_eq_ok_iff.2 ⟨plan, ⟨hShown.make_eq, hShown.validate_eq⟩, ?_⟩
  have hFetch := hShown.result_fetch_turnTo hShown.noFilters hShown.route_eq rfl
    plan.window.page plan.window.page_pos
  rw [hSelf] at hFetch
  exact hFetch

/-- A link to a page shows that page. -/
theorem turn?_of_read? {link : String} {number : UInt64} (hNonempty : link ≠ "")
    (hRead : Link.read? link =
      some (Links.spelled (some number) plan.window.size request.sortTokens?))
    (hNumber : 0 < number.toNat) :
    listing.turn? link = some (pageAt request plan records number hNumber) := by
  rw [turn?, if_neg hNonempty, hRead, Option.bind_some, hShown.answer_spelled number hNumber]
  rfl

section Numbered

variable (number : UInt64) (hNumber : 0 < number.toNat)

theorem links_pageAt :
    (pageAt request plan records number hNumber).links? =
      some (.make listing.route (plan.turnTo number hNumber).window (lastNumber plan records)
        request.sortTokens?) := by
  rw [pageAt, Plan.page]
  simp only [hShown.noFilters, hShown.route_eq]
  rfl

/-- The next link of a page before the last one shows the page with the next number. -/
theorem exists_turn?_next (hLt : number.toNat < (lastNumber plan records).toNat) :
    ∃ links, (pageAt request plan records number hNumber).links? = some links ∧
      ∃ hPos : 0 < (number + 1).toNat, (number + 1).toNat = number.toNat + 1 ∧
        listing.turn? links.next = some (pageAt request plan records (number + 1) hPos) := by
  have hNext : (plan.turnTo number hNumber).window.hasNext (lastNumber plan records) = true :=
    decide_eq_true hLt
  have hSucc : (number + 1).toNat = number.toNat + 1 := Window.toNat_page_add_one hNext
  have hRead := Links.read?_next hShown.plainQuery hShown.plainFragment _ _ request.sortTokens?
    hNext
  refine ⟨_, hShown.links_pageAt number hNumber, by omega, hSucc, ?_⟩
  exact hShown.turn?_of_read? (Links.next_ne_empty hNext _ _) hRead _

/-- The last page has no next link. -/
theorem exists_next_eq_empty (hLe : (lastNumber plan records).toNat ≤ number.toNat) :
    ∃ links, (pageAt request plan records number hNumber).links? = some links ∧
      links.next = "" := by
  have hNext : ¬(plan.turnTo number hNumber).window.hasNext (lastNumber plan records) = true :=
    fun h => absurd (of_decide_eq_true h) (Nat.not_lt.2 hLe)
  exact ⟨_, hShown.links_pageAt number hNumber, if_neg hNext⟩

/-- The previous link of a page after the first one shows the page before, and the next link of that
one shows the page again. -/
theorem exists_turn?_prev (hOne : 1 < number.toNat)
    (hLe : number.toNat ≤ (lastNumber plan records).toNat) :
    ∃ links before linksBefore,
      (pageAt request plan records number hNumber).links? = some links ∧
      listing.turn? links.prev = some before ∧ before.links? = some linksBefore ∧
      listing.turn? linksBefore.next = some (pageAt request plan records number hNumber) := by
  have hPrev : (plan.turnTo number hNumber).window.hasPrev = true := decide_eq_true hOne
  obtain ⟨hPred, hPos⟩ := Window.toNat_page_sub_one hPrev
  have hRead := Links.read?_prev hShown.plainQuery hShown.plainFragment _
    (lastNumber plan records) request.sortTokens? hPrev
  have hBefore := hShown.turn?_of_read? (Links.prev_ne_empty hPrev _ _ _) hRead hPos
  have hLt : (number - 1).toNat < (lastNumber plan records).toNat := by
    have hSame : (number - 1).toNat = number.toNat - 1 := hPred
    omega
  obtain ⟨linksBefore, hLinks, hBack, -, hNext⟩ := hShown.exists_turn?_next (number - 1) hPos hLt
  refine ⟨_, _, linksBefore, hShown.links_pageAt number hNumber, hBefore, hLinks, ?_⟩
  simpa only [UInt64.sub_add_cancel] using hNext

/-- A page that there is shows the records behind those of the pages before it. -/
theorem content_pageAt (hLe : number.toNat ≤ max 1 (lastNumber plan records).toNat) :
    (pageAt request plan records number hNumber).content =
      (records.drop ((number.toNat - 1) * plan.window.size.toNat)).take plan.window.size.toNat := by
  -- A page that there is begins no later than the records end, so that nothing overflows.
  have hStart : (number.toNat - 1) * plan.window.size.toNat ≤ records.length := by
    by_cases hOne : number.toNat = 1
    · rw [hOne, Nat.sub_self, Nat.zero_mul]
      exact Nat.zero_le _
    · have hBegun : number.toNat - 1 < (lastNumber plan records).toNat := by omega
      have hLt := Window.lt_totalPages_iff.1 hBegun
      rw [hShown.toNat_count] at hLt
      exact Nat.le_of_lt hLt
  have hSkip : (plan.turnTo number hNumber).window.skip.toNat =
      (number.toNat - 1) * plan.window.size.toNat :=
    Window.toNat_skip (Nat.lt_of_le_of_lt hStart hShown.holds.length_lt)
  rw [pageAt, Plan.page, hSkip]
  rfl

end Numbered

/-! ## Walks -/

/-- What is shown from the page with a number on, with so many pages after it. -/
structure Trail (listing : Listing ρ ε) (records : List ρ) (request : Request) (plan : Plan)
    (number : UInt64) (hNumber : 0 < number.toNat) (remaining : Nat) (pages : List (Page ρ)) :
    Prop where
  walk : listing.Walk (pageAt request plan records number hNumber) pages
  numbers_eq : pages.map (fun page => page.metaData.page.toNat) =
    List.range' number.toNat (remaining + 1)
  contents_eq : pages.flatMap Page.content =
    records.drop ((number.toNat - 1) * plan.window.size.toNat)
  exists_eq_pageAt : ∀ visited ∈ pages, ∃ (other : UInt64) (hOther : 0 < other.toNat),
    other.toNat ≤ max 1 (lastNumber plan records).toNat ∧
      visited = pageAt request plan records other hOther

section Numbered

variable (number : UInt64) (hNumber : 0 < number.toNat)

/-- The last page shows all records that are left. -/
theorem trail_of_last (hLast : number.toNat = max 1 (lastNumber plan records).toNat) :
    Trail listing records request plan number hNumber 0
      [pageAt request plan records number hNumber] := by
  have hLe : (lastNumber plan records).toNat ≤ number.toNat := by omega
  obtain ⟨links, hLinks, hNext⟩ := hShown.exists_next_eq_empty number hNumber hLe
  have hAll : records.length ≤ number.toNat * plan.window.size.toNat := by
    rw [← hShown.toNat_count]
    exact Window.totalPages_le_iff.1 hLe
  refine ⟨.stop hLinks hNext, rfl, ?_, ?_⟩
  · rw [List.flatMap_singleton, hShown.content_pageAt number hNumber (Nat.le_of_eq hLast)]
    refine List.take_of_length_le ?_
    rw [List.length_drop, Nat.sub_one_mul]
    omega
  · intro visited hMem
    rw [List.mem_singleton] at hMem
    exact ⟨number, hNumber, Nat.le_of_eq hLast, hMem⟩

/-- A page before the last one is followed by the page with the next number, whose records are the
next ones. -/
theorem trail_cons {remaining : Nat} {pages : List (Page ρ)} {hSucc : 0 < (number + 1).toNat}
    (hNext : (number + 1).toNat = number.toNat + 1)
    (hLt : number.toNat < (lastNumber plan records).toNat)
    (hTrail : Trail listing records request plan (number + 1) hSucc remaining pages) :
    Trail listing records request plan number hNumber (remaining + 1)
      (pageAt request plan records number hNumber :: pages) := by
  obtain ⟨links, hLinks, hPos, -, hTurn⟩ := hShown.exists_turn?_next number hNumber hLt
  have hLe : number.toNat ≤ max 1 (lastNumber plan records).toNat := by omega
  refine ⟨.step hLinks hTurn hTrail.walk, ?_, ?_, ?_⟩
  · rw [List.map_cons, hTrail.numbers_eq, hNext, List.range'_succ]
    rfl
  · have hBehind : ((number + 1).toNat - 1) * plan.window.size.toNat =
        (number.toNat - 1) * plan.window.size.toNat + plan.window.size.toNat := by
      rw [hNext, Nat.add_sub_cancel, Nat.sub_one_mul]
      have hFits := Nat.le_mul_of_pos_left plan.window.size.toNat hNumber
      omega
    rw [List.flatMap_cons, hTrail.contents_eq, hShown.content_pageAt number hNumber hLe, hBehind,
      ← List.drop_drop]
    exact List.take_append_drop _ _
  · intro visited hMem
    rcases List.mem_cons.1 hMem with rfl | hRest
    · exact ⟨number, hNumber, hLe, rfl⟩
    · exact hTrail.exists_eq_pageAt visited hRest

end Numbered

/-- From every page that there is the walk goes on to the last one. -/
theorem exists_trail (remaining : Nat) (number : UInt64) (hNumber : 0 < number.toNat)
    (hLast : number.toNat + remaining = max 1 (lastNumber plan records).toNat) :
    ∃ pages, Trail listing records request plan number hNumber remaining pages := by
  -- The pages that remain become fewer with each next link, so that the walk ends.
  induction remaining generalizing number with
  | zero => exact ⟨_, hShown.trail_of_last number hNumber hLast⟩
  | succ remaining ih =>
      have hLt : number.toNat < (lastNumber plan records).toNat := by omega
      obtain ⟨links, -, hPos, hNext, -⟩ := hShown.exists_turn?_next number hNumber hLt
      obtain ⟨pages, hTrail⟩ := ih (number + 1) hPos (by omega)
      exact ⟨_, hShown.trail_cons number hNumber hNext hLt hTrail⟩

end Shown

/-- A request that is answered has a plan whose pages are shown in turn, the answer among them. -/
theorem exists_shown_of_answer {records : List ρ} {request : Request} {page : Page ρ}
    (hHolds : listing.store.Holds listing.model records)
    (hSkip : listing.store.IgnoresSkip listing.model)
    (hFilters : request.hasFilters = false) (hRoute : request.route = some listing.route)
    (hQuery : '?' ∉ listing.route.toList) (hFragment : '#' ∉ listing.route.toList)
    (hPage : listing.answer request = .ok page) :
    ∃ plan, listing.Shown records request plan ∧
      plan.window.page = request.page.getD listing.settings.defaultPage ∧
      page = pageAt request plan records plan.window.page plan.window.page_pos := by
  obtain ⟨plan, ⟨hMake, hValid⟩, -⟩ := result_paginate_eq_ok_iff.1 hPage
  have hShown : listing.Shown records request plan :=
    ⟨hHolds, hSkip, hMake, hValid, hFilters, hRoute, hQuery, hFragment⟩
  obtain ⟨window, both, hWindow, -, hPlan⟩ := (Plan.value_make_eq_ok_iff hFilters).1 hMake
  refine ⟨plan, hShown, ?_, Except.ok.inj (hPage.symm.trans hShown.answer_eq)⟩
  rw [hPlan]
  exact (Window.make_eq_ok_iff.1 hWindow).1

/-- **Walking through all pages.** The store holds listed records, and judges a query alike wherever
its page begins, as the store of a list and the SQL store do. Then the pages that the next links show
from the first one on are those with the numbers up to the last one, in this order and with the same
size and counts, and together they show every record once, in the order of the store. Behind the
first page the previous link leads to a page whose next link leads back. -/
theorem walk_shows_all_records {records : List ρ} {request : Request} {page : Page ρ}
    (hHolds : listing.store.Holds listing.model records)
    (hSkip : listing.store.IgnoresSkip listing.model)
    (hFirst : request.page.getD listing.settings.defaultPage = 1)
    (hFilters : request.hasFilters = false) (hRoute : request.route = some listing.route)
    (hQuery : '?' ∉ listing.route.toList) (hFragment : '#' ∉ listing.route.toList)
    (hPage : listing.answer request = .ok page) :
    (∃ pages, listing.Walk page pages) ∧ ∀ pages, listing.Walk page pages →
      pages.map (fun visited => visited.metaData.page.toNat) =
        List.range' 1 (max 1 page.metaData.totalPages.toNat) ∧
      (∀ visited ∈ pages, visited.metaData.size = page.metaData.size ∧
        visited.metaData.totalPages = page.metaData.totalPages ∧
        visited.metaData.totalCount.toNat = records.length) ∧
      pages.flatMap Page.content = records ∧
      ∀ visited ∈ pages, 1 < visited.metaData.page.toNat →
        ∃ links before linksBefore, visited.links? = some links ∧
          listing.turn? links.prev = some before ∧ before.links? = some linksBefore ∧
          listing.turn? linksBefore.next = some visited := by
  obtain ⟨plan, hShown, hStart, rfl⟩ :=
    exists_shown_of_answer hHolds hSkip hFilters hRoute hQuery hFragment hPage
  have hNumber : plan.window.page.toNat = 1 := by
    rw [hStart, hFirst]
    rfl
  obtain ⟨remaining, hRemaining⟩ := Nat.exists_eq_add_of_le
    (Nat.le_max_left 1 (lastNumber plan records).toNat)
  obtain ⟨shown, hTrail⟩ := hShown.exists_trail remaining plan.window.page plan.window.page_pos
    (by omega)
  refine ⟨⟨shown, hTrail.walk⟩, ?_⟩
  intro pages hWalk
  rw [hWalk.unique hTrail.walk]
  refine ⟨?_, ?_, ?_, ?_⟩
  · have hCount : max 1 (lastNumber plan records).toNat = remaining + 1 := by omega
    rw [hTrail.numbers_eq, hNumber, ← hCount]
    rfl
  · intro visited hMem
    obtain ⟨number, hPos, -, rfl⟩ := hTrail.exists_eq_pageAt visited hMem
    exact ⟨rfl, rfl, hShown.toNat_count⟩
  · rw [hTrail.contents_eq, hNumber, Nat.sub_self, Nat.zero_mul, List.drop_zero]
  · intro visited hMem hBehind
    obtain ⟨number, hPos, hLe, rfl⟩ := hTrail.exists_eq_pageAt visited hMem
    have hOne : 1 < number.toNat := hBehind
    exact hShown.exists_turn?_prev number hPos hOne (by omega)

/-- Three records on pages of two, a size that was clamped; and three rows of a database, whose SQL
store is asked for them in the order of their names. -/
theorem walk_shows_all_of_three :
    (∃ (listing : Listing Nat Unit) (page : Page Nat) (pages : List (Page Nat)),
      listing.store = .ofList [10, 20, 30] ∧ listing.settings = { maxSize := some 2 } ∧
      listing.answer { size := some 5, route := some "/users" } = .ok page ∧
      listing.Walk page pages ∧
      pages.map (fun visited => visited.metaData.page.toNat) = [1, 2] ∧
      pages.flatMap Page.content = [10, 20, 30]) ∧
    ∃ (listing : Listing Json Sql.DbError) (page : Page Json) (pages : List (Page Json)),
      listing.store = (Sql.Database.ofRows .sqlite [[("name", .text "Ada")],
        [("name", .text "Eve")], [("name", .text "Kim")]]).store ∧
      listing.answer { size := some 2, sort := some ["name=asc"], route := some "/users" } =
        .ok page ∧
      listing.Walk page pages ∧
      pages.map (fun visited => visited.metaData.page.toNat) = [1, 2] ∧
      pages.flatMap Page.content = [.obj [("name", .str "Ada")], .obj [("name", .str "Eve")],
        .obj [("name", .str "Kim")]] := by
  constructor
  · let listing : Listing Nat Unit := {
      store := .ofList [10, 20, 30]
      settings := { maxSize := some 2 }
      model := "users"
      params := {}
      route := "/users" }
    let page : Page Nat := {
      content := [10, 20]
      metaData := { page := 1, size := 2, totalPages := 2, totalCount := 3, sort? := none }
      links? := some (.make "/users" ⟨1, 2, by decide, by decide⟩ 2 none) }
    have hPage : listing.answer { size := some 5, route := some "/users" } = .ok page := by
      unfold listing page
      rfl
    obtain ⟨⟨pages, hWalk⟩, hAll⟩ := walk_shows_all_records
      (Store.holds_ofList (by decide) "users") (Store.ignoresSkip_ofList _ "users") rfl rfl rfl
      (by decide) (by decide) hPage
    obtain ⟨hNumbers, -, hContents, -⟩ := hAll pages hWalk
    exact ⟨listing, page, pages, rfl, rfl, hPage, hWalk, hNumbers, hContents⟩
  · let rows : List Sql.Row := [[("name", .text "Ada")], [("name", .text "Eve")],
      [("name", .text "Kim")]]
    let db : Sql.Database := .ofRows .sqlite rows
    let listing : Listing Json Sql.DbError := {
      store := db.store
      settings := {}
      model := "users"
      params := {}
      route := "/users" }
    let page : Page Json := {
      content := [.obj [("name", .str "Ada")], .obj [("name", .str "Eve")]]
      metaData := {
        page := 1, size := 2, totalPages := 2, totalCount := 3, sort? := some [⟨"name", .asc⟩] }
      links? := some (.make "/users" ⟨1, 2, by decide, by decide⟩ 2 (some ["name=asc"])) }
    have hPage :
        listing.answer { size := some 2, sort := some ["name=asc"], route := some "/users" } =
          .ok page := by
      unfold listing page db rows
      rfl
    obtain ⟨⟨pages, hWalk⟩, hAll⟩ := walk_shows_all_records
      (Sql.Database.holds_store (Sql.Database.lists_ofRows .sqlite (by decide) "users"))
      (Sql.Database.ignoresSkip_store db "users") rfl rfl rfl (by decide) (by decide) hPage
    obtain ⟨hNumbers, -, hContents, -⟩ := hAll pages hWalk
    exact ⟨listing, page, pages, rfl, hPage, hWalk, hNumbers, hContents⟩

end Listing

end Paging
