import Paging.Proofs.PlanStages
import Paging.Proofs.SortTokens
import Paging.Proofs.TokenGrammar

/-!
# Requests that are compiled

`Request.Valid` says which requests can be compiled, and `Request.FirstFault` which error every
other request is refused with: that of the first thing that is wrong, in the order page, size, flat
filters, nested filters, sort tokens. What the caller passes beside the request has no part in it
(`make_fails_of_first_fault`).

A stage is described by when it succeeds and with which errors it fails (`Judges`). Stages that come
one after the other are judged together, as long as the later ones are judged alike whatever the
earlier ones give.
-/

namespace Paging

open Results (IsFirstWithout)

/-! ## Stages -/

/-- The result is there exactly if the condition holds, and is an error exactly if that error is at
fault. -/
structure Judges {ε α : Type} (valid : Prop) (fault : ε → Prop) (result : Except ε α) : Prop where
  ok_iff : (∃ a, result = .ok a) ↔ valid
  error_iff : ∀ error, result = .error error ↔ fault error

namespace Judges

variable {ε α β ι : Type} {valid valid' : Prop} {fault fault' : ε → Prop}

theorem congr {result : Except ε α} (hJudges : Judges valid fault result) (hValid : valid ↔ valid')
    (hFault : ∀ error, fault error ↔ fault' error) : Judges valid' fault' result :=
  ⟨hJudges.ok_iff.trans hValid, fun error => (hJudges.error_iff error).trans (hFault error)⟩

theorem of_ok (hValid : valid) (hNone : ∀ error, ¬fault error) (a : α) :
    Judges valid fault (.ok a : Except ε α) :=
  ⟨iff_of_true ⟨a, rfl⟩ hValid, fun error => iff_of_false nofun (hNone error)⟩

theorem of_error {error : ε} (hNot : ¬valid) (hFault : ∀ other, fault other ↔ other = error) :
    Judges valid fault (.error error : Except ε α) := by
  refine ⟨iff_of_false nofun hNot, fun other => ?_⟩
  rw [hFault, Except.error.injEq, eq_comm]

/-- A stage that leaves no notes. -/
theorem lift {result : Except ε α} (hJudges : Judges valid fault result) :
    Judges valid fault (liftM result : Outcome ε α).run.value := by
  rwa [Results.run_liftM_except]

/-- The errors of a stage come before those of the next one. -/
theorem bind {step : Outcome ε α} {rest : α → Outcome ε β}
    (hStep : Judges valid fault step.run.value)
    (hRest : ∀ a, Judges valid' fault' (rest a).run.value) :
    Judges (valid ∧ valid') (fun error => fault error ∨ valid ∧ fault' error)
      (step >>= rest).run.value := by
  constructor
  · simp only [Results.value_bind_eq_ok_iff, ← hStep.ok_iff]
    constructor
    · intro h
      obtain ⟨b, a, hFirst, hOk⟩ := h
      exact ⟨⟨a, hFirst⟩, (hRest a).ok_iff.1 ⟨b, hOk⟩⟩
    · intro h
      obtain ⟨⟨a, hFirst⟩, hValid⟩ := h
      obtain ⟨b, hOk⟩ := (hRest a).ok_iff.2 hValid
      exact ⟨b, a, hFirst, hOk⟩
  · intro error
    rw [Results.value_bind_eq_error_iff, hStep.error_iff, ← hStep.ok_iff]
    refine or_congr_right ⟨?_, ?_⟩
    · intro h
      obtain ⟨a, hFirst, hError⟩ := h
      exact ⟨⟨a, hFirst⟩, ((hRest a).error_iff error).1 hError⟩
    · intro h
      obtain ⟨⟨a, hFirst⟩, hFault⟩ := h
      exact ⟨a, hFirst, ((hRest a).error_iff error).2 hFault⟩

/-- A stage that cannot fail is not seen. -/
theorem bind_total {step : Outcome ε α} {rest : α → Outcome ε β}
    (hStep : Judges valid fault step.run.value)
    (hRest : ∀ a, ∃ b, (rest a).run.value = .ok b) :
    Judges valid fault (step >>= rest).run.value := by
  have hTotal : ∀ a, Judges True (fun _ => False) (rest a).run.value := by
    intro a
    obtain ⟨b, hOk⟩ := hRest a
    rw [hOk]
    exact of_ok trivial (fun _ => id) b
  exact (hStep.bind hTotal).congr (and_iff_left trivial) fun _ => or_iff_left And.right

theorem bind_pure {result : Except ε α} (hJudges : Judges valid fault result) (f : α → β) :
    Judges valid fault (do return f (← result)) := by
  cases result with
  | ok a =>
      refine of_ok (hJudges.ok_iff.1 ⟨a, rfl⟩) (fun error hFault => ?_) (f a)
      cases (hJudges.error_iff error).2 hFault
  | error error =>
      refine of_error (fun hValid => ?_) fun other => ?_
      · obtain ⟨a, hOk⟩ := hJudges.ok_iff.2 hValid
        cases hOk
      · rw [← hJudges.error_iff, Except.error.injEq, eq_comm]

/-- A walk over a list that fails of the first item without a property. -/
theorem of_first {p : ι → Prop} {items : List ι} {refuse : ι → ε} {result : Except ε α}
    (hOk : (∀ item ∈ items, p item) → ∃ a, result = .ok a)
    (hError : ∀ item, IsFirstWithout p items item → result = .error (refuse item)) :
    Judges (∀ item ∈ items, p item)
      (fun error => ∃ item, IsFirstWithout p items item ∧ error = refuse item) result := by
  have hNot : ∀ item, IsFirstWithout p items item → ¬∀ other ∈ items, p other := by
    intro item hFirst hAll
    obtain ⟨before, after, rfl, -, hItem⟩ := hFirst
    exact hItem (hAll item (by simp))
  rcases Results.forall_or_exists_first p items with hAll | ⟨item, hFirst⟩
  · obtain ⟨a, rfl⟩ := hOk hAll
    refine of_ok hAll (fun error h => ?_) a
    obtain ⟨item, hFirst, -⟩ := h
    exact hNot item hFirst hAll
  · obtain rfl := hError item hFirst
    refine of_error (hNot item hFirst) fun error => ⟨?_, fun hSame => ⟨item, hFirst, hSame⟩⟩
    intro h
    obtain ⟨other, hOther, rfl⟩ := h
    exact (Except.error.inj (hError other hOther)).symm

end Judges

/-! ## Tokens -/

namespace Filter

/-- The token has the parts of the grammar. -/
def IsToken (token : String) : Prop := ∃ before op after, HasParts token before op after

theorem isToken_iff {token : String} : IsToken token ↔ ∃ filter, parse token = .ok filter := by
  constructor
  · intro h
    obtain ⟨before, op, after, hParts⟩ := h
    exact ⟨_, parse_eq_ok_iff.2 ⟨before, op, after, hParts, rfl⟩⟩
  · intro h
    obtain ⟨filter, hParse⟩ := h
    obtain ⟨before, op, after, hParts, -⟩ := parse_eq_ok_iff.1 hParse
    exact ⟨before, op, after, hParts⟩

/-- Compiling succeeds for tokens, and fails of the first text that is none. -/
theorem judges_compile (mode : Mode) (tokens : List String) :
    Judges (∀ token ∈ tokens, IsToken token)
      (fun error => ∃ token, IsFirstWithout IsToken tokens token ∧ error = .invalidFilter token)
      (compile mode tokens).run.value := by
  have hRead : ∀ token, IsToken token → parse token = .ok (readD token) := by
    intro token hToken
    obtain ⟨filter, hParse⟩ := isToken_iff.1 hToken
    rw [hParse, readD_eq hParse]
  refine .of_first ?_ ?_
  · intro hTokens
    obtain ⟨clause, hOk, -⟩ :=
      @exists_compile_eq_ok mode readD tokens fun token hMem => hRead token (hTokens token hMem)
    exact ⟨clause, hOk⟩
  · intro token hFirst
    obtain ⟨before, after, rfl, hBefore, hNot⟩ := hFirst
    have hMalformed : Malformed token := fun filter hParse => hNot (isToken_iff.2 ⟨filter, hParse⟩)
    exact congrArg Logged.value (compile_of_malformed mode after
      (fun earlier hMem => hRead earlier (hBefore earlier hMem)) hMalformed)

end Filter

theorem Sort.judges_parseAll (tokens : List String) :
    Judges (∀ token ∈ tokens, IsToken token)
      (fun error => ∃ token, IsFirstWithout IsToken tokens token ∧ error = .invalidSort token)
      (parseAll tokens) :=
  .of_first exists_parseAll_eq_ok fun _ => parseAll_of_isFirstWithout

/-! ## Requests -/

namespace Request

variable (request : Request) (settings : Settings)

/-- The page that is asked for, or the default one. -/
def pageNumber : Nat := (request.page.getD settings.defaultPage).toNat

/-- The size that is asked for, or the default one, at most the greatest one allowed. -/
def pageSize : Nat :=
  let size := (request.size.getD settings.defaultSize).toNat
  settings.maxSize.elim size fun limit => min size limit.toNat

/-- What makes up a request that can be compiled. -/
structure Valid : Prop where
  page : 1 ≤ request.pageNumber settings
  size : 1 ≤ request.pageSize settings
  filter : ∀ token ∈ request.filter.getD [], Filter.IsToken token
  nestedFilter : ∀ token ∈ request.nestedFilter.getD [], Filter.IsToken token
  sort : ∀ token ∈ request.sort.getD [], Sort.IsToken token

/-- The error for the first thing that is wrong with a request. -/
inductive FirstFault : QueryError → Prop where
  | page (hPage : request.pageNumber settings < 1) :
      FirstFault (.invalidPage "page must be at least 1")
  | size (hPage : 1 ≤ request.pageNumber settings) (hSize : request.pageSize settings < 1) :
      FirstFault (.invalidPage "size must be greater than 0")
  | filter {token : String} (hPage : 1 ≤ request.pageNumber settings)
      (hSize : 1 ≤ request.pageSize settings)
      (hToken : IsFirstWithout Filter.IsToken (request.filter.getD []) token) :
      FirstFault (.invalidFilter token)
  | nestedFilter {token : String} (hPage : 1 ≤ request.pageNumber settings)
      (hSize : 1 ≤ request.pageSize settings)
      (hFilter : ∀ token ∈ request.filter.getD [], Filter.IsToken token)
      (hToken : IsFirstWithout Filter.IsToken (request.nestedFilter.getD []) token) :
      FirstFault (.invalidFilter token)
  | sort {token : String} (hPage : 1 ≤ request.pageNumber settings)
      (hSize : 1 ≤ request.pageSize settings)
      (hFilter : ∀ token ∈ request.filter.getD [], Filter.IsToken token)
      (hNested : ∀ token ∈ request.nestedFilter.getD [], Filter.IsToken token)
      (hToken : IsFirstWithout Sort.IsToken (request.sort.getD []) token) :
      FirstFault (.invalidSort token)

end Request

theorem Window.toNat_effectiveSize (request : Request) (settings : Settings) :
    (effectiveSize request settings).toNat = request.pageSize settings := by
  unfold effectiveSize Request.pageSize
  cases settings.maxSize with
  | none => rfl
  | some limit =>
      show (if limit < _ then limit else _).toNat = min _ _
      split
      · rename_i hLt
        exact (min_eq_right (UInt64.le_iff_toNat_le.1 (UInt64.le_of_lt hLt))).symm
      · rename_i hLe
        exact (min_eq_left (UInt64.le_iff_toNat_le.1 (UInt64.not_lt.1 hLe))).symm

/-- Of a page and a size that are both zero the page is reported. -/
theorem Window.judges_make (page size : UInt64) :
    Judges (1 ≤ page.toNat ∧ 1 ≤ size.toNat)
      (fun error =>
        page.toNat < 1 ∧ error = .invalidPage "page must be at least 1" ∨
        1 ≤ page.toNat ∧ size.toNat < 1 ∧ error = .invalidPage "size must be greater than 0")
      (make page size) := by
  unfold make
  split
  · rename_i hPage
    split
    · rename_i hSize
      exact .of_ok ⟨hPage, hSize⟩ (by omega) _
    · rename_i hSize
      exact .of_error (by omega) fun other => by
        constructor
        · rintro (⟨h, -⟩ | ⟨-, -, rfl⟩)
          · omega
          · rfl
        · rintro rfl
          exact .inr ⟨hPage, by omega, rfl⟩
  · rename_i hPage
    exact .of_error (by omega) fun other => by
      constructor
      · rintro (⟨-, rfl⟩ | ⟨h, -⟩)
        · rfl
        · omega
      · rintro rfl
        exact .inl ⟨by omega, rfl⟩

theorem Window.judges_resolve (request : Request) (settings : Settings) :
    Judges (1 ≤ request.pageNumber settings ∧ 1 ≤ request.pageSize settings)
      (fun error =>
        request.pageNumber settings < 1 ∧ error = .invalidPage "page must be at least 1" ∨
        1 ≤ request.pageNumber settings ∧ request.pageSize settings < 1 ∧
          error = .invalidPage "size must be greater than 0")
      (resolve request settings) := by
  rw [← toNat_effectiveSize]
  exact judges_make _ _

namespace Plan

variable {list : Option (List String)}

/-- An empty list is skipped, and so is not refused. -/
theorem judges_skip {ε α : Type} {p : String → Prop} {refuse : String → ε} (a : α) :
    Judges (∀ token ∈ [], p token)
      (fun error => ∃ token, IsFirstWithout p [] token ∧ error = refuse token)
      (.ok a : Except ε α) := by
  refine .of_first (fun _ => ⟨a, rfl⟩) fun token hFirst => ?_
  obtain ⟨before, after, hNil, -⟩ := hFirst
  simp at hNil

theorem judges_layerFilters (mode : Filter.Mode) (base : Option Json) :
    Judges (∀ token ∈ list.getD [], Filter.IsToken token)
      (fun error => ∃ token, IsFirstWithout Filter.IsToken (list.getD []) token ∧
        error = .invalidFilter token)
      (layerFilters mode list base).run.value := by
  unfold layerFilters
  cases hTokens : Request.tokens? list with
  | none =>
      rw [Request.tokens?_eq_none_iff.1 hTokens]
      exact judges_skip base
  | some tokens =>
      obtain ⟨rfl, -⟩ := Request.tokens?_eq_some_iff.1 hTokens
      exact (Filter.judges_compile mode tokens).bind_total fun clause => ⟨_, rfl⟩

theorem judges_order (base : Option Json) :
    Judges (∀ token ∈ list.getD [], Sort.IsToken token)
      (fun error => ∃ token, IsFirstWithout Sort.IsToken (list.getD []) token ∧
        error = .invalidSort token)
      (order list base) := by
  unfold order
  cases hTokens : Request.tokens? list with
  | none =>
      rw [Request.tokens?_eq_none_iff.1 hTokens]
      exact judges_skip (base, none)
  | some tokens =>
      obtain ⟨rfl, -⟩ := Request.tokens?_eq_some_iff.1 hTokens
      exact (Sort.judges_parseAll tokens).bind_pure _

/-- All stages together. What the caller passes has no part in what is judged. -/
theorem judges_make (request : Request) (params : Params) (settings : Settings) :
    Judges (request.Valid settings) (request.FirstFault settings)
      (make request params settings).run.value := by
  have hStages : Judges _ _ (make request params settings).run.value :=
    (Window.judges_resolve request settings).lift.bind fun _ =>
      (judges_layerFilters .flat params.where?).bind fun flat =>
        (judges_layerFilters .nested flat).bind fun _ =>
          (judges_order params.orderBy?).lift.bind_total fun _ => ⟨_, rfl⟩
  refine hStages.congr ⟨?_, ?_⟩ fun error => ⟨?_, ?_⟩
  · rintro ⟨⟨hPage, hSize⟩, hFilter, hNested, hSort⟩
    exact ⟨hPage, hSize, hFilter, hNested, hSort⟩
  · intro hValid
    exact ⟨⟨hValid.page, hValid.size⟩, hValid.filter, hValid.nestedFilter, hValid.sort⟩
  · rintro ((⟨hPage, rfl⟩ | ⟨hPage, hSize, rfl⟩) | ⟨⟨hPage, hSize⟩, ⟨token, hToken, rfl⟩ |
      ⟨hFilter, ⟨token, hToken, rfl⟩ | ⟨hNested, token, hToken, rfl⟩⟩⟩)
    · exact .page hPage
    · exact .size hPage hSize
    · exact .filter hPage hSize hToken
    · exact .nestedFilter hPage hSize hFilter hToken
    · exact .sort hPage hSize hFilter hNested hToken
  · intro hFault
    cases hFault with
    | page hPage => exact .inl (.inl ⟨hPage, rfl⟩)
    | size hPage hSize => exact .inl (.inr ⟨hPage, hSize, rfl⟩)
    | filter hPage hSize hToken => exact .inr ⟨⟨hPage, hSize⟩, .inl ⟨_, hToken, rfl⟩⟩
    | nestedFilter hPage hSize hFilter hToken =>
        exact .inr ⟨⟨hPage, hSize⟩, .inr ⟨hFilter, .inl ⟨_, hToken, rfl⟩⟩⟩
    | sort hPage hSize hFilter hNested hToken =>
        exact .inr ⟨⟨hPage, hSize⟩, .inr ⟨hFilter, .inr ⟨hNested, _, hToken, rfl⟩⟩⟩

/-- The window and the order that are reported do not depend on what the caller passes. -/
theorem window_and_sort_eq {request : Request} {params params' : Params} {settings : Settings}
    {plan plan' : Plan} (hPlan : (make request params settings).run.value = .ok plan)
    (hPlan' : (make request params' settings).run.value = .ok plan') :
    (plan.window, plan.sort?) = (plan'.window, plan'.sort?) := by
  obtain ⟨_, _, _, hStages⟩ := exists_stages (Results.run_eq_of_value_eq hPlan)
  obtain ⟨_, _, _, hStages'⟩ := exists_stages (Results.run_eq_of_value_eq hPlan')
  have hSort : plan.sort? = plan'.sort? := by
    rcases order_eq_ok_iff.1 hStages.order with
      ⟨hNil, -, hNone⟩ | ⟨hSome, specs, hSpecs, hSort, -⟩ <;>
      rcases order_eq_ok_iff.1 hStages'.order with
        ⟨hNil', -, hNone'⟩ | ⟨hSome', specs', hSpecs', hSort', -⟩
    · rw [hNone, hNone']
    · exact absurd hNil hSome'
    · exact absurd hNil' hSome
    · rw [hSort, hSort', Except.ok.inj (hSpecs.symm.trans hSpecs')]
  rw [Except.ok.inj (hStages.window.symm.trans hStages'.window), hSort]

/-- The size of a window is cut down already. -/
theorem resolve_window {request : Request} {settings : Settings} {window : Window}
    (hWindow : Window.resolve request settings = .ok window) :
    window.page.toNat = request.pageNumber settings ∧
      window.size.toNat = request.pageSize settings ∧
      Window.resolve { request with page := some window.page, size := some window.size } settings =
        .ok window := by
  obtain ⟨hPage, hSize⟩ := Window.make_eq_ok_iff.1 hWindow
  refine ⟨congrArg UInt64.toNat hPage, ?_, ?_⟩
  · rw [hSize, Window.toNat_effectiveSize]
  · refine Window.make_eq_ok_iff.2 ⟨rfl, ?_⟩
    rw [hSize]
    exact (Window.effectiveSize_eq rfl).symm

theorem pageSize_le {request : Request} {settings : Settings} {limit : UInt64}
    (hLimit : settings.maxSize = some limit) : request.pageSize settings ≤ limit.toNat := by
  rw [Request.pageSize, hLimit]
  exact min_le_right _ _

/-- **Compiling fails of invalid requests only.** It succeeds exactly for the valid requests, and
every other request is refused with the error for the first thing that is wrong with it; no other
error arises. What the caller passes beside the request changes neither the error nor the window and the
order that are reported. The window of a plan is within the limit and is resolved to itself. -/
theorem make_fails_of_first_fault (request : Request) (settings : Settings) :
    (∀ params,
      ((∃ plan, (make request params settings).run.value = .ok plan) ↔ request.Valid settings) ∧
      (∀ error, (make request params settings).run.value = .error error ↔
        request.FirstFault settings error) ∧
      (∀ expected found,
        (make request params settings).run.value ≠ .error (.mismatchedPrefix expected found)) ∧
      ∀ message, (make request params settings).run.value ≠ .error (.unsupported message)) ∧
    (∀ params params',
      (make request params settings).run.value.map (fun plan => (plan.window, plan.sort?)) =
        (make request params' settings).run.value.map fun plan => (plan.window, plan.sort?)) ∧
    ∀ params plan, (make request params settings).run.value = .ok plan →
      plan.window.page.toNat = request.pageNumber settings ∧
      plan.window.size.toNat = request.pageSize settings ∧
      (∀ limit, settings.maxSize = some limit → plan.window.size ≤ limit) ∧
      Window.resolve
        { request with page := some plan.window.page, size := some plan.window.size } settings =
          .ok plan.window := by
  have hJudges := fun params => judges_make request params settings
  refine ⟨fun params => ⟨(hJudges params).ok_iff, (hJudges params).error_iff, ?_, ?_⟩, ?_, ?_⟩
  · intro expected found hError
    cases ((hJudges params).error_iff _).1 hError
  · intro message hError
    cases ((hJudges params).error_iff _).1 hError
  · intro params params'
    cases hValue : (make request params settings).run.value with
    | ok plan =>
        have hValid := (hJudges params).ok_iff.1 ⟨plan, hValue⟩
        obtain ⟨plan', hValue'⟩ := (hJudges params').ok_iff.2 hValid
        rw [hValue']
        exact congrArg Except.ok (window_and_sort_eq hValue hValue')
    | error error =>
        have hFault := ((hJudges params).error_iff error).1 hValue
        rw [((hJudges params').error_iff error).2 hFault]
  · intro params plan hPlan
    obtain ⟨_, _, _, hStages⟩ := exists_stages (Results.run_eq_of_value_eq hPlan)
    obtain ⟨hPage, hSize, hAgain⟩ := resolve_window hStages.window
    refine ⟨hPage, hSize, fun limit hLimit => ?_, hAgain⟩
    rw [UInt64.le_iff_toNat_le, hSize]
    exact pageSize_le hLimit

/-- Of a malformed nested filter and a malformed sort token the filter is reported, with the second
text of its list; and a size that is cut down to the limit. -/
theorem make_fails_of_first_fault_author :
    (∀ params, (make {
        filter := some ["age>=18"], nestedFilter := some ["age<=65", "author.name", "x"],
        sort := some ["name=Asc"] } params {}).run.value =
      .error (.invalidFilter "author.name")) ∧
    ∃ plan, (make { page := some 2, size := some 50, sort := some ["name=ASC"] } {}
        { maxSize := some 10 }).run.value = .ok plan ∧
      plan.window.page.toNat = 2 ∧ plan.window.size.toNat = 10 := by
  constructor
  · intro params
    have hFilter : ∀ token ∈ ["age>=18"], Filter.IsToken token :=
      List.forall_mem_singleton.2 (Filter.isToken_iff.2 ⟨_, rfl⟩)
    have hNested : ∀ token ∈ ["age<=65"], Filter.IsToken token :=
      List.forall_mem_singleton.2 (Filter.isToken_iff.2 ⟨_, rfl⟩)
    have hNot : ¬Filter.IsToken "author.name" := by
      intro hToken
      obtain ⟨filter, hParse⟩ := Filter.isToken_iff.1 hToken
      cases (show Filter.parse "author.name" = .error _ from rfl).symm.trans hParse
    exact (((make_fails_of_first_fault _ {}).1 params).2.1 _).2
      (.nestedFilter (by decide) (by decide) hFilter ⟨["age<=65"], ["x"], rfl, hNested, hNot⟩)
  · obtain ⟨plan, hPlan⟩ : ∃ plan, (make
        { page := some 2, size := some 50, sort := some ["name=ASC"] } {}
        { maxSize := some 10 }).run.value = .ok plan := ⟨_, rfl⟩
    obtain ⟨hPage, hSize, -⟩ := (make_fails_of_first_fault _ _).2.2 {} plan hPlan
    exact ⟨plan, hPlan, hPage, hSize⟩

end Plan

end Paging
