import Paging.Proofs.Navigation
import Paging.Proofs.Results

/-!
# Stages of a plan

What each stage of planning gives, and what it notes. Filters are compiled and written over the
condition, unless there are none (`layers_of_run_layerFilters`); sort tokens are read and put behind
the order, unless there are none (`order_eq_ok_iff`); of a selection and an inclusion the selection
remains (`remainingInclude_eq`). A plan is taken apart into its stages by `exists_stages`.
-/

namespace Paging.Plan

open Paging.Filter

/-- Filters leave the condition as it is, if there are none, or else their clause is written over
it. -/
theorem layers_of_run_layerFilters {mode : Mode} {list : Option (List String)}
    {base result : Option Json} {log : List Event}
    (hRun : (layerFilters mode list base).run = ⟨log, .ok result⟩) :
    (list.getD [] = [] ∧ log = [] ∧ result = base) ∨
    (list.getD [] ≠ [] ∧ ∃ clause, (compile mode (list.getD [])).run.value = .ok clause ∧
      log = (compile mode (list.getD [])).run.log ++ (layerClause base clause).log ∧
      result = some (layerClause base clause).value) := by
  unfold layerFilters at hRun
  cases hTokens : Request.tokens? list with
  | none =>
      rw [hTokens] at hRun
      cases hRun
      exact .inl ⟨Request.tokens?_eq_none_iff.1 hTokens, rfl, rfl⟩
  | some tokens =>
      obtain ⟨rfl, hSome⟩ := Request.tokens?_eq_some_iff.1 hTokens
      rw [hTokens] at hRun
      obtain ⟨_, clause, _, hCompile, hRest, hLog⟩ := Results.run_bind_eq_ok_iff.1 hRun
      obtain ⟨_, _, _, hLayer, hPure, hRestLog⟩ := Results.run_bind_eq_ok_iff.1 hRest
      rw [Results.run_liftM_logged] at hLayer
      cases hPure
      cases hLayer
      refine .inr ⟨hSome, clause, congrArg Logged.value hCompile, ?_, rfl⟩
      rw [hLog, hRestLog, List.append_nil, Option.getD_some, hCompile]

theorem layers_of_layerFilters {mode : Mode} {list : Option (List String)}
    {base result : Option Json} (hOk : (layerFilters mode list base).run.value = .ok result) :
    (list.getD [] = [] ∧ result = base) ∨
    (list.getD [] ≠ [] ∧ ∃ clause, (compile mode (list.getD [])).run.value = .ok clause ∧
      result = some (layerClause base clause).value) := by
  rcases layers_of_run_layerFilters (Results.run_eq_of_value_eq hOk) with
    ⟨hNil, -, hBase⟩ | ⟨hSome, clause, hCompile, -, hResult⟩
  · exact .inl ⟨hNil, hBase⟩
  · exact .inr ⟨hSome, clause, hCompile, hResult⟩

/-- What becomes of an order when sort tokens are put behind it. -/
theorem order_eq_ok_iff {list : Option (List String)} {base orderBy : Option Json}
    {sort : Option (List Sort.Spec)} :
    order list base = .ok (orderBy, sort) ↔
      (list.getD [] = [] ∧ orderBy = base ∧ sort = none) ∨
      (list.getD [] ≠ [] ∧ ∃ specs, Sort.parseAll (list.getD []) = .ok specs ∧ sort = some specs ∧
        orderBy = some (appendOrder base specs)) := by
  unfold order
  cases hTokens : Request.tokens? list with
  | none =>
      have hNil := Request.tokens?_eq_none_iff.1 hTokens
      constructor
      · intro hPure
        cases hPure
        exact .inl ⟨hNil, rfl, rfl⟩
      · rintro (⟨-, rfl, rfl⟩ | ⟨hSome, -⟩)
        · rfl
        · exact absurd hNil hSome
  | some tokens =>
      obtain ⟨rfl, hSome⟩ := Request.tokens?_eq_some_iff.1 hTokens
      constructor
      · intro hRun
        obtain ⟨specs, hSpecs, hPure⟩ := Results.bind_eq_ok_iff.1 hRun
        cases hPure
        exact .inr ⟨hSome, specs, hSpecs, rfl, rfl⟩
      · rintro (⟨hNil, -⟩ | ⟨-, specs, hSpecs, rfl, rfl⟩)
        · exact absurd hNil hSome
        · exact Results.bind_eq_ok_iff.2 ⟨specs, hSpecs, rfl⟩

/-- The notes about an inclusion, and what remains of it. -/
theorem remainingInclude_eq (params : Params) : remainingInclude params =
    ⟨if params.select?.isSome ∧ params.include?.isSome then [.includeDropped] else [],
      if params.select?.isSome then none else params.include?⟩ := by
  rcases params with ⟨_, _ | included, _ | selected, _⟩ <;> rfl

/-- How a plan is made: the window, the condition with the flat filters and then the nested ones
written over it, and the order. `middle` is the condition between the two kinds of filters. -/
structure Stages (request : Request) (params : Params) (settings : Settings) (log : List Event)
    (plan : Plan) (middle : Option Json) (flatLog nestedLog : List Event) : Prop where
  window : Window.resolve request settings = .ok plan.window
  flat : (layerFilters .flat request.filter params.where?).run = ⟨flatLog, .ok middle⟩
  nested :
    (layerFilters .nested request.nestedFilter middle).run = ⟨nestedLog, .ok plan.args.where?⟩
  order : order request.sort params.orderBy? = .ok (plan.args.orderBy?, plan.sort?)
  selection : plan.args.select? = params.select?
  inclusion : plan.args.include? = (remainingInclude params).value
  skip : plan.args.skip = plan.window.skip
  take : plan.args.take = plan.window.take
  log_eq : log = flatLog ++ nestedLog ++ (remainingInclude params).log

theorem exists_stages {request : Request} {params : Params} {settings : Settings} {log : List Event}
    {plan : Plan} (hPlan : (make request params settings).run = ⟨log, .ok plan⟩) :
    ∃ middle flatLog nestedLog,
      Stages request params settings log plan middle flatLog nestedLog := by
  obtain ⟨_, window, _, hWindow, hAfterWindow, hLog⟩ := Results.run_bind_eq_ok_iff.1 hPlan
  obtain ⟨flatLog, flat, _, hFlat, hAfterFlat, hLog1⟩ := Results.run_bind_eq_ok_iff.1 hAfterWindow
  obtain ⟨nestedLog, _, _, hNested, hAfterNested, hLog2⟩ := Results.run_bind_eq_ok_iff.1 hAfterFlat
  obtain ⟨_, ⟨_, _⟩, _, hOrder, hAfterOrder, hLog3⟩ := Results.run_bind_eq_ok_iff.1 hAfterNested
  obtain ⟨_, _, _, hInclude, hPure, hLog4⟩ := Results.run_bind_eq_ok_iff.1 hAfterOrder
  rw [Results.run_liftM_except] at hWindow hOrder
  rw [Results.run_liftM_logged] at hInclude
  cases hPure
  cases hInclude
  obtain ⟨rfl, hResolved⟩ := Logged.mk.inj hWindow
  obtain ⟨rfl, hOrdered⟩ := Logged.mk.inj hOrder
  refine ⟨flat, flatLog, nestedLog, hResolved, hFlat, hNested, hOrdered, rfl, rfl, rfl, rfl, ?_⟩
  simp only [hLog, hLog1, hLog2, hLog3, hLog4, List.nil_append, List.append_nil, List.append_assoc]

end Paging.Plan
