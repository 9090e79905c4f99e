import Mathlib.Data.List.Forall2
import Paging.Logged

/-!
# Results of steps that may fail

Walking a list with a function that may fail succeeds when every step does, and only then. So does
one step after another (`bind_eq_ok_iff`), whatever the steps write to the log
(`value_bind_eq_ok_iff`) and with what they write to it (`run_bind_eq_ok_iff`).
-/

namespace Paging.Results

variable {α β ε : Type}

theorem ok_bind (a : α) (f : α → Except ε β) : (Except.ok a >>= f) = f a := rfl

theorem bind_eq_ok_iff {result : Except ε α} {f : α → Except ε β} {b : β} :
    (result >>= f) = .ok b ↔ ∃ a, result = .ok a ∧ f a = .ok b := by
  cases result with
  | error e =>
      constructor
      · intro hOk
        cases hOk
      · intro h
        obtain ⟨a, hOk, -⟩ := h
        cases hOk
  | ok a =>
      rw [ok_bind]
      simp

theorem bind_eq_error_iff {result : Except ε α} {f : α → Except ε β} {error : ε} :
    (result >>= f) = .error error ↔
      result = .error error ∨ ∃ a, result = .ok a ∧ f a = .error error := by
  cases result with
  | error e => simp [bind, Except.bind]
  | ok a => simp [ok_bind]

theorem map_eq_ok_iff {result : Except ε α} {f : α → β} {b : β} :
    result.map f = .ok b ↔ ∃ a, result = .ok a ∧ f a = b := by
  cases result <;> simp [Except.map]

theorem run_eq_of_value_eq {step : Outcome ε α} {result : Except ε α}
    (hValue : step.run.value = result) : step.run = ⟨step.run.log, result⟩ := by
  rw [← hValue]

theorem value_bind_of_eq_ok {step : Outcome ε α} {f : α → Outcome ε β} {a : α}
    (hOk : step.run.value = .ok a) : (step >>= f).run.value = (f a).run.value := by
  rw [ExceptT.run_bind, Logged.bind_value, hOk]

theorem value_bind_eq_ok_iff {step : Outcome ε α} {f : α → Outcome ε β} {b : β} :
    (step >>= f).run.value = .ok b ↔
      ∃ a, step.run.value = .ok a ∧ (f a).run.value = .ok b := by
  rw [ExceptT.run_bind, Logged.bind_value]
  cases step.run.value with
  | error e => simp
  | ok a => simp

theorem value_bind_eq_error_iff {step : Outcome ε α} {f : α → Outcome ε β} {error : ε} :
    (step >>= f).run.value = .error error ↔ step.run.value = .error error ∨
      ∃ a, step.run.value = .ok a ∧ (f a).run.value = .error error := by
  rw [ExceptT.run_bind, Logged.bind_value]
  cases step.run.value with
  | error e => simp
  | ok a => simp

/-- The notes of one step come before those of the next. -/
theorem run_bind_eq_ok_iff {step : Outcome ε α} {f : α → Outcome ε β} {log : List Event} {b : β} :
    (step >>= f).run = ⟨log, .ok b⟩ ↔
      ∃ first a more, step.run = ⟨first, .ok a⟩ ∧ (f a).run = ⟨more, .ok b⟩ ∧
        log = first ++ more := by
  rw [ExceptT.run_bind]
  rcases step.run with ⟨first, error | a⟩
  · constructor
    · intro hRun
      cases hRun
    · intro h
      obtain ⟨_, _, _, hStep, -⟩ := h
      cases hStep
  · show (⟨first ++ (f a).run.log, (f a).run.value⟩ : Logged (Except ε β)) = _ ↔ _
    rcases hRest : (f a).run with ⟨more, result⟩
    constructor
    · intro hRun
      cases hRun
      exact ⟨first, a, more, rfl, hRest, rfl⟩
    · intro h
      obtain ⟨_, _, _, hStep, hOk, rfl⟩ := h
      cases hStep
      cases hRest.symm.trans hOk
      rfl

/-- A step without a log. -/
theorem run_liftM_except (result : Except ε α) :
    (liftM result : Outcome ε α).run = ⟨[], result⟩ := by
  cases result <;> rfl

/-- A step that cannot fail. -/
theorem run_liftM_logged (step : Logged α) :
    (liftM step : Outcome ε α).run = ⟨step.log, .ok step.value⟩ := by
  show Logged.mk (step.log ++ []) _ = _
  rw [List.append_nil]
  rfl

/-- Where every step succeeds, the walk gives what the steps give. -/
theorem mapM_eq_ok {f : α → Except ε β} {g : α → β} {items : List α}
    (hOk : ∀ item ∈ items, f item = .ok (g item)) : items.mapM f = .ok (items.map g) := by
  induction items with
  | nil => rfl
  | cons item rest ih =>
      have hRest := ih fun other hMem => hOk other (List.mem_cons_of_mem item hMem)
      rw [List.mapM_cons, hOk item List.mem_cons_self, ok_bind, hRest, ok_bind]
      rfl

/-- A walk gives the results of its steps, one for each item. -/
theorem mapM_eq_ok_iff {f : α → Except ε β} {r : α → β → Prop}
    (hStep : ∀ item result, f item = .ok result ↔ r item result) {items : List α}
    {results : List β} : items.mapM f = .ok results ↔ List.Forall₂ r items results := by
  induction items generalizing results with
  | nil =>
      show Except.ok [] = Except.ok results ↔ _
      rw [Except.ok.injEq, List.forall₂_nil_left_iff, eq_comm]
  | cons item rest ih =>
      rw [List.mapM_cons, bind_eq_ok_iff, List.forall₂_cons_left_iff]
      constructor
      · intro h
        obtain ⟨first, hFirst, hRest⟩ := h
        obtain ⟨others, hOthers, hPure⟩ := bind_eq_ok_iff.1 hRest
        exact ⟨first, others, (hStep _ _).1 hFirst, ih.1 hOthers, (Except.ok.inj hPure).symm⟩
      · intro h
        obtain ⟨first, others, hFirst, hOthers, rfl⟩ := h
        exact ⟨first, (hStep _ _).2 hFirst, bind_eq_ok_iff.2 ⟨others, ih.2 hOthers, rfl⟩⟩

/-- Items are related to results one by one exactly if each of them is related to one. -/
theorem exists_forall₂_iff {r : α → β → Prop} {items : List α} :
    (∃ results, List.Forall₂ r items results) ↔ ∀ item ∈ items, ∃ result, r item result := by
  induction items with
  | nil => exact iff_of_true ⟨[], .nil⟩ nofun
  | cons item rest ih =>
      rw [List.forall_mem_cons, ← ih]
      simp only [List.forall₂_cons_left_iff]
      constructor
      · intro h
        obtain ⟨-, first, others, hFirst, hOthers, rfl⟩ := h
        exact ⟨⟨first, hFirst⟩, ⟨others, hOthers⟩⟩
      · intro h
        obtain ⟨⟨first, hFirst⟩, ⟨others, hOthers⟩⟩ := h
        exact ⟨first :: others, first, others, hFirst, hOthers, rfl⟩

theorem exists_mapM_eq_ok {f : α → Except ε β} {items : List α}
    (hOk : ∀ item ∈ items, ∃ result, f item = .ok result) :
    ∃ results, items.mapM f = .ok results := by
  obtain ⟨results, hResults⟩ := exists_forall₂_iff.2 hOk
  exact ⟨results, (mapM_eq_ok_iff fun _ _ => Iff.rfl).2 hResults⟩

/-- A walk ends at the first step that fails. -/
theorem mapM_eq_error {f : α → Except ε β} {before : List α} {item : α} {error : ε}
    (hBefore : ∀ other ∈ before, ∃ result, f other = .ok result) (hError : f item = .error error)
    (after : List α) : (before ++ item :: after).mapM f = .error error := by
  obtain ⟨results, hResults⟩ := exists_mapM_eq_ok hBefore
  rw [List.mapM_append, hResults, ok_bind, List.mapM_cons, hError]
  rfl

/-- The item is the first one of the list without the property. -/
def IsFirstWithout (p : α → Prop) (items : List α) (item : α) : Prop :=
  ∃ before after, items = before ++ item :: after ∧ (∀ other ∈ before, p other) ∧ ¬p item

/-- A list has a property throughout, or has a first item without it. -/
theorem forall_or_exists_first (p : α → Prop) (items : List α) :
    (∀ item ∈ items, p item) ∨ ∃ item, IsFirstWithout p items item := by
  induction items with
  | nil => exact .inl nofun
  | cons first rest ih =>
      by_cases hFirst : p first
      · rcases ih with hRest | ⟨item, before, after, hEq, hBefore, hItem⟩
        · exact .inl (List.forall_mem_cons.2 ⟨hFirst, hRest⟩)
        · refine .inr ⟨item, first :: before, after, ?_, ?_, hItem⟩
          · rw [hEq, List.cons_append]
          · exact List.forall_mem_cons.2 ⟨hFirst, hBefore⟩
      · exact .inr ⟨first, [], rest, rfl, nofun, hFirst⟩

theorem toOption_eq_some_iff {result : Except ε α} {a : α} :
    result.toOption = some a ↔ result = .ok a := by
  cases result with
  | error e =>
      constructor
      · intro hSome
        cases hSome
      · intro hOk
        cases hOk
  | ok b =>
      constructor
      · intro hSome
        rw [Option.some.inj hSome]
      · intro hOk
        rw [Except.ok.inj hOk]
        rfl

theorem toOption_bind (result : Except ε α) (f : α → Except ε β) :
    (result >>= f).toOption = result.toOption.bind fun a => (f a).toOption := by
  cases result <;> rfl

theorem toOption_bind_pure (result : Except ε α) (f : α → β) :
    (do return f (← result) : Except ε β).toOption = result.toOption.map f := by
  cases result <;> rfl

theorem toOption_map (result : Except ε α) (f : α → β) :
    (result.map f).toOption = result.toOption.map f := by
  cases result <;> rfl

theorem isSome_toOption (result : Except ε α) : result.toOption.isSome = result.isOk := by
  cases result <;> rfl

/-- What is lost with the errors is only which one it was. -/
theorem toOption_mapM (f : α → Except ε β) (items : List α) :
    (items.mapM f).toOption = items.mapM fun item => (f item).toOption := by
  induction items with
  | nil => rfl
  | cons item rest ih =>
      rw [List.mapM_cons, List.mapM_cons, ← ih]
      cases f item with
      | error e => rfl
      | ok result =>
          rw [ok_bind]
          cases rest.mapM f <;> rfl

/-- A list is made of its first item and the others, whatever is made of them afterwards. -/
theorem toOption_map_cons {γ : Type} {g : α → γ} {first : Except ε α} {first' : Except ε γ}
    {rest : Except ε (List α)} {rest' : Except ε (List γ)}
    (hFirst : first'.toOption = first.toOption.map g)
    (hRest : rest'.toOption = rest.toOption.map (List.map g)) :
    (do return (← first') :: (← rest') : Except ε (List γ)).toOption =
      (do return (← first) :: (← rest) : Except ε (List α)).toOption.map (List.map g) := by
  rw [toOption_bind, toOption_bind, hFirst]
  cases first with
  | error e => rfl
  | ok a =>
      show (rest' >>= fun others => pure (g a :: others)).toOption = _
      rw [toOption_bind, hRest]
      cases rest <;> rfl

theorem mapM_cons_eq_some_iff {f : α → Option β} {item : α} {rest : List α} {results : List β} :
    (item :: rest).mapM f = some results ↔
      ∃ first others, f item = some first ∧ rest.mapM f = some others ∧
        results = first :: others := by
  rw [List.mapM_cons]
  cases f item with
  | none => simp
  | some first =>
      cases rest.mapM f with
      | none => simp
      | some others => simp [eq_comm]

/-- A walk has given results exactly if its items are what leads to them. -/
theorem mapM_eq_some_iff {f : α → Option β} {g : β → α} {items : List α} {results : List β}
    (hInverse : ∀ item, ∀ result ∈ results, f item = some result ↔ item = g result) :
    items.mapM f = some results ↔ items = results.map g := by
  induction items generalizing results with
  | nil => cases results <;> simp
  | cons item items ih =>
      rw [mapM_cons_eq_some_iff]
      cases results with
      | nil => simp
      | cons first others =>
          have hFirst := hInverse item first List.mem_cons_self
          have hOthers := ih fun item result hMem =>
            hInverse item result (List.mem_cons_of_mem first hMem)
          rw [List.map_cons, List.cons.injEq, ← hFirst, ← hOthers]
          constructor
          · intro h
            obtain ⟨_, _, hItem, hItems, hEq⟩ := h
            cases hEq
            exact ⟨hItem, hItems⟩
          · intro h
            exact ⟨first, others, h.1, h.2, rfl⟩

/-- A walk succeeds exactly when every step does. -/
theorem exists_mapM_eq_some_iff {f : α → Option β} {items : List α} :
    (∃ results, items.mapM f = some results) ↔ ∀ item ∈ items, ∃ result, f item = some result := by
  induction items with
  | nil => exact ⟨fun _ item hMem => by simp at hMem, fun _ => ⟨[], rfl⟩⟩
  | cons item rest ih =>
      rw [List.forall_mem_cons, ← ih]
      constructor
      · intro h
        obtain ⟨results, hSome⟩ := h
        obtain ⟨first, others, hFirst, hOthers, -⟩ := mapM_cons_eq_some_iff.1 hSome
        exact ⟨⟨first, hFirst⟩, ⟨others, hOthers⟩⟩
      · intro h
        obtain ⟨⟨first, hFirst⟩, ⟨others, hOthers⟩⟩ := h
        exact ⟨first :: others, mapM_cons_eq_some_iff.2 ⟨first, others, hFirst, hOthers, rfl⟩⟩

/-- A walk gives what its steps give, and nothing else. -/
theorem mem_of_mapM_eq_some {f : α → Option β} {items : List α} {results : List β}
    (hSome : items.mapM f = some results) {result : β} :
    result ∈ results ↔ ∃ item ∈ items, f item = some result := by
  induction items generalizing results with
  | nil =>
      cases hSome
      simp
  | cons item rest ih =>
      obtain ⟨first, others, hFirst, hOthers, rfl⟩ := mapM_cons_eq_some_iff.1 hSome
      have hResult : result = first ↔ f item = some result := by
        rw [hFirst, Option.some.injEq, eq_comm]
      rw [List.mem_cons, ih hOthers, hResult]
      simp only [List.mem_cons, exists_eq_or_imp]

/-- What is made of the results of a walk is made of its items, if this is so for each of them. -/
theorem flatMap_of_mapM_eq_some {γ : Type} {f : α → Option β} {g : β → List γ} {h : α → List γ}
    {items : List α} {results : List β} (hSome : items.mapM f = some results)
    (hEach : ∀ item result, f item = some result → g result = h item) :
    results.flatMap g = items.flatMap h := by
  induction items generalizing results with
  | nil =>
      cases hSome
      rfl
  | cons item rest ih =>
      obtain ⟨first, others, hFirst, hOthers, rfl⟩ := mapM_cons_eq_some_iff.1 hSome
      rw [List.flatMap_cons, List.flatMap_cons, ih hOthers, hEach item first hFirst]

theorem flatMap_of_mapM_eq_ok {γ : Type} {f : α → Except ε β} {g : β → List γ} {h : α → List γ}
    {items : List α} {results : List β} (hOk : items.mapM f = .ok results)
    (hEach : ∀ item result, f item = .ok result → g result = h item) :
    results.flatMap g = items.flatMap h := by
  have hSome := toOption_eq_some_iff.2 hOk
  rw [toOption_mapM] at hSome
  exact flatMap_of_mapM_eq_some hSome fun item result hItem =>
    hEach item result (toOption_eq_some_iff.1 hItem)

theorem mem_of_mapM_eq_ok {f : α → Except ε β} {items : List α} {results : List β}
    (hOk : items.mapM f = .ok results) {result : β} :
    result ∈ results ↔ ∃ item ∈ items, f item = .ok result := by
  have hSome := toOption_eq_some_iff.2 hOk
  rw [toOption_mapM] at hSome
  rw [mem_of_mapM_eq_some hSome]
  simp only [toOption_eq_some_iff]

theorem exists_of_mapM_eq_ok {f : α → Except ε β} {items : List α} {results : List β}
    (hOk : items.mapM f = .ok results) {item : α} (hMem : item ∈ items) :
    ∃ result ∈ results, f item = .ok result := by
  have hSome := toOption_eq_some_iff.2 hOk
  rw [toOption_mapM] at hSome
  obtain ⟨result, hResult⟩ := exists_mapM_eq_some_iff.1 ⟨results, hSome⟩ item hMem
  have hItem := toOption_eq_some_iff.1 hResult
  exact ⟨result, (mem_of_mapM_eq_ok hOk).2 ⟨item, hMem, hItem⟩, hItem⟩

/-- A walk that carries something along succeeds only if the step that may fail succeeds for every
item. -/
theorem exists_of_foldlM_eq_ok {γ : Type} {f : α → Except ε β} {g : γ → α → β → γ} {items : List α}
    {start result : γ}
    (hOk : items.foldlM (fun carried item => do return g carried item (← f item)) start =
      .ok result) : ∀ item ∈ items, ∃ b, f item = .ok b := by
  induction items generalizing start with
  | nil => simp
  | cons first rest ih =>
      rw [List.foldlM_cons, bind_eq_ok_iff] at hOk
      obtain ⟨carried, hFirst, hRest⟩ := hOk
      obtain ⟨b, hB, -⟩ := bind_eq_ok_iff.1 hFirst
      exact List.forall_mem_cons.2 ⟨⟨b, hB⟩, ih hRest⟩

theorem mapM_congr {f g : α → Option β} {items : List α} (hSame : ∀ item ∈ items, f item = g item) :
    items.mapM f = items.mapM g := by
  induction items with
  | nil => rfl
  | cons item rest ih =>
      rw [List.mapM_cons, List.mapM_cons, hSame item List.mem_cons_self,
        ih fun other hMem => hSame other (List.mem_cons_of_mem item hMem)]

theorem mapM_map_eq {γ : Type} (f : α → Option β) (g : β → γ) (items : List α) :
    (items.mapM fun item => (f item).map g) = (items.mapM f).map (List.map g) := by
  induction items with
  | nil => rfl
  | cons item rest ih =>
      rw [List.mapM_cons, List.mapM_cons, ih]
      cases f item with
      | none => rfl
      | some result => cases rest.mapM f <;> rfl

/-- Walking lists one after the other is walking them in one. -/
theorem mapM_flatMap {γ : Type} (f : β → Option γ) (parts : α → List β) (items : List α) :
    (items.flatMap parts).mapM f =
      (items.mapM fun item => (parts item).mapM f).map List.flatten := by
  induction items with
  | nil => rfl
  | cons item rest ih =>
      rw [List.flatMap_cons, List.mapM_append, ih, List.mapM_cons]
      cases (parts item).mapM f with
      | none => rfl
      | some results => cases (rest.mapM fun item => (parts item).mapM f) <;> rfl

end Paging.Results
