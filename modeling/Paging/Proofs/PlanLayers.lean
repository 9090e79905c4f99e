import Paging.Proofs.PlannedColumns
import Paging.Proofs.PlanStages
import Paging.Proofs.WhereObjects

/-!
# The layers of a plan

A plan is put together from what the caller passes and what the request asks for. Conditions are
tables that are written one over the other, so that a key is looked up in the nested filters first,
then in the flat ones and in the caller's condition last (`Overlay`). What the sort tokens ask for
is put behind the caller's order. The rest is the caller's, but for an inclusion beside a selection
(`make_layers_inputs`).

The notes of a plan are told apart by what they say: at most one is about the caller's condition,
and the others come from compiling the filters and from the inclusion.
-/

namespace Paging

/-! ## Tables written over tables -/

namespace Table

variable {κ α : Type} [LT κ] [DecidableLT κ] [DecidableEq κ]

/-- The last entry that is written under a key counts. Where keys are written once, that is the one
which is found. -/
theorem find?_insertAll {entries table : Table κ α} (hNodup : entries.keys.Nodup) (key : κ) :
    (table.insertAll entries).find? key = (entries.find? key).or (table.find? key) := by
  induction entries generalizing table with
  | nil => rfl
  | cons first rest ih =>
      obtain ⟨k, value⟩ := first
      obtain ⟨hNew, hRest⟩ := List.nodup_cons.1 hNodup
      have hStep : table.insertAll ((k, value) :: rest) = (table.insert k value).insertAll rest := rfl
      rw [hStep, ih hRest, find?]
      by_cases hKey : k = key
      · subst hKey
        have hNone : Table.find? k rest = none := by
          rw [Option.eq_none_iff_forall_not_mem]
          intro other hOther
          exact hNew (find?_isSome_iff.1 (Option.isSome_of_mem hOther))
        rw [hNone, if_pos rfl, find?_insert_self]
        rfl
      · rw [if_neg hKey, find?_insert_of_ne (Ne.symm hKey)]

end Table

/-- Entries that come of writing some entries over others: the written ones are found first. -/
structure Overlay (written base entries : Table String Json) : Prop where
  find?_eq : ∀ key, entries.find? key = (written.find? key).or (base.find? key)
  sorted : base.Sorted → entries.Sorted

theorem overlay_insertAll {written : Table String Json} (hSorted : written.Sorted)
    (base : Table String Json) : Overlay written base (base.insertAll written) :=
  ⟨Table.find?_insertAll hSorted.nodup_keys, fun hBase => hBase.insertAll written⟩

theorem overlay_nil {written : Table String Json} (hSorted : written.Sorted) :
    Overlay written [] written :=
  ⟨fun _ => (Option.or_none).symm, fun _ => hSorted⟩

/-- What is written over nothing is all there is. -/
theorem Overlay.nil_left {base : Table String Json} : Overlay [] base base :=
  ⟨fun _ => rfl, id⟩

namespace Json

/-- The entries of an object; other values have none. -/
def entries : Json → Table String Json
  | .obj entries => entries
  | _ => []

/-- Whether a value is an object. -/
def isObject : Json → Bool
  | .obj _ => true
  | _ => false

end Json

/-- Whether a note says that the caller's condition gave way. -/
def Event.isWhereReplaced : Event → Bool
  | .callerWhereReplaced _ => true
  | _ => false

namespace Plan

open Paging.Filter

/-! ## Stages -/

/-- The notes for a condition that is there and is no object. -/
def replacedNotes (base : Option Json) : List Event :=
  (base.filter (!·.isObject)).toList.map .callerWhereReplaced

/-- A clause is written over the entries of the condition. A condition that is no object has none,
which is noted. -/
theorem exists_layerClause_eq (base : Option Json) {clause : Clause} (hSorted : clause.Sorted) :
    ∃ entries, layerClause base clause = ⟨replacedNotes base, .obj entries⟩ ∧
      Overlay (entriesToJson clause) (base.elim [] Json.entries) entries := by
  have hWritten : Table.Sorted (entriesToJson clause) := by
    rw [entriesToJson_eq_map, Table.Sorted, Table.keys, List.map_map]
    exact hSorted
  cases base with
  | none => exact ⟨_, rfl, overlay_nil hWritten⟩
  | some value =>
      cases value with
      | obj entries => exact ⟨_, rfl, overlay_insertAll hWritten entries⟩
      | _ => exact ⟨_, rfl, overlay_nil hWritten⟩

/-- What becomes of a condition when the filters of a list are written over it. -/
theorem exists_of_run_layerFilters {mode : Mode} {list : Option (List String)}
    {base result : Option Json} {log : List Event}
    (hRun : (layerFilters mode list base).run = ⟨log, .ok result⟩) :
    ∃ clause, (compile mode (list.getD [])).run.value = .ok clause ∧
      Overlay (entriesToJson clause) (base.elim [] Json.entries) (result.elim [] Json.entries) ∧
      log = (compile mode (list.getD [])).run.log ++
        (if list.getD [] = [] then [] else replacedNotes base) ∧
      (list.getD [] = [] → result = base) ∧
      (list.getD [] ≠ [] → ∃ entries, result = some (.obj entries)) := by
  rcases layers_of_run_layerFilters hRun with
    ⟨hNil, rfl, rfl⟩ | ⟨hSome, clause, hValue, rfl, rfl⟩
  · rw [hNil]
    exact ⟨[], rfl, .nil_left, rfl, fun _ => rfl, fun hSome => absurd rfl hSome⟩
  · obtain ⟨_, hCompiled, hSorted, -⟩ := exists_compile_eq_ok (parse_eq_readD_of_compile hValue)
    cases hValue.symm.trans hCompiled
    obtain ⟨entries, hEntries, hOverlay⟩ := exists_layerClause_eq base hSorted
    rw [hEntries, if_neg hSome]
    exact ⟨clause, hValue, hOverlay, rfl, fun hNil => absurd hNil hSome, fun _ => ⟨entries, rfl⟩⟩

/-! ## Layers -/

/-- How the filters of a request are written over a condition. `flat` and `nested` are the clauses
of the two lists of filters, `result` is what becomes of the condition. -/
structure WhereLayers (request : Request) (base : Option Json) (flat nested : Clause)
    (log : List Event) (result : Option Json) : Prop where
  /-- Without filters the condition stays as it is. -/
  unfiltered : request.filter.getD [] = [] → request.nestedFilter.getD [] = [] →
    result = base ∧ log.filter Event.isWhereReplaced = []
  /-- With filters it becomes an object, in which a key is looked up in the nested filters, then in
  the flat ones and at last in what the condition was, if that was an object. -/
  filtered : request.filter.getD [] ≠ [] ∨ request.nestedFilter.getD [] ≠ [] →
    (∃ entries, result = some (.obj entries) ∧ ∀ key, Table.find? key entries =
      (Table.find? key (entriesToJson nested)).or
        ((Table.find? key (entriesToJson flat)).or
          (Table.find? key (base.elim [] Json.entries)))) ∧
    log.filter Event.isWhereReplaced = replacedNotes base
  /-- The keys stay in order. -/
  sorted : Table.Sorted (base.elim [] Json.entries) → Table.Sorted (result.elim [] Json.entries)
  /-- All other notes are those of the two compilations. -/
  others : log.filter (!·.isWhereReplaced) =
    (compile .flat (request.filter.getD [])).run.log ++
      (compile .nested (request.nestedFilter.getD [])).run.log

/-- What a plan is made of. -/
structure Layers (request : Request) (params : Params) (settings : Settings)
    (flat nested : Clause) (log : List Event) (plan : Plan) : Prop where
  window : Window.resolve request settings = .ok plan.window
  skip : plan.args.skip = plan.window.skip
  take : plan.args.take = plan.window.take
  /-- The condition and the notes about it. A dropped inclusion is noted after them. -/
  condition : ∃ notes, WhereLayers request params.where? flat nested notes plan.args.where? ∧
    log = notes ++
      if params.select?.isSome ∧ params.include?.isSome then [.includeDropped] else []
  /-- Without sort tokens the order is the caller's and none is reported. -/
  unsorted : request.sort.getD [] = [] →
    plan.args.orderBy? = params.orderBy? ∧ plan.sort? = none
  /-- With sort tokens the specifications that are reported stand behind the caller's entries. -/
  sorted : request.sort.getD [] ≠ [] →
    ∃ specs, Sort.parseAll (request.sort.getD []) = .ok specs ∧ plan.sort? = some specs ∧
      plan.args.orderBy? =
        some (.arr (params.orderBy?.elim [] Sql.listItems ++ specs.map Sort.Spec.toJson))
  selection : plan.args.select? = params.select?
  inclusion : plan.args.include? = if params.select?.isSome then none else params.include?

/-- Compiling notes nothing but keys that are assigned again. -/
theorem isWhereReplaced_of_mem_log_compile {mode : Mode} {tokens : List String} {clause : Clause}
    (hValue : (compile mode tokens).run.value = .ok clause) :
    ∀ note ∈ (compile mode tokens).run.log, note.isWhereReplaced = false := by
  intro note hNote
  rw [log_compile (parse_eq_readD_of_compile hValue)] at hNote
  obtain ⟨key, -, rfl⟩ := List.mem_map.1 hNote
  rfl

/-- The notes of one layer are told apart by what they say. -/
theorem filter_notes {mode : Mode} {tokens : List String} {clause : Clause} {base : Option Json}
    {log : List Event} (hValue : (compile mode tokens).run.value = .ok clause)
    (hLog : log =
      (compile mode tokens).run.log ++ if tokens = [] then [] else replacedNotes base) :
    log.filter Event.isWhereReplaced = (if tokens = [] then [] else replacedNotes base) ∧
      log.filter (!·.isWhereReplaced) = (compile mode tokens).run.log := by
  have hQuiet := isWhereReplaced_of_mem_log_compile hValue
  have hReplaced : ∀ note ∈ (if tokens = [] then [] else replacedNotes base),
      note.isWhereReplaced = true := by
    intro note hNote
    split at hNote
    · cases hNote
    · obtain ⟨value, -, rfl⟩ := List.mem_map.1 hNote
      rfl
  rw [hLog, List.filter_append, List.filter_append, List.filter_eq_self.2 hReplaced,
    List.filter_eq_nil_iff.2 (by simpa using hQuiet), List.filter_eq_self.2 (by simpa using hQuiet),
    List.filter_eq_nil_iff.2 (by simpa using hReplaced), List.nil_append, List.append_nil]
  exact ⟨rfl, rfl⟩

/-- The flat filters are written over the condition and the nested ones over both. -/
theorem exists_whereLayers {request : Request} {base middle result : Option Json}
    {flatLog nestedLog : List Event}
    (hFlat : (layerFilters .flat request.filter base).run = ⟨flatLog, .ok middle⟩)
    (hNested : (layerFilters .nested request.nestedFilter middle).run = ⟨nestedLog, .ok result⟩) :
    ∃ flat nested, (compile .flat (request.filter.getD [])).run.value = .ok flat ∧
      (compile .nested (request.nestedFilter.getD [])).run.value = .ok nested ∧
      WhereLayers request base flat nested (flatLog ++ nestedLog) result := by
  obtain ⟨flat, hFlatClause, hUnder, hFlatLog, hNoFlat, hSomeFlat⟩ :=
    exists_of_run_layerFilters hFlat
  obtain ⟨nested, hNestedClause, hOver, hNestedLog, hNoNested, hSomeNested⟩ :=
    exists_of_run_layerFilters hNested
  obtain ⟨hFlatReplaced, hFlatOthers⟩ := filter_notes hFlatClause hFlatLog
  obtain ⟨hNestedReplaced, hNestedOthers⟩ := filter_notes hNestedClause hNestedLog
  have hReplaced : (flatLog ++ nestedLog).filter Event.isWhereReplaced =
      (if request.filter.getD [] = [] then [] else replacedNotes base) ++
        (if request.nestedFilter.getD [] = [] then [] else replacedNotes middle) := by
    rw [List.filter_append, hFlatReplaced, hNestedReplaced]
  have hOthers : (flatLog ++ nestedLog).filter (!·.isWhereReplaced) =
      (compile .flat (request.filter.getD [])).run.log ++
        (compile .nested (request.nestedFilter.getD [])).run.log := by
    rw [List.filter_append, hFlatOthers, hNestedOthers]
  refine ⟨flat, nested, hFlatClause, hNestedClause, ?_, ?_, hOver.sorted ∘ hUnder.sorted, hOthers⟩
  · intro hFlatNil hNestedNil
    rw [if_pos hFlatNil, if_pos hNestedNil] at hReplaced
    exact ⟨(hNoNested hNestedNil).trans (hNoFlat hFlatNil), hReplaced⟩
  · intro hSome
    have hKeys : ∀ key, Table.find? key (result.elim [] Json.entries) =
        (Table.find? key (entriesToJson nested)).or
          ((Table.find? key (entriesToJson flat)).or
            (Table.find? key (base.elim [] Json.entries))) :=
      fun key => by rw [hOver.find?_eq, hUnder.find?_eq]
    -- Once the flat filters have been written, the condition is an object and does not give way.
    have hObject : (∃ entries, result = some (.obj entries)) ∧
        (if request.filter.getD [] = [] then [] else replacedNotes base) ++
          (if request.nestedFilter.getD [] = [] then [] else replacedNotes middle) =
        replacedNotes base := by
      by_cases hFlatNil : request.filter.getD [] = []
      · have hNestedSome := hSome.resolve_left (not_not_intro hFlatNil)
        rw [if_pos hFlatNil, if_neg hNestedSome, hNoFlat hFlatNil]
        exact ⟨hSomeNested hNestedSome, rfl⟩
      · obtain ⟨entries, rfl⟩ := hSomeFlat hFlatNil
        rw [if_neg hFlatNil]
        by_cases hNestedNil : request.nestedFilter.getD [] = []
        · rw [if_pos hNestedNil, hNoNested hNestedNil, List.append_nil]
          exact ⟨⟨entries, rfl⟩, rfl⟩
        · rw [if_neg hNestedNil]
          exact ⟨hSomeNested hNestedNil, List.append_nil _⟩
    obtain ⟨⟨entries, rfl⟩, hNotes⟩ := hObject
    exact ⟨⟨entries, rfl, hKeys⟩, hReplaced.trans hNotes⟩

/-- The caller's entries come first. A value that is no array counts as one entry. -/
theorem appendOrder_eq (base : Option Json) (specs : List Sort.Spec) :
    appendOrder base specs = .arr (base.elim [] Sql.listItems ++ specs.map Sort.Spec.toJson) := by
  rcases base with _ | (_ | _ | _ | _ | _ | _) <;> rfl

/-- A plan layers what the request asks for over what the caller passes: nested filters over flat
ones over the caller's condition, the sort tokens behind the caller's order, a selection over an
inclusion. Nothing else is touched. -/
theorem make_layers_inputs {request : Request} {params : Params} {settings : Settings}
    {log : List Event} {plan : Plan}
    (hPlan : (make request params settings).run = ⟨log, .ok plan⟩) :
    ∃ flat nested, (compile .flat (request.filter.getD [])).run.value = .ok flat ∧
      (compile .nested (request.nestedFilter.getD [])).run.value = .ok nested ∧
      Layers request params settings flat nested log plan := by
  obtain ⟨middle, flatLog, nestedLog, hStages⟩ := exists_stages hPlan
  obtain ⟨flat, nested, hFlatClause, hNestedClause, hWhere⟩ :=
    exists_whereLayers hStages.flat hStages.nested
  have hLog := hStages.log_eq
  have hInclude := hStages.inclusion
  rw [remainingInclude_eq] at hLog hInclude
  refine ⟨flat, nested, hFlatClause, hNestedClause, ?_⟩
  exact {
    window := hStages.window
    skip := hStages.skip
    take := hStages.take
    condition := ⟨flatLog ++ nestedLog, hWhere, hLog⟩
    unsorted := by
      intro hNil
      rcases order_eq_ok_iff.1 hStages.order with ⟨-, hBase, hNone⟩ | ⟨hSome, -⟩
      · exact ⟨hBase, hNone⟩
      · exact absurd hNil hSome
    sorted := by
      intro hSome
      rcases order_eq_ok_iff.1 hStages.order with ⟨hNil, -⟩ | ⟨-, specs, hSpecs, hSort, hOrderBy⟩
      · exact absurd hNil hSome
      · exact ⟨specs, hSpecs, hSort, by rw [hOrderBy, appendOrder_eq]⟩
    selection := hStages.selection
    inclusion := hInclude }

/-- Three layers for `age`, two orders, and a selection beside an inclusion. -/
theorem make_layers_inputs_age :
    let request : Request := {
      filter := some ["age>=18", "id>>2"], nestedFilter := some ["age<=65"],
      sort := some ["name=asc", "age=DESC", "name=asc"] }
    let params : Params := {
      where? := some (.obj [("age", .num (.int 1)), ("name", .str "Ada")])
      include? := some (.obj [("posts", .bool true)])
      select? := some (.obj [("id", .bool true)])
      orderBy? := some (.obj [("id", .str "asc")]) }
    ∃ plan entries, (make request params {}).run = ⟨[.includeDropped], .ok plan⟩ ∧
      plan.args.where? = some (.obj entries) ∧
      Table.find? "age" entries = some (.obj [("lte", .num (.int 65))]) ∧
      Table.find? "id" entries = some (.obj [("gt", .num (.int 2))]) ∧
      Table.find? "name" entries = some (.str "Ada") ∧
      plan.sort? = some [⟨"name", .asc⟩, ⟨"age", .desc⟩] ∧
      plan.args.orderBy? = some (.arr [
        .obj [("id", .str "asc")], .obj [("name", .str "asc")], .obj [("age", .str "desc")]]) ∧
      plan.args.include? = none := by
  intro request params
  obtain ⟨plan, hPlan⟩ : ∃ plan, (make request params {}).run = ⟨[.includeDropped], .ok plan⟩ :=
    ⟨_, rfl⟩
  obtain ⟨flat, nested, hFlat, hNested, hLayers⟩ := make_layers_inputs hPlan
  let flatClause : Clause := [
    ("age", .condition (.operators [(.gte, .num (.int 18))])),
    ("id", .condition (.operators [(.gt, .num (.int 2))]))]
  let nestedClause : Clause := [("age", .condition (.operators [(.lte, .num (.int 65))]))]
  have hFlatClause : (compile .flat ["age>=18", "id>>2"]).run.value = .ok flatClause := by rfl
  have hNestedClause : (compile .nested ["age<=65"]).run.value = .ok nestedClause := by rfl
  obtain rfl : flatClause = flat := Except.ok.inj (hFlatClause.symm.trans hFlat)
  obtain rfl : nestedClause = nested := Except.ok.inj (hNestedClause.symm.trans hNested)
  obtain ⟨notes, hWhere, -⟩ := hLayers.condition
  obtain ⟨⟨entries, hEntries, hKeys⟩, -⟩ := hWhere.filtered (.inl (List.cons_ne_nil _ _))
  obtain ⟨specs, hSpecs, hSort, hOrderBy⟩ := hLayers.sorted (List.cons_ne_nil _ _)
  have hParsed : Sort.parseAll ["name=asc", "age=DESC", "name=asc"] =
      .ok [⟨"name", .asc⟩, ⟨"age", .desc⟩] := by rfl
  cases hParsed.symm.trans hSpecs
  have hAge := hKeys "age"
  have hId := hKeys "id"
  have hName := hKeys "name"
  exact ⟨plan, entries, hPlan, hEntries, hAge, hId, hName, hSort, hOrderBy, hLayers.inclusion⟩

end Plan

end Paging
