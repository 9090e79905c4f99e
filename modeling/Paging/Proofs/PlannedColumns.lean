import Paging.Proofs.Columns
import Paging.Proofs.Operands
import Paging.Proofs.PlanStages
import Paging.Proofs.TopKeys
import Paging.Sql.Store

/-!
# The columns of a planned query

The where-object of a plan is made of the filters that the request asks for, entry by entry
(`MadeOf`): each entry is that of a unit of filters, and nested filters are written over flat ones.
So a query that the SQL store accepts constrains the columns that the filters name, unless one of
the filters stands under a key that joins objects (`Database.columns_of_validate`).
-/

namespace Paging.Filter

open Paging.Keyed Paging.Sql

/-! ## Units -/

namespace Clause

/-- A path through a relation asks for related records. -/
theorem exists_ofPath_eq (relation : String) (relations : List String) (name : String)
    (leaf : Condition) :
    ∃ node, ofPath (relation :: (relations ++ [name])) leaf = .single relation node ∧
      node.Sound ∧ ∀ other, node ≠ .condition other := by
  cases relations with
  | nil => exact ⟨.related [(name, .condition leaf)], rfl, List.cons_ne_nil _ _, nofun⟩
  | cons next rest =>
      refine ⟨.related (ofPath (next :: (rest ++ [name])) leaf), rfl, ?_, nofun⟩
      cases rest <;> exact List.cons_ne_nil _ _

/-- So do several clauses below a chain of relations. -/
theorem exists_wrap?_all_eq (relation : String) (relations : List String) (clauses : List Clause) :
    ∃ node, wrap? (relation :: relations) (.all clauses) = some (.single relation node) ∧
      node.Sound ∧ ∀ other, node ≠ .condition other := by
  cases relations with
  | nil => exact ⟨.relatedAll clauses, rfl, trivial, nofun⟩
  | cons next rest =>
      obtain ⟨node, hNode⟩ := wrap?_cons next rest (.all clauses)
      refine ⟨.related (single next node), ?_, List.cons_ne_nil _ _, nofun⟩
      rw [wrap?, hNode]
      · rfl
      · simp

end Clause

section Reading

variable {mode : Mode} {read : String → Filter} {tokens : List String}

theorem comparisons_mergedCondition_ne_nil (first : Filter) (rest : List Filter) :
    (mergedCondition first rest).comparisons ≠ [] := by
  have hKey : first.operator ∈ (lastsBy Filter.operator (first :: rest)).map Filter.operator :=
    mem_keys_lastsBy.2 List.mem_cons_self
  obtain ⟨last, hLast, -⟩ := List.mem_map.1 hKey
  exact List.ne_nil_of_mem (mem_comparisons_mergedCondition.2 ⟨last, hLast, rfl⟩)

/-- The entry of a unit is sound, and if it is a condition, then it stands under the field of one of
the tokens. -/
theorem sound_of_mem_unitClause (hRead : ∀ token ∈ tokens, parse token = .ok (read token))
    {unit : List Filter} (hMem : unit ∈ units mode read tokens) {entry : String × Node}
    (hEntry : entry ∈ unitClause mode unit) :
    entry.2.Sound ∧
      ∀ leaf, entry.2 = .condition leaf → ∃ token ∈ tokens, (read token).field = entry.1 := by
  obtain ⟨key, hUnit, -⟩ := exists_isUnit_of_mem hMem
  obtain ⟨first, rest, rfl, hFirst⟩ := hUnit.exists_cons
  cases key with
  | field path =>
      rw [unitClause_of_field hFirst] at hEntry
      rw [List.mem_singleton.1 hEntry]
      refine ⟨⟨comparisons_mergedCondition_ne_nil first rest,
        isLiteral_of_mem_mergedCondition hRead hMem⟩, ?_⟩
      intro leaf hLeaf
      obtain ⟨token, hToken, rfl⟩ := exists_token_of_mem_unit hMem List.mem_cons_self
      exact ⟨token, hToken, (Key.field_of_field hFirst).1⟩
  | below relations =>
      obtain ⟨-, hNe, name, hSegments⟩ := Key.segments_of_below hFirst
      obtain ⟨relation, relations, rfl⟩ := List.exists_cons_of_ne_nil hNe
      cases rest with
      | nil =>
          rw [unitClause_alone hFirst, hSegments] at hEntry
          obtain ⟨node, hPath, hSound, hLeaf⟩ :=
            Clause.exists_ofPath_eq relation relations name first.condition
          rw [List.cons_append, hPath] at hEntry
          rw [List.mem_singleton.1 hEntry]
          exact ⟨hSound, fun leaf h => absurd h (hLeaf leaf)⟩
      | cons next rest =>
          obtain ⟨node, hWrap, hSound, hLeaf⟩ := Clause.exists_wrap?_all_eq relation relations
            ((first :: next :: rest).map fun filter =>
              .expand (segments filter.field) filter.condition (relation :: relations).length)
          rw [unitClause_below hFirst, clauseBelow, hWrap] at hEntry
          rw [List.mem_singleton.1 hEntry]
          exact ⟨hSound, fun leaf h => absurd h (hLeaf leaf)⟩

end Reading

/-! ## Filters that are given -/

/-- A filter, and how the dots of its field are read. -/
structure Given where
  mode : Mode
  filter : Filter

/-- The key under which the filter stands in a where-object. -/
def Given.topKey (given : Given) : String := Filter.topKey given.mode [given.filter]

/-- The filters of a list of tokens, as far as they can be read. -/
def readable (mode : Mode) (list : Option (List String)) : List Given :=
  (list.getD []).filterMap fun token => (parse token).toOption.map (⟨mode, ·⟩)

theorem mem_readable_iff {mode : Mode} {read : String → Filter} {tokens : List String}
    (hRead : ∀ token ∈ tokens, parse token = .ok (read token)) {given : Given} :
    given ∈ readable mode (some tokens) ↔ ∃ token ∈ tokens, ⟨mode, read token⟩ = given := by
  rw [readable, Option.getD_some, List.mem_filterMap]
  refine exists_congr fun token => and_congr_right fun hMem => ?_
  rw [hRead token hMem]
  exact Option.some_inj

/-! ## Where-objects -/

/-- An entry that is made of filters is that of a sound node, and a condition stands under the field
of a filter. -/
def IsEntryOf (filters : List Given) (entry : String × Json) : Prop :=
  ∃ node : Node, node.toJson = entry.2 ∧ node.Sound ∧
    ∀ leaf, node = .condition leaf → ∃ given ∈ filters, given.filter.field = entry.1

theorem IsEntryOf.mono {filters more : List Given} (hMore : ∀ given ∈ filters, given ∈ more)
    {entry : String × Json} (hEntry : IsEntryOf filters entry) : IsEntryOf more entry := by
  obtain ⟨node, hJson, hSound, hLeaf⟩ := hEntry
  refine ⟨node, hJson, hSound, ?_⟩
  intro leaf hNode
  obtain ⟨given, hGiven, hField⟩ := hLeaf leaf hNode
  exact ⟨given, hMore given hGiven, hField⟩

/-- A where-object that is made of filters. -/
structure MadeOf (filters : List Given) (entries : List (String × Json)) : Prop where
  isEntryOf : ∀ entry ∈ entries, IsEntryOf filters entry
  mem_keys_iff : ∀ key, key ∈ entries.map Prod.fst ↔ ∃ given ∈ filters, given.topKey = key

theorem madeOf_compile {mode : Mode} {tokens : List String} {clause : Clause}
    (hOk : (compile mode tokens).run.value = .ok clause) :
    MadeOf (readable mode (some tokens)) (entriesToJson clause) := by
  have hRead := parse_eq_readD_of_compile hOk
  obtain ⟨compiled, hCompiled, -, hEntries⟩ := @exists_compile_eq_ok mode readD tokens hRead
  cases hOk.symm.trans hCompiled
  rw [entriesToJson_eq_map]
  constructor
  · intro entry hMem
    obtain ⟨⟨key, node⟩, hEntry, rfl⟩ := List.mem_map.1 hMem
    obtain ⟨unit, hLast, hUnit⟩ := (hEntries _).1 hEntry
    obtain ⟨hSound, hLeaf⟩ := sound_of_mem_unitClause hRead (mem_of_mem_lastsBy hLast) hUnit
    refine ⟨node, rfl, hSound, ?_⟩
    intro leaf hNode
    obtain ⟨token, hToken, hField⟩ := hLeaf leaf hNode
    exact ⟨_, (mem_readable_iff hRead).2 ⟨token, hToken, rfl⟩, hField⟩
  · intro key
    have hSame : (clause.map fun entry => (entry.1, entry.2.toJson)).map Prod.fst =
        clause.map Prod.fst := by
      rw [List.map_map]
      rfl
    rw [hSame, ← Table.keys, mem_keys_iff_of_mem_iff hEntries, mem_topKeys_units_iff]
    constructor
    · intro h
      obtain ⟨token, hToken, hKey⟩ := h
      exact ⟨_, (mem_readable_iff hRead).2 ⟨token, hToken, rfl⟩, hKey⟩
    · intro h
      obtain ⟨given, hGiven, hKey⟩ := h
      obtain ⟨token, hToken, rfl⟩ := (mem_readable_iff hRead).1 hGiven
      exact ⟨token, hToken, hKey⟩

/-- Writing one where-object over another. -/
theorem MadeOf.insertAll {filters more : List Given} {entries written : List (String × Json)}
    (hBase : MadeOf filters entries) (hWritten : MadeOf more written) :
    MadeOf (filters ++ more) (Table.insertAll written entries) := by
  constructor
  · intro entry hMem
    rcases Table.mem_or_mem_of_mem_insertAll hMem with hNew | hOld
    · exact (hWritten.isEntryOf entry hNew).mono fun _ => List.mem_append_right filters
    · exact (hBase.isEntryOf entry hOld).mono fun _ => List.mem_append_left more
  · intro key
    have hKeys : key ∈ (Table.insertAll written entries).map Prod.fst ↔
        key ∈ written.map Prod.fst ∨ key ∈ entries.map Prod.fst :=
      Table.mem_keys_insertAll
    rw [hKeys, hWritten.mem_keys_iff, hBase.mem_keys_iff, or_comm]
    simp only [List.mem_append, or_and_right, exists_or]

/-- The condition of a plan is absent, or an object made of filters. -/
def WhereMadeOf (filters : List Given) (where? : Option Json) : Prop :=
  (where? = none ∧ filters = []) ∨ ∃ entries, where? = some (.obj entries) ∧ MadeOf filters entries

theorem whereMadeOf_layerFilters {mode : Mode} {list : Option (List String)}
    {filters : List Given} {base result : Option Json} (hBase : WhereMadeOf filters base)
    (hOk : (Plan.layerFilters mode list base).run.value = .ok result) :
    WhereMadeOf (filters ++ readable mode list) result := by
  rcases Plan.layers_of_layerFilters hOk with ⟨hNil, rfl⟩ | ⟨-, clause, hCompile, rfl⟩
  · rw [readable, hNil, List.filterMap_nil, List.append_nil]
    exact hBase
  · have hMade : MadeOf (readable mode list) (entriesToJson clause) := madeOf_compile hCompile
    rcases hBase with ⟨rfl, rfl⟩ | ⟨entries, rfl, hEntries⟩
    · exact .inr ⟨_, rfl, hMade⟩
    · exact .inr ⟨_, rfl, hEntries.insertAll hMade⟩

/-! ## Columns of where-objects -/

/-- Filters name the columns that are their fields. -/
def Names (filters : List Given) (column : String) : Prop :=
  ∃ given ∈ filters, given.filter.field = column

/-- A filter stands under a key that joins objects. -/
def Joins (filters : List Given) : Prop := ∃ given ∈ filters, given.topKey ∈ ["AND", "OR", "NOT"]

/-- **The columns of a where-object.** The condition of a where-object mentions columns that the
filters name. Where a filter stands under a key that joins objects, it also mentions reserved
columns, and only there. -/
theorem MadeOf.columns {filters : List Given} {entries : List (String × Json)}
    (hMade : MadeOf filters entries) {condition : Sql.Condition}
    (hOk : filterCondition (.obj entries) = .ok condition) :
    (∀ column ∈ condition.columns,
      Names filters column ∨ (column ∈ reservedColumns ∧ Joins filters)) ∧
    (Joins filters → ∃ column ∈ condition.columns, column ∈ reservedColumns) := by
  obtain ⟨conditions, hConditions, hEq⟩ := Results.bind_eq_ok_iff.1 hOk
  have hColumns : ∀ column, column ∈ condition.columns ↔
      ∃ entry ∈ entries, ∃ inner, entryCondition entry = .ok inner ∧ column ∈ inner.columns := by
    intro column
    rw [← mem_columns_entryConditions hConditions, ← Except.ok.inj hEq]
    exact Iff.of_eq (congrArg (column ∈ ·) (Joint.columns_join .all conditions))
  constructor
  · intro column hMem
    obtain ⟨⟨key, _⟩, hEntry, inner, hInner, hMention⟩ := (hColumns column).1 hMem
    obtain ⟨node, rfl, hSound, hLeaf⟩ := hMade.isEntryOf _ hEntry
    -- How the node is read depends on nothing but its key.
    by_cases hJoint : key ∈ ["AND", "OR", "NOT"]
    · obtain ⟨given, hGiven, hTop⟩ := (hMade.mem_keys_iff key).1 (List.mem_map_of_mem hEntry)
      exact .inr ⟨(Node.reserved_of_entryCondition hSound hJoint hInner).2 column hMention,
        given, hGiven, hTop ▸ hJoint⟩
    · rw [entryCondition, Joint.ofKey?_eq_none hJoint] at hInner
      obtain ⟨⟨leaf, hNode⟩, hOnly⟩ := Node.columns_of_columnCondition hSound hInner
      obtain ⟨given, hGiven, hField⟩ := hLeaf leaf hNode
      exact .inl ⟨given, hGiven, hField.trans ((hOnly column).1 hMention).symm⟩
  · intro hJoins
    obtain ⟨given, hGiven, hJoint⟩ := hJoins
    obtain ⟨⟨key, _⟩, hEntry, hKey⟩ :=
      List.mem_map.1 ((hMade.mem_keys_iff given.topKey).2 ⟨given, hGiven, rfl⟩)
    obtain ⟨node, rfl, hSound, -⟩ := hMade.isEntryOf _ hEntry
    rw [entryConditions_eq_mapM] at hConditions
    obtain ⟨inner, -, hInner⟩ := Results.exists_of_mapM_eq_ok hConditions hEntry
    have hReservedKey : key ∈ ["AND", "OR", "NOT"] := by
      rw [show key = given.topKey from hKey]
      exact hJoint
    obtain ⟨hSome, hReserved⟩ := Node.reserved_of_entryCondition hSound hReservedKey hInner
    obtain ⟨column, hMention⟩ := List.exists_mem_of_ne_nil _ hSome
    exact ⟨column, (hColumns column).2 ⟨_, hEntry, inner, hInner, hMention⟩,
      hReserved column hMention⟩

end Paging.Filter

namespace Paging

open Paging.Filter

/-! ## Columns of statements -/

/-- The filters that a request asks for, as far as its tokens can be read. -/
def Request.given (request : Request) : List Given :=
  readable .flat request.filter ++ readable .nested request.nestedFilter

section Planned

variable {request : Request} {params : Params} {settings : Settings} {plan : Plan}

/-- The condition of a plan is the caller's, with the flat filters written over it and then the
nested ones. -/
theorem Plan.exists_layers_of_make (hPlan : (make request params settings).run.value = .ok plan) :
    ∃ flat, (layerFilters .flat request.filter params.where?).run.value = .ok flat ∧
      (layerFilters .nested request.nestedFilter flat).run.value = .ok plan.args.where? := by
  obtain ⟨flat, _, _, hStages⟩ := exists_stages (Results.run_eq_of_value_eq hPlan)
  exact ⟨flat, congrArg Logged.value hStages.flat, congrArg Logged.value hStages.nested⟩

/-- The condition of a plan is made of the filters that the request asks for, if the caller has
none. -/
theorem Plan.whereMadeOf (hPlan : (make request params settings).run.value = .ok plan)
    (hWhere : params.where? = none) : WhereMadeOf request.given plan.args.where? := by
  obtain ⟨flat, hFlat, hNested⟩ := exists_layers_of_make hPlan
  have hBase : WhereMadeOf [] params.where? := .inl ⟨hWhere, rfl⟩
  exact whereMadeOf_layerFilters (whereMadeOf_layerFilters hBase hFlat) hNested

end Planned

namespace Sql

/-- The columns that the condition of a statement mentions. -/
def whereColumns : Option Condition → List String
  | none => []
  | some condition => condition.columns

/-- The SQL store judges a query by compiling it. -/
theorem Database.value_validate (db : Database) (model : String) (args : Args) :
    (db.store.validate model args).run.value =
      (Select.ofArgs model args).run.value.map fun _ => () := by
  show (discard (Select.ofArgs model args)).run.value = _
  rcases Select.ofArgs model args with ⟨log, error | select⟩ <;> rfl

theorem exists_select_of_validate {db : Database} {model : String} {args : Args}
    (hValid : (db.store.validate model args).run.value = .ok ()) :
    ∃ select, (Select.ofArgs model args).run.value = .ok select ∧
      whereCondition args.where? = .ok select.where? := by
  rw [Database.value_validate, Results.map_eq_ok_iff] at hValid
  obtain ⟨select, hSelect, -⟩ := hValid
  exact ⟨select, hSelect, (Select.of_ofArgs_eq_ok hSelect).1⟩

/-- A query that the store accepts compiles into two statements with one condition. -/
theorem Database.exists_queries_of_validate {db : Database} {model : String} {args : Args}
    (hValid : (db.store.validate model args).run.value = .ok ()) :
    ∃ select count, (Select.ofArgs model args).run.value = .ok select ∧
      Count.ofFilter model args.where? = .ok count ∧ count.where? = select.where? := by
  obtain ⟨select, hSelect, hWhere⟩ := exists_select_of_validate hValid
  refine ⟨select, { model, where? := select.where? }, hSelect, ?_, rfl⟩
  rw [Count.ofFilter, hWhere]
  rfl

/-- **The columns of an accepted query.** If the caller sets no condition, then the two statements
of a query that the store accepts have one condition, and it mentions columns that the filters
name. Where a filter stands under a key that joins objects, it mentions reserved columns as well,
and only there. -/
theorem Database.columns_of_validate {db : Database} {model : String} {request : Request}
    {params : Params} {settings : Settings} {plan : Plan}
    (hPlan : (Plan.make request params settings).run.value = .ok plan)
    (hWhere : params.where? = none)
    (hValid : (db.store.validate model plan.args).run.value = .ok ()) :
    ∃ select count, (Select.ofArgs model plan.args).run.value = .ok select ∧
      Count.ofFilter model plan.args.where? = .ok count ∧ count.where? = select.where? ∧
      (∀ column ∈ whereColumns select.where?, Names request.given column ∨
        (column ∈ reservedColumns ∧ Joins request.given)) ∧
      (Joins request.given → ∃ column ∈ whereColumns select.where?, column ∈ reservedColumns) := by
  obtain ⟨select, hSelect, hCondition⟩ := exists_select_of_validate hValid
  have hCount : Count.ofFilter model plan.args.where? = .ok { model, where? := select.where? } := by
    rw [Count.ofFilter, hCondition]
    rfl
  refine ⟨select, _, hSelect, hCount, rfl, ?_⟩
  rcases Plan.whereMadeOf hPlan hWhere with ⟨hNone, hGiven⟩ | ⟨entries, hSome, hMade⟩
  · rw [hNone] at hCondition
    rw [← Except.ok.inj hCondition, hGiven]
    exact ⟨nofun, nofun⟩
  · rw [hSome] at hCondition
    obtain ⟨condition, hOk, hEq⟩ := Results.map_eq_ok_iff.1 hCondition
    rw [← hEq]
    exact hMade.columns hOk

/-- A flat filter and a nested one, both on the column `age`. -/
theorem Database.columns_of_validate_age :
    ∃ (db : Database) (plan : Plan) (select : Select),
      (Plan.make { filter := some ["age>=18"], nestedFilter := some ["age<=65"] } {} {}).run.value =
        .ok plan ∧
      (db.store.validate "users" plan.args).run.value = .ok () ∧
      (Select.ofArgs "users" plan.args).run.value = .ok select ∧
      ∀ column ∈ whereColumns select.where?, column = "age" := by
  let request : Request := { filter := some ["age>=18"], nestedFilter := some ["age<=65"] }
  let db : Database := { dialect := .sqlite, rows := fun _ => .ok [], row := fun _ => .ok none }
  let plan : Plan := {
    window := ⟨1, 20, by decide, by decide⟩
    args := {
      skip := 0
      take := 20
      where? := some (.obj [("age", .obj [("lte", .num (.int 65))])]) }
    sort? := none }
  have hPlan : (Plan.make request {} {}).run.value = .ok plan := by
    rfl
  have hGiven : request.given =
      [⟨.flat, "age", .gte, .num (.int 18)⟩, ⟨.nested, "age", .lte, .num (.int 65)⟩] := by
    rfl
  have hValid : (db.store.validate "users" plan.args).run.value = .ok () := by
    rfl
  obtain ⟨select, -, hSelect, -, -, hNames, -⟩ :=
    Database.columns_of_validate hPlan rfl hValid
  refine ⟨db, plan, select, hPlan, hValid, hSelect, ?_⟩
  intro column hMem
  have hField : ∀ given ∈ request.given, given.filter.field = "age" ∧
      given.topKey ∉ ["AND", "OR", "NOT"] := by
    rw [hGiven]
    decide
  rcases hNames column hMem with ⟨given, hMemGiven, rfl⟩ | ⟨-, given, hMemGiven, hJoint⟩
  · exact (hField given hMemGiven).1
  · exact absurd hJoint (hField given hMemGiven).2

/-- The filter on the field `AND` becomes a comparison of a column `gt`, which no filter names. -/
theorem Database.columns_of_validate_gt :
    ∃ (db : Database) (plan : Plan) (select : Select),
      (Plan.make { filter := some ["AND>>5"] } {} {}).run.value = .ok plan ∧
      (db.store.validate "users" plan.args).run.value = .ok () ∧
      (Select.ofArgs "users" plan.args).run.value = .ok select ∧
      "gt" ∈ whereColumns select.where? ∧
      ∀ token ∈ ["AND>>5"], parseField token ≠ .ok "gt" := by
  let db : Database := { dialect := .sqlite, rows := fun _ => .ok [], row := fun _ => .ok none }
  let plan : Plan := {
    window := ⟨1, 20, by decide, by decide⟩
    args := {
      skip := 0
      take := 20
      where? := some (.obj [("AND", .obj [("gt", .num (.int 5))])]) }
    sort? := none }
  let comparison : Condition := .ofAtoms .all [.compare "gt" .eq (.bigInt 5)]
  let select : Select := {
    model := "users"
    columns := []
    where? := some (.join .all [.join .all [.join .all [comparison]]])
    order := []
    limit := 20
    offset := 0 }
  refine ⟨db, plan, select, rfl, rfl, rfl, ?_, ?_⟩
  · decide
  · intro token hMem hField
    rw [List.mem_singleton.1 hMem] at hField
    exact absurd hField (by decide)

end Sql

end Paging
