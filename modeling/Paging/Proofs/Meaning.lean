import Paging.Proofs.Units

/-!
# What clauses mean

Filters are about records: trees in which every key holds a cell and every relation leads to one
record at most. What it means for a cell to compare with a value is left open (`test`), so that the
statements here hold for every store.

A clause holds on a record if all its entries do, and a filter holds if the comparison does on the
cell that its field names. The clause of a unit holds where the filters that count in it do
(`holds_unitClause`): below relations these are all of them, but on one field a later comparison by
an operator stands in for an earlier one (`counted`). A compiled clause holds where the last unit
under each top key does (`exists_holds_iff`).
-/

namespace Paging.Filter

open Paging.Keyed

/-- A record with its cells and the records related to it. -/
inductive Record (κ : Type) where
  | node (cell : String → κ) (related : String → Option (Record κ))

namespace Record

variable {κ : Type}

def cell : Record κ → String → κ
  | .node cell _ => cell

def related : Record κ → String → Option (Record κ)
  | .node _ related => related

/-- The record at the end of a chain of relations. -/
def follow : List String → Record κ → Option (Record κ)
  | [], record => some record
  | relation :: rest, record => (record.related relation).bind (follow rest)

/-- A chain of relations leads to a record with a property. -/
def Reaches (record : Record κ) (relations : List String) (property : Record κ → Prop) : Prop :=
  ∃ target, record.follow relations = some target ∧ property target

variable {record : Record κ} {property : Record κ → Prop}

theorem reaches_nil : record.Reaches [] property ↔ property record := by
  simp [Reaches, follow]

theorem reaches_cons {relation : String} {rest : List String} :
    record.Reaches (relation :: rest) property ↔
      ∃ next, record.related relation = some next ∧ next.Reaches rest property := by
  simp only [Reaches, follow, Option.bind_eq_some_iff]
  constructor
  · intro h
    obtain ⟨target, ⟨next, hNext, hTarget⟩, hProperty⟩ := h
    exact ⟨next, hNext, target, hTarget, hProperty⟩
  · intro h
    obtain ⟨next, hNext, target, hTarget, hProperty⟩ := h
    exact ⟨target, ⟨next, hNext, hTarget⟩, hProperty⟩

/-- A chain leads to one record at most, so that properties that some items ask for can be asked one
by one. -/
theorem reaches_forall_iff {α : Type} {items : List α} {asked : α → Record κ → Prop}
    {relations : List String} (hNe : items ≠ []) :
    record.Reaches relations (fun target => ∀ item ∈ items, asked item target) ↔
      ∀ item ∈ items, record.Reaches relations (asked item) := by
  constructor
  · intro h item hMem
    obtain ⟨target, hTarget, hAll⟩ := h
    exact ⟨target, hTarget, hAll item hMem⟩
  · intro hEach
    obtain ⟨first, rest, rfl⟩ := List.exists_cons_of_ne_nil hNe
    obtain ⟨target, hTarget, -⟩ := hEach first List.mem_cons_self
    refine ⟨target, hTarget, ?_⟩
    intro item hMem
    obtain ⟨other, hOther, hAsked⟩ := hEach item hMem
    rw [hTarget] at hOther
    cases hOther
    exact hAsked

end Record

section Meaning

variable {κ : Type} (test : Operator → Json → κ → Prop)

/-! ## When clauses and filters hold -/

/-- A condition holds if each of its comparisons does. -/
def Condition.Holds (cell : κ) (condition : Condition) : Prop :=
  ∀ comparison ∈ condition.comparisons, test comparison.1 comparison.2 cell

mutual

/-- A condition is about the cell under its key, the other nodes are about the related record, which
has to be there. -/
def Node.Holds (key : String) (record : Record κ) : Node → Prop
  | .condition leaf => leaf.Holds test (record.cell key)
  | .related clause => ∃ target, record.related key = some target ∧ EntriesHold target clause
  | .relatedAll clauses => ∃ target, record.related key = some target ∧ ClausesHold target clauses

/-- All entries of a clause hold. -/
def EntriesHold (record : Record κ) : List (String × Node) → Prop
  | [] => True
  | (key, node) :: rest => node.Holds key record ∧ EntriesHold record rest

/-- All of several clauses hold. -/
def ClausesHold (record : Record κ) : List (List (String × Node)) → Prop
  | [] => True
  | clause :: rest => EntriesHold record clause ∧ ClausesHold record rest

end

/-- A clause holds if all its entries do. -/
def Clause.Holds (record : Record κ) (clause : Clause) : Prop := EntriesHold test record clause

/-- What a body asks of related records holds. -/
def Body.Holds (record : Record κ) : Body → Prop
  | .clause entries => entries.Holds test record
  | .all clauses => ∀ clause ∈ clauses, clause.Holds test record

/-- A filter holds if its comparison does on the cell under its field. In nested mode the segments
of the field lead to that cell. -/
def Holds (mode : Mode) (record : Record κ) (filter : Filter) : Prop :=
  match mode with
  | .flat => test filter.operator filter.value (record.cell filter.field)
  | .nested => record.Reaches (segments filter.field).dropLast fun target =>
      test filter.operator filter.value (target.cell ((segments filter.field).getLastD ""))

variable {test}

theorem Clause.holds_iff {record : Record κ} {clause : Clause} :
    clause.Holds test record ↔ ∀ entry ∈ clause, entry.2.Holds test entry.1 record := by
  induction clause with
  | nil => simp [Clause.Holds, EntriesHold]
  | cons entry rest ih =>
      rw [List.forall_mem_cons, ← ih]
      rfl

theorem Clause.holds_single {record : Record κ} {key : String} {node : Node} :
    (Clause.single key node).Holds test record ↔ node.Holds test key record := by
  rw [Clause.holds_iff, Clause.single, List.forall_mem_singleton]

theorem clausesHold_iff {record : Record κ} {clauses : List Clause} :
    ClausesHold test record clauses ↔ ∀ clause ∈ clauses, clause.Holds test record := by
  induction clauses with
  | nil => simp [ClausesHold]
  | cons clause rest ih =>
      rw [List.forall_mem_cons, ← ih]
      rfl

theorem Body.holds_node {record : Record κ} {key : String} {body : Body} :
    body.node.Holds test key record ↔
      ∃ target, record.related key = some target ∧ body.Holds test target := by
  cases body with
  | clause clause => rfl
  | all clauses =>
      show (∃ target, record.related key = some target ∧ ClausesHold test target clauses) ↔ _
      simp only [clausesHold_iff]
      rfl

theorem holds_condition {cell : κ} {filter : Filter} :
    filter.condition.Holds test cell ↔ test filter.operator filter.value cell := by
  rw [Condition.Holds, comparisons_condition, List.forall_mem_singleton]

theorem holds_mergedCondition {cell : κ} {filter : Filter} {rest : List Filter} :
    (mergedCondition filter rest).Holds test cell ↔
      ∀ other ∈ lastsBy Filter.operator (filter :: rest), test other.operator other.value cell := by
  rw [Condition.Holds]
  constructor
  · intro hHolds other hLast
    exact hHolds _ (mem_comparisons_mergedCondition.2 ⟨other, hLast, rfl⟩)
  · intro hHolds comparison hMem
    obtain ⟨other, hLast, rfl⟩ := mem_comparisons_mergedCondition.1 hMem
    exact hHolds other hLast

/-! ## Chains of relations -/

/-- A path of relations is followed step by step. -/
theorem holds_ofPath {record : Record κ} {relations : List String} {name : String}
    {leaf : Condition} :
    (Clause.ofPath (relations ++ [name]) leaf).Holds test record ↔
      record.Reaches relations fun target => leaf.Holds test (target.cell name) := by
  induction relations generalizing record with
  | nil =>
      rw [List.nil_append, Clause.ofPath, Clause.holds_single, Record.reaches_nil]
      rfl
  | cons relation rest ih =>
      have hPath : Clause.ofPath (relation :: rest ++ [name]) leaf =
          Clause.single relation (.related (Clause.ofPath (rest ++ [name]) leaf)) := by
        cases rest <;> rfl
      rw [hPath, Clause.holds_single, Record.reaches_cons]
      exact exists_congr fun next => and_congr_right fun _ => ih

theorem holds_wrap? {record : Record κ} {relations : List String} {body : Body} {clause : Clause}
    (hWrap : Clause.wrap? relations body = some clause) :
    clause.Holds test record ↔ record.Reaches relations fun target => body.Holds test target := by
  induction relations generalizing record clause with
  | nil => cases hWrap
  | cons relation rest ih =>
      rw [Record.reaches_cons]
      cases rest with
      | nil =>
          cases hWrap
          rw [Clause.holds_single, Body.holds_node]
          refine exists_congr fun next => and_congr_right fun _ => ?_
          exact (@Record.reaches_nil κ next fun target => body.Holds test target).symm
      | cons next rest =>
          obtain ⟨inner, hInner, rfl⟩ := Option.map_eq_some_iff.1 hWrap
          rw [Clause.holds_single]
          exact exists_congr fun next => and_congr_right fun _ => ih hInner

/-! ## Units -/

variable {mode : Mode} {record : Record κ}

theorem holds_of_field {filter : Filter} {path : String}
    (hKey : Key.ofField mode filter.field = .field path) :
    filter.Holds test mode record ↔ test filter.operator filter.value (record.cell path) := by
  obtain ⟨rfl, hDots⟩ := Key.field_of_field hKey
  cases mode with
  | flat => rfl
  | nested =>
      rw [Holds, segments_of_dots_eq_zero (hDots rfl), List.dropLast_singleton, Record.reaches_nil]
      rfl

theorem holds_of_segments {filter : Filter} {relations : List String} {name : String}
    (hSegments : segments filter.field = relations ++ [name]) :
    filter.Holds test .nested record ↔
      record.Reaches relations fun target =>
        test filter.operator filter.value (target.cell name) := by
  rw [Holds, hSegments, List.dropLast_concat, List.getLastD_concat]

/-- The filters that count in a unit. On one field these are the last ones by each operator. -/
def counted (mode : Mode) : List Filter → List Filter
  | [] => []
  | filter :: rest =>
      if mode = .nested ∧ 0 < dots filter.field then filter :: rest
      else lastsBy Filter.operator (filter :: rest)

theorem counted_of_field {filter : Filter} {rest : List Filter} {path : String}
    (hKey : Key.ofField mode filter.field = .field path) :
    counted mode (filter :: rest) = lastsBy Filter.operator (filter :: rest) := by
  obtain ⟨-, hDots⟩ := Key.field_of_field hKey
  rw [counted, if_neg]
  intro h
  have := hDots h.1
  omega

theorem counted_of_below {filter : Filter} {rest : List Filter} {relations : List String}
    (hKey : Key.ofField mode filter.field = .below relations) :
    counted mode (filter :: rest) = filter :: rest := by
  obtain ⟨hMode, hNe, name, hSegments⟩ := Key.segments_of_below hKey
  have hPos : 0 < dots filter.field := by
    rw [dots_eq_length hSegments]
    exact List.length_pos_iff.2 hNe
  rw [counted, if_pos ⟨hMode, hPos⟩]

theorem holds_clauseBelow {relations : List String} {filters : List Filter}
    (hNe : relations ≠ []) :
    (clauseBelow relations filters).Holds test record ↔
      record.Reaches relations fun target => ∀ filter ∈ filters,
        (Clause.expand (segments filter.field) filter.condition relations.length).Holds
          test target := by
  obtain ⟨relation, rest, rfl⟩ := List.exists_cons_of_ne_nil hNe
  let clauses := filters.map fun filter =>
    Clause.expand (segments filter.field) filter.condition (relation :: rest).length
  obtain ⟨node, hNode⟩ := Clause.wrap?_cons relation rest (.all clauses)
  rw [clauseBelow, hNode, Option.getD_some, holds_wrap? hNode]
  show (record.Reaches _ fun target => ∀ clause ∈ clauses, clause.Holds test target) ↔ _
  simp only [clauses, List.forall_mem_map]

/-- The clause of a unit holds where the filters that count in it do. -/
theorem holds_unitClause {key : Key} {unit : List Filter} (hUnit : IsUnit mode key unit) :
    (unitClause mode unit).Holds test record ↔
      ∀ filter ∈ counted mode unit, filter.Holds test mode record := by
  obtain ⟨first, rest, rfl, hFirst⟩ := hUnit.exists_cons
  cases key with
  | field path =>
      rw [unitClause_of_field hFirst, counted_of_field hFirst, Clause.holds_single]
      show (mergedCondition first rest).Holds test (record.cell path) ↔ _
      rw [holds_mergedCondition]
      refine forall_congr' fun filter => forall_congr' fun hLast => ?_
      rw [holds_of_field (hUnit.ofField filter (mem_of_mem_lastsBy hLast))]
  | below relations =>
      obtain ⟨rfl, hNe, name, hName⟩ := Key.segments_of_below hFirst
      rw [counted_of_below hFirst]
      -- One filter is expanded from the root, several are expanded behind the chain they share.
      cases rest with
      | nil =>
          rw [unitClause_alone hFirst, hName, holds_ofPath, List.forall_mem_singleton,
            holds_of_segments hName]
          exact exists_congr fun target => and_congr_right fun _ => holds_condition
      | cons next rest =>
          rw [unitClause_below hFirst, holds_clauseBelow hNe,
            Record.reaches_forall_iff (List.cons_ne_nil _ _)]
          refine forall_congr' fun filter => forall_congr' fun hMem => ?_
          obtain ⟨-, -, last, hLast⟩ := Key.segments_of_below (hUnit.ofField filter hMem)
          rw [holds_of_segments hLast, hLast, expand_append]
          exact exists_congr fun target => and_congr_right fun _ =>
            Clause.holds_single.trans holds_condition

end Meaning

section Reading

variable {mode : Mode} {read : String → Filter} {tokens : List String}

/-- Compiling tokens that can be read succeeds, and the clause holds where the last unit under each
top key does. -/
theorem exists_holds_iff (hRead : ∀ token ∈ tokens, parse token = .ok (read token)) :
    ∃ clause, (compile mode tokens).run.value = .ok clause ∧
      ∀ {κ : Type} {test : Operator → Json → κ → Prop} {record : Record κ},
        clause.Holds test record ↔
          ∀ unit ∈ lastsBy (topKey mode) (units mode read tokens),
            ∀ filter ∈ counted mode unit, filter.Holds test mode record := by
  obtain ⟨clause, hCompile, -, hEntries⟩ := @exists_compile_eq_ok mode read tokens hRead
  refine ⟨clause, hCompile, ?_⟩
  intro κ test record
  have hUnit : ∀ unit ∈ lastsBy (topKey mode) (units mode read tokens),
      (unitClause mode unit).Holds test record ↔
        ∀ filter ∈ counted mode unit, filter.Holds test mode record := by
    intro unit hLast
    obtain ⟨key, hUnit, -⟩ := exists_isUnit_of_mem (mem_of_mem_lastsBy hLast)
    exact holds_unitClause hUnit
  rw [Clause.holds_iff]
  constructor
  · intro hHolds unit hLast
    refine (hUnit unit hLast).1 (Clause.holds_iff.2 ?_)
    intro entry hEntry
    exact hHolds entry ((hEntries entry).2 ⟨unit, hLast, hEntry⟩)
  · intro hHolds entry hMem
    obtain ⟨unit, hLast, hEntry⟩ := (hEntries entry).1 hMem
    exact Clause.holds_iff.1 ((hUnit unit hLast).2 (hHolds unit hLast)) entry hEntry

/-- **Nested filters keep their meaning.** Tokens compile to a clause that holds where all filters
that count in the last unit under each top key hold. Where the units differ in their top keys, it
holds where all filters that count in any unit hold. -/
theorem holds_compile_nested (hRead : ∀ token ∈ tokens, parse token = .ok (read token)) :
    ∃ clause, (compile .nested tokens).run.value = .ok clause ∧
      (∀ (κ : Type) (test : Operator → Json → κ → Prop) (record : Record κ),
        clause.Holds test record ↔
          ∀ unit ∈ lastsBy (topKey .nested) (units .nested read tokens),
            ∀ filter ∈ counted .nested unit, filter.Holds test .nested record) ∧
      (((units .nested read tokens).map (topKey .nested)).Nodup →
        ∀ (κ : Type) (test : Operator → Json → κ → Prop) (record : Record κ),
          clause.Holds test record ↔
            ∀ unit ∈ units .nested read tokens,
              ∀ filter ∈ counted .nested unit, filter.Holds test .nested record) := by
  obtain ⟨clause, hCompile, hHolds⟩ := @exists_holds_iff .nested read tokens hRead
  refine ⟨clause, hCompile, fun κ test record => hHolds, ?_⟩
  intro hNodup κ test record
  rw [hHolds, lastsBy_eq_self hNodup]

/-- A token that goes deeper is a unit of its own, comes behind the group, and replaces it. -/
theorem holds_compile_nested_author :
    ∃ clause,
      (compile .nested ["author.team.id==1", "author.name==x", "author.age>=18"]).run.value =
        .ok clause ∧
      ∀ (κ : Type) (test : Operator → Json → κ → Prop) (record : Record κ),
        clause.Holds test record ↔
          Filter.Holds test .nested record ⟨"author.team.id", .eq, .num (.int 1)⟩ := by
  have hLast : lastsBy (topKey .nested)
      (units .nested readD ["author.team.id==1", "author.name==x", "author.age>=18"]) =
      [[⟨"author.team.id", .eq, .num (.int 1)⟩]] := by
    rfl
  have hRead := parse_eq_readD (show ∀ token ∈ ["author.team.id==1", "author.name==x",
    "author.age>=18"], (parse token).toOption.isSome by decide)
  obtain ⟨clause, hCompile, hHolds, -⟩ := holds_compile_nested hRead
  refine ⟨clause, hCompile, ?_⟩
  intro κ test record
  rw [hHolds, hLast, List.forall_mem_singleton]
  exact List.forall_mem_singleton

end Reading

end Paging.Filter
