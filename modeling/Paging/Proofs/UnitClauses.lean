import Paging.Proofs.Grouping
import Paging.Proofs.Tables

/-!
# The clauses of units

A unit is a list of filters that belong together: their fields have one key. Its clause has a single
entry, under the top key of the unit (`IsUnit.exists_unitClause_eq`), and clauses are merged by
assigning entry after entry (`Clause.value_merge`, `Clause.log_merge`). On one field the conditions
of a unit are merged as well, so that of each operator the last comparison is left
(`mem_comparisons_mergedCondition`).
-/

namespace Paging.Filter

open Paging.Keyed

/-! ## Merging clauses -/

namespace Clause

theorem merge_nil (clause : Clause) : clause.merge [] = pure clause := rfl

theorem merge_cons (clause : Clause) (entry : String × Node) (rest : Clause) :
    clause.merge (entry :: rest) = (do (← clause.assign entry.1 entry.2).merge rest) := by
  rw [merge, List.foldlM_cons]
  rfl

theorem merge_single (clause : Clause) (key : String) (node : Node) :
    clause.merge (.single key node) = clause.assign key node := by
  rw [single, merge_cons]
  exact bind_pure _

theorem merge_append (clause first second : Clause) :
    clause.merge (first ++ second) = (do (← clause.merge first).merge second) := by
  rw [merge, List.foldlM_append]
  rfl

@[simp]
theorem value_assign (clause : Clause) (key : String) (node : Node) :
    (clause.assign key node).value = clause.insert key node := by
  rw [assign]
  split <;> rfl

theorem log_assign (clause : Clause) (key : String) (node : Node) :
    (clause.assign key node).log = if key ∈ clause.keys then [.keyReplaced key] else [] := by
  have hFound : (clause.find? key).isSome = true ↔ key ∈ clause.keys := Table.find?_isSome_iff
  rw [assign]
  by_cases hMem : key ∈ clause.keys
  · rw [if_pos hMem, if_pos (hFound.2 hMem)]
    rfl
  · rw [if_neg hMem, if_neg fun h => hMem (hFound.1 h)]
    rfl

theorem value_merge (clause other : Clause) :
    (clause.merge other).value = clause.insertAll other := by
  induction other generalizing clause with
  | nil => rfl
  | cons entry rest ih =>
      rw [merge_cons, Logged.bind_value, ih, value_assign]
      rfl

/-- A replacement is noted whenever a key is there already, be it from before or from an entry that
was merged earlier. -/
theorem log_merge (clause other : Clause) :
    (clause.merge other).log = (repeats clause.keys (other.map Prod.fst)).map .keyReplaced := by
  induction other generalizing clause with
  | nil => rfl
  | cons entry rest ih =>
      have hKeys : ∀ k, k ∈ Table.keys (clause.insert entry.1 entry.2) ↔
          k ∈ entry.1 :: clause.keys := by
        intro k
        rw [Table.mem_keys_insert, List.mem_cons]
      rw [merge_cons, Logged.bind_log, ih, value_assign, log_assign, repeats_congr hKeys,
        List.map_cons, repeats]
      by_cases hMem : entry.1 ∈ clause.keys
      · have hSame : ∀ k, k ∈ entry.1 :: clause.keys ↔ k ∈ clause.keys := by
          intro k
          rw [List.mem_cons]
          exact or_iff_right_of_imp fun h => h ▸ hMem
        rw [if_pos hMem, if_pos hMem, repeats_congr hSame, List.map_cons, List.singleton_append]
      · rw [if_neg hMem, if_neg hMem, List.nil_append]

end Clause

/-! ## Chains of relations -/

/-- A clause that has a single entry, at the end of a path: relations one below the other, and a
node under the last name. -/
inductive Clause.Leads : Clause → List String → Node → Prop where
  | here (name : String) (node : Node) : Leads [(name, node)] [name] node
  | there {clause : Clause} {path : List String} {node : Node} (relation : String)
      (hLeads : Leads clause path node) :
      Leads [(relation, .related clause)] (relation :: path) node

namespace Clause

/-- A path that has a name leads to its leaf. -/
theorem leads_ofPath {path : List String} (hSome : path ≠ []) (leaf : Condition) :
    Leads (.ofPath path leaf) path (.condition leaf) := by
  induction path with
  | nil => exact absurd rfl hSome
  | cons first rest ih =>
      cases rest with
      | nil => exact .here first _
      | cons next others => exact .there first (ih nofun)

/-- A chain of relations leads to its body. -/
theorem exists_leads_wrap? {relations : List String} (hSome : relations ≠ []) (body : Body) :
    ∃ clause, wrap? relations body = some clause ∧ clause.Leads relations body.node := by
  induction relations with
  | nil => exact absurd rfl hSome
  | cons first rest ih =>
      cases rest with
      | nil => exact ⟨_, rfl, .here first _⟩
      | cons next others =>
          obtain ⟨clause, hWrap, hLeads⟩ := ih nofun
          refine ⟨.single first (.related clause), ?_, .there first hLeads⟩
          rw [wrap?, hWrap]
          · rfl
          · nofun

theorem wrap?_cons (relation : String) (relations : List String) (body : Body) :
    ∃ node, wrap? (relation :: relations) body = some (.single relation node) := by
  obtain ⟨clause, hWrap, hLeads⟩ :=
    exists_leads_wrap? (List.cons_ne_nil relation relations) body
  cases hLeads with
  | here => exact ⟨_, hWrap⟩
  | there => exact ⟨_, hWrap⟩

end Clause

/-! ## The clause of a unit -/

/-- The condition of filters on one field, the later comparison by an operator in place of an
earlier one. -/
def mergedCondition (filter : Filter) (rest : List Filter) : Condition :=
  rest.foldl (fun merged filter => merged.merge filter.condition) filter.condition

theorem comparisons_condition (filter : Filter) :
    filter.condition.comparisons = [(filter.operator, filter.value)] := by
  rw [condition, Condition.ofOperator]
  split
  · rename_i hEq
    rw [hEq]
    rfl
  · rfl

theorem comparisons_foldl_merge (condition : Condition) (filters : List Filter) :
    (filters.foldl (fun merged filter => merged.merge filter.condition) condition).comparisons =
      condition.comparisons.insertAll
        (filters.map fun filter => (filter.operator, filter.value)) := by
  induction filters generalizing condition with
  | nil => rfl
  | cons filter rest ih =>
      rw [List.foldl_cons, ih, Condition.merge, comparisons_condition]
      rfl

theorem comparisons_mergedCondition (filter : Filter) (rest : List Filter) :
    (mergedCondition filter rest).comparisons =
      .ofList ((filter :: rest).map fun other => (other.operator, other.value)) := by
  rw [mergedCondition, comparisons_foldl_merge, comparisons_condition]
  rfl

/-- A merged condition consists of the last comparison by each operator. -/
theorem mem_comparisons_mergedCondition {filter : Filter} {rest : List Filter}
    {entry : Operator × Json} :
    entry ∈ (mergedCondition filter rest).comparisons ↔
      ∃ other ∈ lastsBy Filter.operator (filter :: rest),
        entry = (other.operator, other.value) := by
  rw [comparisons_mergedCondition, Table.mem_ofList_iff, List.map_eq_flatMap,
    mem_lastsBy_flatMap_iff fun other _ => ⟨other.value, rfl⟩]
  simp only [List.mem_singleton]

/-- From two filters on a merged condition is a table of their comparisons. -/
theorem mergedCondition_cons (filter next : Filter) (rest : List Filter) :
    mergedCondition filter (next :: rest) = .operators
      (.ofList ((filter :: next :: rest).map fun other => (other.operator, other.value))) := by
  have hOperators : mergedCondition filter (next :: rest) =
      .operators (mergedCondition filter (next :: rest)).comparisons := by
    rw [mergedCondition, ← List.dropLast_append_getLast (List.cons_ne_nil next rest),
      List.foldl_append]
    rfl
  rw [hOperators, comparisons_mergedCondition]

/-- Filters by different operators are merged alike in every order. -/
theorem mergedCondition_eq_of_perm {filter filter' : Filter} {rest rest' : List Filter}
    (hPerm : (filter :: rest).Perm (filter' :: rest'))
    (hOperators : ((filter :: rest).map Filter.operator).Nodup) :
    mergedCondition filter rest = mergedCondition filter' rest' := by
  cases rest with
  | nil =>
      obtain ⟨rfl, rfl⟩ := List.cons.inj (List.singleton_perm.1 hPerm)
      rfl
  | cons next more =>
      obtain ⟨next', more', rfl⟩ : ∃ next' more', rest' = next' :: more' := by
        refine List.exists_cons_of_ne_nil fun hNil => ?_
        have hLength := hPerm.length_eq
        rw [hNil] at hLength
        simp at hLength
      rw [mergedCondition_cons, mergedCondition_cons]
      refine congrArg Condition.operators (Table.ofList_eq_of_perm (hPerm.map _) ?_)
      rw [List.map_map]
      exact hOperators

/-- The clause that filters below a chain of relations make up, each as a clause of its own. -/
def clauseBelow (relations : List String) (filters : List Filter) : Clause :=
  (Clause.wrap? relations (.all (filters.map fun filter =>
    .expand (segments filter.field) filter.condition relations.length))).getD []

/-- The clause of a unit. -/
def unitClause (mode : Mode) : List Filter → Clause
  | [] => []
  | filter :: rest =>
      match Key.ofField mode filter.field, rest with
      | .field path, rest => .single path (.condition (mergedCondition filter rest))
      | .below _, [] => .ofPath (segments filter.field) filter.condition
      | .below relations, rest => clauseBelow relations (filter :: rest)

section UnitClause

variable {mode : Mode} {filter : Filter}

theorem unitClause_of_field {path : String} (hKey : Key.ofField mode filter.field = .field path)
    (rest : List Filter) :
    unitClause mode (filter :: rest) =
      .single path (.condition (mergedCondition filter rest)) := by
  simp only [unitClause, hKey]

theorem unitClause_alone {relations : List String}
    (hKey : Key.ofField mode filter.field = .below relations) :
    unitClause mode [filter] = .ofPath (segments filter.field) filter.condition := by
  simp only [unitClause, hKey]

theorem unitClause_below {relations : List String}
    (hKey : Key.ofField mode filter.field = .below relations) (next : Filter)
    (rest : List Filter) :
    unitClause mode (filter :: next :: rest) =
      clauseBelow relations (filter :: next :: rest) := by
  simp only [unitClause, hKey]

end UnitClause

/-- The key that the clause of a unit has: the field as it stands, or its first segment where dots
separate segments. -/
def topKey (mode : Mode) : List Filter → String
  | [] => ""
  | filter :: _ =>
      match mode with
      | .flat => filter.field
      | .nested => (segments filter.field).headD ""

/-- Filters that belong together: there is one at least, and all have the same key. -/
structure IsUnit (mode : Mode) (key : Key) (unit : List Filter) : Prop where
  nonempty : unit ≠ []
  ofField : ∀ filter ∈ unit, Key.ofField mode filter.field = key

namespace IsUnit

variable {mode : Mode} {unit : List Filter}

theorem exists_cons {key : Key} (hUnit : IsUnit mode key unit) :
    ∃ first rest, unit = first :: rest ∧ Key.ofField mode first.field = key := by
  obtain ⟨first, rest, rfl⟩ := List.exists_cons_of_ne_nil hUnit.nonempty
  exact ⟨first, rest, rfl, hUnit.ofField first List.mem_cons_self⟩

theorem topKey_of_field {path : String} (hUnit : IsUnit mode (.field path) unit) :
    topKey mode unit = path := by
  obtain ⟨filter, rest, rfl, hFirst⟩ := hUnit.exists_cons
  obtain ⟨hPath, hDots⟩ := Key.field_of_field hFirst
  cases mode with
  | flat => exact hPath
  | nested => rw [topKey, segments_of_dots_eq_zero (hDots rfl), hPath, List.headD_cons]

theorem topKey_of_below {relation : String} {relations : List String}
    (hUnit : IsUnit mode (.below (relation :: relations)) unit) : topKey mode unit = relation := by
  obtain ⟨filter, rest, rfl, hFirst⟩ := hUnit.exists_cons
  obtain ⟨rfl, -, name, hSegments⟩ := Key.segments_of_below hFirst
  rw [topKey, hSegments, List.cons_append, List.headD_cons]

theorem field_topKey {key : Key} (hUnit : IsUnit .flat key unit) :
    Key.field (topKey .flat unit) = key := by
  obtain ⟨filter, rest, rfl, hFirst⟩ := hUnit.exists_cons
  rw [← hFirst, Key.ofField_flat]
  rfl

/-- The clause of a unit has one entry, under the unit's top key. -/
theorem exists_unitClause_eq {key : Key} (hUnit : IsUnit mode key unit) :
    ∃ node, unitClause mode unit = [(topKey mode unit, node)] := by
  obtain ⟨filter, rest, rfl, hFirst⟩ := hUnit.exists_cons
  cases key with
  | field path =>
      rw [hUnit.topKey_of_field, unitClause_of_field hFirst]
      exact ⟨_, rfl⟩
  | below relations =>
      obtain ⟨-, hNe, name, hSegments⟩ := Key.segments_of_below hFirst
      obtain ⟨relation, relations, rfl⟩ := List.exists_cons_of_ne_nil hNe
      rw [hUnit.topKey_of_below]
      cases rest with
      | nil =>
          rw [unitClause_alone hFirst, hSegments]
          cases relations <;> exact ⟨_, rfl⟩
      | cons next rest =>
          rw [unitClause_below hFirst, clauseBelow]
          obtain ⟨node, hNode⟩ := Clause.wrap?_cons relation relations _
          rw [hNode]
          exact ⟨node, rfl⟩

end IsUnit

end Paging.Filter
