import Paging.Proofs.PlannedColumns
import Paging.Proofs.WhereObjects

/-!
# Where-objects that are accepted

`Acceptable` says which values are where-objects, by rules and without compiling anything: what may
stand under the keys that join objects, what under the name of a column, and what under each operator
of a column. A value compiles exactly if it is acceptable, and every other value is unsupported, at
whatever depth the fault is (`decides_filterCondition`). The four functions that walk a value decide
together, one rule for each branch (`Decides`).

Relations have no rule. So a clause that keeps a condition below a relation is refused
(`not_acceptable_of_keeps`), unless the relation is named like a key that joins objects.
-/

namespace Paging.Sql

/-! ## Steps that decide -/

/-- A step that succeeds where something is accepted, and fails elsewhere because the query is
unsupported. -/
structure Decides {α : Type} (accepted : Prop) (result : Except QueryError α) : Prop where
  exists_ok : accepted → ∃ a, result = .ok a
  exists_unsupported : ¬accepted → ∃ message, result = .error (.unsupported message)

namespace Decides

variable {α β : Type} {p q : Prop} {result : Except QueryError α}

theorem of_ok (hAccepted : p) (a : α) : Decides p (.ok a : Except QueryError α) :=
  ⟨fun _ => ⟨a, rfl⟩, fun hNot => absurd hAccepted hNot⟩

theorem of_unsupported (hNot : ¬p) (message : String) :
    Decides p (.error (.unsupported message) : Except QueryError α) :=
  ⟨fun hAccepted => absurd hAccepted hNot, fun _ => ⟨message, rfl⟩⟩

theorem congr (hDecides : Decides p result) (hIff : p ↔ q) : Decides q result := by
  rwa [← propext hIff]

theorem exists_ok_iff (hDecides : Decides p result) : (∃ a, result = .ok a) ↔ p := by
  constructor
  · intro h
    obtain ⟨a, hOk⟩ := h
    by_contra hNot
    obtain ⟨message, hError⟩ := hDecides.exists_unsupported hNot
    cases hOk.symm.trans hError
  · exact hDecides.exists_ok

theorem exists_unsupported_iff (hDecides : Decides p result) :
    (∃ message, result = .error (.unsupported message)) ↔ ¬p := by
  constructor
  · intro h hAccepted
    obtain ⟨message, hError⟩ := h
    obtain ⟨a, hOk⟩ := hDecides.exists_ok hAccepted
    cases hOk.symm.trans hError
  · exact hDecides.exists_unsupported

/-- One step after another. -/
theorem bind {f : α → Except QueryError β} (hFirst : Decides p result)
    (hRest : ∀ a, Decides q (f a)) : Decides (p ∧ q) (result >>= f) := by
  by_cases hp : p
  · obtain ⟨a, rfl⟩ := hFirst.exists_ok hp
    rw [Results.ok_bind]
    exact (hRest a).congr (and_iff_right hp).symm
  · obtain ⟨message, rfl⟩ := hFirst.exists_unsupported hp
    exact of_unsupported (fun h => hp h.1) message

/-- What a step accepts is that for which it succeeds. -/
theorem self (hDecides : Decides p result) : Decides (∃ a, result = .ok a) result :=
  hDecides.congr hDecides.exists_ok_iff.symm

/-- One step after another, where what the second accepts depends on what the first gives. -/
theorem bind_self {q : α → Prop} {f : α → Except QueryError β} (hFirst : Decides p result)
    (hRest : ∀ a, Decides (q a) (f a)) : Decides (∃ b, (result >>= f) = .ok b) (result >>= f) := by
  by_cases hp : p
  · obtain ⟨a, rfl⟩ := hFirst.exists_ok hp
    exact (hRest a).self
  · obtain ⟨message, rfl⟩ := hFirst.exists_unsupported hp
    refine of_unsupported (fun h => ?_) message
    obtain ⟨b, hOk⟩ := h
    cases hOk

theorem map {f : α → β} (hDecides : Decides p result) : Decides p (result.map f) := by
  by_cases hp : p
  · obtain ⟨a, rfl⟩ := hDecides.exists_ok hp
    exact of_ok hp (f a)
  · obtain ⟨message, rfl⟩ := hDecides.exists_unsupported hp
    exact of_unsupported hp message

/-- A walk accepts a list if it accepts every item. -/
theorem mapM {γ : Type} {f : γ → Except QueryError α} {accepts : γ → Prop} {items : List γ}
    (hEach : ∀ item ∈ items, Decides (accepts item) (f item)) :
    Decides (∀ item ∈ items, accepts item) (items.mapM f) := by
  induction items with
  | nil => exact of_ok nofun []
  | cons first rest ih =>
      have hRest := ih fun item hMem => hEach item (List.mem_cons_of_mem first hMem)
      have hFirst := hEach first List.mem_cons_self
      rw [List.mapM_cons, List.forall_mem_cons]
      exact hFirst.bind fun a => hRest.map

end Decides

/-! ## Columns -/

/-- A value that can be bound. -/
inductive IsScalar : Json → Prop where
  | bool (b : Bool) : IsScalar (.bool b)
  | num (n : Number) : IsScalar (.num n)
  | str (s : String) : IsScalar (.str s)

/-- What may stand under an operator of a column. Null has no order and is in no list. -/
inductive AcceptableOperator (key : String) : Json → Prop where
  | null (hKey : key ∈ ["equals", "NOT", "not"]) : AcceptableOperator key .null
  | scalar {operand : Json}
      (hKey : key ∈ ["equals", "NOT", "not", "gt", "gte", "lt", "lte", "in"])
      (hOperand : IsScalar operand) : AcceptableOperator key operand
  | list {items : List Json} (hKey : key = "in") (hItems : ∀ item ∈ items, IsScalar item) :
      AcceptableOperator key (.arr items)

/-- What may stand under the name of a column: null, a scalar, or operators. -/
inductive AcceptableColumn : Json → Prop where
  | null : AcceptableColumn .null
  | scalar {value : Json} (hValue : IsScalar value) : AcceptableColumn value
  | operators {operators : List (String × Json)}
      (hOperators : ∀ operator ∈ operators, AcceptableOperator operator.1 operator.2) :
      AcceptableColumn (.obj operators)

theorem decides_scalar (value : Json) : Decides (IsScalar value) (scalar value) := by
  cases value with
  | bool b => exact .of_ok (.bool b) _
  | num n => exact .of_ok (.num n) _
  | str s => exact .of_ok (.str s) _
  | null => exact .of_unsupported nofun _
  | arr items => exact .of_unsupported nofun _
  | obj entries => exact .of_unsupported nofun _

theorem isNull_iff {value : Json} : value.isNull = true ↔ value = .null := by
  cases value <;> simp [Json.isNull]

/-- A comparison that has a form of its own for null. -/
theorem decides_nullable (operand : Json) (a : Atom) (f : Value → Atom) :
    Decides (operand = .null ∨ IsScalar operand)
      (if operand.isNull then .ok a else (scalar operand).map f) := by
  split
  case isTrue hNull => exact .of_ok (.inl (isNull_iff.1 hNull)) a
  case isFalse hNull =>
    have hScalar : IsScalar operand ↔ operand = .null ∨ IsScalar operand :=
      (or_iff_right fun h => hNull (isNull_iff.2 h)).symm
    exact (decides_scalar operand).map.congr hScalar

theorem decides_listValues (operand : Json) :
    Decides (∀ item ∈ listItems operand, IsScalar item) (listValues operand) := by
  have hAlone : Decides (∀ item ∈ [operand], IsScalar item) ((scalar operand).map ([·])) :=
    (decides_scalar operand).map.congr List.forall_mem_singleton.symm
  cases operand with
  | arr items => exact Decides.mapM fun item _ => decides_scalar item
  | _ => exact hAlone

namespace AcceptableOperator

variable {key : String} {operand : Json}

theorem iff_of_equality (hKey : key ∈ ["equals", "NOT", "not"]) :
    AcceptableOperator key operand ↔ operand = .null ∨ IsScalar operand := by
  constructor
  · intro h
    cases h with
    | null => exact .inl rfl
    | scalar _ hOperand => exact .inr hOperand
    | list hIn _ =>
        subst hIn
        exact absurd hKey (by decide)
  · intro h
    rcases h with rfl | hOperand
    · exact .null hKey
    · exact .scalar (List.mem_append_left ["gt", "gte", "lt", "lte", "in"] hKey) hOperand

theorem iff_of_order (hKey : key ∈ ["gt", "gte", "lt", "lte"]) :
    AcceptableOperator key operand ↔ IsScalar operand := by
  constructor
  · intro h
    cases h with
    | null hEquality =>
        simp only [List.mem_cons, List.not_mem_nil, or_false] at hKey
        rcases hKey with rfl | rfl | rfl | rfl <;> exact absurd hEquality (by decide)
    | scalar _ hOperand => exact hOperand
    | list hIn _ =>
        subst hIn
        exact absurd hKey (by decide)
  · intro hOperand
    refine .scalar ?_ hOperand
    exact List.mem_append_right ["equals", "NOT", "not"] (List.mem_append_left ["in"] hKey)

theorem in_iff : AcceptableOperator "in" operand ↔ ∀ item ∈ listItems operand, IsScalar item := by
  constructor
  · intro h
    cases h with
    | null hEquality => exact absurd hEquality (by decide)
    | scalar _ hOperand =>
        have hItems : listItems operand = [operand] := by cases hOperand <;> rfl
        rw [hItems, List.forall_mem_singleton]
        exact hOperand
    | list _ hItems => exact hItems
  · intro hItems
    cases operand with
    | arr items => exact .list rfl hItems
    | _ => exact .scalar (by decide) (List.forall_mem_singleton.1 hItems)

theorem mem_of_acceptable (h : AcceptableOperator key operand) :
    key ∈ ["equals", "NOT", "not", "gt", "gte", "lt", "lte", "in"] := by
  cases h with
  | null hKey => exact List.mem_append_left ["gt", "gte", "lt", "lte", "in"] hKey
  | scalar hKey _ => exact hKey
  | list hIn _ =>
      subst hIn
      decide

end AcceptableOperator

theorem decides_comparison (column key : String) (operand : Json) :
    Decides (AcceptableOperator key operand) (comparison column key operand) := by
  have hOrder : ∀ relation, key ∈ ["gt", "gte", "lt", "lte"] →
      Decides (AcceptableOperator key operand)
        ((scalar operand).map (Atom.compare column relation)) := by
    intro relation hKey
    exact (decides_scalar operand).map.congr (AcceptableOperator.iff_of_order hKey).symm
  unfold comparison
  split_ifs with hEquals hNot hGt hGte hLt hLte hIn hRelation
  · have hKey : key ∈ ["equals", "NOT", "not"] := by simp [hEquals]
    exact (decides_nullable operand _ _).congr (AcceptableOperator.iff_of_equality hKey).symm
  · have hKey : key ∈ ["equals", "NOT", "not"] := by simp [hNot]
    exact (decides_nullable operand _ _).congr (AcceptableOperator.iff_of_equality hKey).symm
  · exact hOrder .gt (by simp [hGt])
  · exact hOrder .gte (by simp [hGte])
  · exact hOrder .lt (by simp [hLt])
  · exact hOrder .lte (by simp [hLte])
  · subst hIn
    exact (decides_listValues operand).map.congr AcceptableOperator.in_iff.symm
  all_goals
    refine .of_unsupported (fun h => ?_) _
    have hKey := h.mem_of_acceptable
    simp_all

/-- The condition on a column compiles where the column is acceptable. -/
theorem decides_columnCondition (column : String) (value : Json) :
    Decides (AcceptableColumn value) (columnCondition column value) := by
  have hOperators : Decides
      (∀ operator ∈ operators value, AcceptableOperator operator.1 operator.2)
      (columnCondition column value) := by
    rw [columnCondition_eq]
    exact (Decides.mapM fun operator _ => decides_comparison column operator.1 operator.2).map
  refine hOperators.congr ⟨?_, ?_⟩
  · intro hEach
    cases value with
    | null => exact .null
    | bool b => exact .scalar (.bool b)
    | num n => exact .scalar (.num n)
    | str s => exact .scalar (.str s)
    | arr items =>
        have hEquals : AcceptableOperator "equals" (.arr items) := hEach _ List.mem_cons_self
        rcases (AcceptableOperator.iff_of_equality (by decide)).1 hEquals with h | h
        · cases h
        · cases h
    | obj entries => exact .operators hEach
  · intro hColumn
    cases hColumn with
    | null => exact List.forall_mem_singleton.2 (.null (by decide))
    | scalar hValue =>
        have hSingle : operators value = [("equals", value)] := by cases hValue <;> rfl
        have hEquals : AcceptableOperator "equals" value := .scalar (by decide) hValue
        rw [hSingle, List.forall_mem_singleton]
        exact hEquals
    | operators hEach => exact hEach

/-! ## Objects -/

mutual

/-- A where-object: every entry of it is acceptable. -/
inductive Acceptable : Json → Prop where
  | object {entries : List (String × Json)}
      (hEntries : ∀ entry ∈ entries, AcceptableEntry entry.1 entry.2) : Acceptable (.obj entries)

/-- What may stand under a key of a where-object. -/
inductive AcceptableEntry : String → Json → Prop where
  | joined {key : String} {value : Json} (hKey : key ∈ ["AND", "OR", "NOT"])
      (hObject : Acceptable value) : AcceptableEntry key value
  | joinedAll {key : String} {items : List Json} (hKey : key ∈ ["AND", "OR", "NOT"])
      (hObjects : ∀ item ∈ items, Acceptable item) : AcceptableEntry key (.arr items)
  | column {key : String} {value : Json} (hKey : key ∉ ["AND", "OR", "NOT"])
      (hColumn : AcceptableColumn value) : AcceptableEntry key value

end

/-- What may stand under a key that joins objects. -/
def AcceptableMembers (value : Json) : Prop :=
  Acceptable value ∨ ∃ items, value = .arr items ∧ ∀ item ∈ items, Acceptable item

theorem acceptable_obj_iff {entries : List (String × Json)} :
    Acceptable (.obj entries) ↔ ∀ entry ∈ entries, AcceptableEntry entry.1 entry.2 := by
  constructor
  · intro h
    cases h with
    | object hEntries => exact hEntries
  · exact .object

theorem acceptableMembers_obj_iff {entries : List (String × Json)} :
    AcceptableMembers (.obj entries) ↔ ∀ entry ∈ entries, AcceptableEntry entry.1 entry.2 := by
  rw [AcceptableMembers, acceptable_obj_iff]
  exact or_iff_left nofun

theorem acceptableMembers_arr_iff {items : List Json} :
    AcceptableMembers (.arr items) ↔ ∀ item ∈ items, Acceptable item := by
  constructor
  · intro h
    rcases h with hObject | ⟨_, hItems, hObjects⟩
    · cases hObject
    · cases hItems
      exact hObjects
  · intro hObjects
    exact .inr ⟨items, rfl, hObjects⟩

theorem AcceptableMembers.arr_or_obj {value : Json} (hMembers : AcceptableMembers value) :
    (∃ items, value = .arr items) ∨ ∃ entries, value = .obj entries := by
  rcases hMembers with hObject | ⟨items, hItems, -⟩
  · cases hObject with
    | object _ => exact .inr ⟨_, rfl⟩
  · exact .inl ⟨items, hItems⟩

theorem acceptableEntry_iff_members {key : String} {value : Json}
    (hKey : key ∈ ["AND", "OR", "NOT"]) :
    AcceptableEntry key value ↔ AcceptableMembers value := by
  constructor
  · intro h
    cases h with
    | joined _ hObject => exact .inl hObject
    | joinedAll _ hObjects => exact .inr ⟨_, rfl, hObjects⟩
    | column hNot _ => exact absurd hKey hNot
  · intro h
    rcases h with hObject | ⟨items, rfl, hObjects⟩
    · exact .joined hKey hObject
    · exact .joinedAll hKey hObjects

theorem acceptableEntry_iff_column {key : String} {value : Json}
    (hKey : key ∉ ["AND", "OR", "NOT"]) : AcceptableEntry key value ↔ AcceptableColumn value := by
  constructor
  · intro h
    cases h with
    | joined hJoint _ => exact absurd hJoint hKey
    | joinedAll hJoint _ => exact absurd hJoint hKey
    | column _ hColumn => exact hColumn
  · exact .column hKey

theorem Joint.mem_of_ofKey? {key : String} {joint : Joint} (hJoint : ofKey? key = some joint) :
    key ∈ ["AND", "OR", "NOT"] := by
  by_contra hNot
  rw [ofKey?_eq_none hNot] at hJoint
  cases hJoint

theorem Joint.not_mem_of_ofKey? {key : String} (hNone : ofKey? key = Option.none) :
    key ∉ ["AND", "OR", "NOT"] := by
  simp only [ofKey?, ite_eq_iff, reduceCtorEq, and_false, false_or] at hNone
  simp [hNone]

/-- An entry compiles where it is acceptable, if that is so of the objects below a joint. -/
theorem decides_entryCondition {value : Json}
    (hMembers : Decides (AcceptableMembers value) (memberConditions value)) (key : String) :
    Decides (AcceptableEntry key value) (entryCondition (key, value)) := by
  rw [entryCondition]
  dsimp only
  cases hJoint : Joint.ofKey? key with
  | some joint =>
      exact hMembers.map.congr (acceptableEntry_iff_members (Joint.mem_of_ofKey? hJoint)).symm
  | none =>
      have hColumn : AcceptableEntry key value ↔ AcceptableColumn value :=
        acceptableEntry_iff_column (Joint.not_mem_of_ofKey? hJoint)
      exact (decides_columnCondition key value).congr hColumn.symm

mutual

/-- **A value compiles exactly if it is acceptable**, and else it is unsupported. -/
theorem decides_filterCondition (value : Json) :
    Decides (Acceptable value) (filterCondition value) :=
  match value with
  | .obj entries => (decides_entryConditions entries).map.congr acceptable_obj_iff.symm
  | .null | .bool _ | .num _ | .str _ | .arr _ => .of_unsupported nofun _

theorem decides_entryConditions (entries : List (String × Json)) :
    Decides (∀ entry ∈ entries, AcceptableEntry entry.1 entry.2) (entryConditions entries) :=
  match entries with
  | [] => .of_ok nofun []
  | (key, value) :: rest => by
      have hFirst := decides_entryCondition (decides_memberConditions value) key
      have hRest := decides_entryConditions rest
      rw [entryConditions_eq_mapM, List.mapM_cons, ← entryConditions_eq_mapM, List.forall_mem_cons]
      exact hFirst.bind fun condition => hRest.map

theorem decides_memberConditions (value : Json) :
    Decides (AcceptableMembers value) (memberConditions value) :=
  match value with
  | .arr items => (decides_itemConditions items).congr acceptableMembers_arr_iff.symm
  | .obj entries => (decides_entryConditions entries).map.congr acceptableMembers_obj_iff.symm
  | .null | .bool _ | .num _ | .str _ =>
      .of_unsupported (fun hMembers => by simpa using hMembers.arr_or_obj) _

theorem decides_itemConditions (items : List Json) :
    Decides (∀ item ∈ items, Acceptable item) (itemConditions items) :=
  match items with
  | [] => .of_ok nofun []
  | item :: rest => by
      have hFirst := decides_filterCondition item
      have hRest := decides_itemConditions rest
      rw [itemConditions, List.forall_mem_cons]
      exact hFirst.bind fun condition => hRest.map

end

end Paging.Sql

namespace Paging.Filter

open Paging.Keyed Paging.Sql

/-! ## Conditions below relations -/

/-- A clause keeps a condition at the end of a path: it has the condition under the last name, and
asks for related records under the names before. -/
inductive Clause.Keeps : Clause → List String → Condition → Prop where
  | here {clause : Clause} {name : String} {leaf : Condition}
      (hMem : (name, .condition leaf) ∈ clause) : Keeps clause [name] leaf
  | related {clause inner : Clause} {relation : String} {path : List String} {leaf : Condition}
      (hMem : (relation, .related inner) ∈ clause) (hKeeps : Keeps inner path leaf) :
      Keeps clause (relation :: path) leaf
  | relatedAll {clause inner : Clause} {relation : String} {inners : List Clause}
      {path : List String} {leaf : Condition} (hMem : (relation, .relatedAll inners) ∈ clause)
      (hInner : inner ∈ inners) (hKeeps : Keeps inner path leaf) :
      Keeps clause (relation :: path) leaf

namespace Clause

variable {clause : Clause} {path : List String} {leaf : Condition}

theorem Keeps.mono {more : Clause} (hKeeps : clause.Keeps path leaf)
    (hMore : ∀ entry ∈ clause, entry ∈ more) : more.Keeps path leaf := by
  cases hKeeps with
  | here hMem => exact .here (hMore _ hMem)
  | related hMem hKeeps => exact .related (hMore _ hMem) hKeeps
  | relatedAll hMem hInner hKeeps => exact .relatedAll (hMore _ hMem) hInner hKeeps

theorem Leads.keeps (hLeads : clause.Leads path (.condition leaf)) : clause.Keeps path leaf := by
  induction path generalizing clause with
  | nil => cases hLeads
  | cons name rest ih =>
      cases hLeads with
      | here => exact .here List.mem_cons_self
      | there _ hRest => exact .related List.mem_cons_self (ih hRest)

/-- What one of several clauses keeps is kept below the chain of relations that leads to them. -/
theorem Leads.keeps_append {relations : List String} {inners : List Clause} {inner : Clause}
    (hLeads : clause.Leads relations (.relatedAll inners)) (hInner : inner ∈ inners)
    (hKeeps : inner.Keeps path leaf) : clause.Keeps (relations ++ path) leaf := by
  induction relations generalizing clause with
  | nil => cases hLeads
  | cons relation rest ih =>
      cases hLeads with
      | here => exact .relatedAll List.mem_cons_self hInner hKeeps
      | there _ hRest => exact .related List.mem_cons_self (ih hRest)

end Clause

/-- The clause of a unit below relations keeps the condition of every filter in it. -/
theorem keeps_unitClause {mode : Mode} {relations : List String} {unit : List Filter}
    (hUnit : IsUnit mode (.below relations) unit) {filter : Filter} (hMem : filter ∈ unit) :
    Clause.Keeps (unitClause mode unit) (segments filter.field) filter.condition := by
  obtain ⟨first, rest, rfl, hFirst⟩ := hUnit.exists_cons
  obtain ⟨-, hNe, -⟩ := Key.segments_of_below hFirst
  cases rest with
  | nil =>
      rw [List.mem_singleton.1 hMem, unitClause_alone hFirst]
      exact (Clause.leads_ofPath (segments_ne_nil _) _).keeps
  | cons next rest =>
      obtain ⟨-, -, name, hSegments⟩ := Key.segments_of_below (hUnit.ofField filter hMem)
      obtain ⟨clause, hWrap, hLeads⟩ := Clause.exists_leads_wrap? hNe
        (.all ((first :: next :: rest).map fun filter =>
          .expand (segments filter.field) filter.condition relations.length))
      rw [unitClause_below hFirst, clauseBelow, hWrap, Option.getD_some, hSegments]
      refine hLeads.keeps_append (List.mem_map_of_mem hMem) ?_
      rw [hSegments, expand_append]
      exact .here List.mem_cons_self

/-- Of the units with one top key the last one is kept. -/
theorem keeps_compile {tokens : List String} {clause : Clause}
    (hOk : (compile .nested tokens).run.value = .ok clause) {unit : List Filter}
    (hLast : unit ∈ lastsBy (topKey .nested) (units .nested readD tokens)) {filter : Filter}
    (hMem : filter ∈ unit) (hDotted : 1 < (segments filter.field).length) :
    clause.Keeps (segments filter.field) filter.condition := by
  obtain ⟨compiled, hCompiled, -, hEntries⟩ :=
    @exists_compile_eq_ok .nested readD tokens (parse_eq_readD_of_compile hOk)
  cases hOk.symm.trans hCompiled
  obtain ⟨key, hUnit, -⟩ := exists_isUnit_of_mem (mem_of_mem_lastsBy hLast)
  have hKey := hUnit.ofField filter hMem
  cases key with
  | field path =>
      obtain ⟨-, hDots⟩ := Key.field_of_field hKey
      rw [length_segments, hDots rfl] at hDotted
      omega
  | below relations =>
      exact (keeps_unitClause hUnit hMem).mono fun entry hEntry =>
        (hEntries entry).2 ⟨unit, hLast, hEntry⟩

/-- A clause that keeps a condition below a relation is no acceptable where-object. -/
theorem not_acceptable_of_keeps {clause : Clause} {relation : String} {path : List String}
    {leaf : Condition} (hKeeps : clause.Keeps (relation :: path) leaf) (hPath : path ≠ [])
    (hRelation : relation ∉ ["AND", "OR", "NOT"]) : ¬Acceptable clause.toJson := by
  intro hAcceptable
  have hBelow : ∃ node body, (relation, node) ∈ clause ∧ node.toJson = .obj [("is", body)] := by
    cases hKeeps with
    | here => exact absurd rfl hPath
    | related hMem _ => exact ⟨_, _, hMem, rfl⟩
    | relatedAll hMem _ _ => exact ⟨_, _, hMem, rfl⟩
  obtain ⟨node, body, hMem, hBody⟩ := hBelow
  have hEntry := acceptable_obj_iff.1 hAcceptable (relation, node.toJson) (by
    rw [entriesToJson_eq_map]
    exact List.mem_map_of_mem hMem)
  rw [acceptableEntry_iff_column hRelation, hBody] at hEntry
  cases hEntry with
  | scalar hValue => cases hValue
  | operators hOperators =>
      have hIs : AcceptableOperator "is" body := hOperators _ List.mem_cons_self
      exact absurd hIs.mem_of_acceptable (by decide)

/-- **The language of where-objects.** A value compiles exactly if it is acceptable, and every other
value is unsupported. A clause compiled from nested filters keeps those of the last unit under each
key; and where it keeps a filter with a dotted field, it is unsupported, unless the first segment of
the field is a key that joins objects. -/
theorem filterCondition_accepts_language :
    (∀ value, (∃ condition, filterCondition value = .ok condition) ↔ Acceptable value) ∧
    (∀ value, (∃ message, filterCondition value = .error (.unsupported message)) ↔
      ¬Acceptable value) ∧
    ∀ tokens clause, (compile .nested tokens).run.value = .ok clause →
      ∀ token ∈ tokens, ∀ filter, parse token = .ok filter → 1 < (segments filter.field).length →
        ((∃ unit ∈ lastsBy (topKey .nested) (units .nested readD tokens), filter ∈ unit) →
          clause.Keeps (segments filter.field) filter.condition) ∧
        (clause.Keeps (segments filter.field) filter.condition →
          topKey .nested [filter] ∉ ["AND", "OR", "NOT"] →
          ∃ message, filterCondition clause.toJson = .error (.unsupported message)) := by
  refine ⟨fun value => (decides_filterCondition value).exists_ok_iff,
    fun value => (decides_filterCondition value).exists_unsupported_iff, ?_⟩
  intro tokens clause hOk token hToken filter hParse hDotted
  constructor
  · intro h
    obtain ⟨unit, hLast, hMem⟩ := h
    exact keeps_compile hOk hLast hMem hDotted
  · intro hKeeps hTop
    obtain ⟨relation, path, hSegments⟩ := List.exists_cons_of_ne_nil (segments_ne_nil filter.field)
    have hRelation : topKey .nested [filter] = relation := by
      rw [topKey, hSegments, List.headD_cons]
    rw [hSegments] at hKeeps hDotted
    have hPath : path ≠ [] := by
      rintro rfl
      simp at hDotted
    rw [hRelation] at hTop
    have hNot := not_acceptable_of_keeps hKeeps hPath hTop
    exact (decides_filterCondition clause.toJson).exists_unsupported hNot

/-- An object in an array under a joint, with a list that has no items; and two filters below one
relation, which is no joint. -/
theorem filterCondition_accepts_language_addr :
    (∃ condition, filterCondition (.obj [
        ("NOT", .arr [.obj [("id", .obj [("in", .arr []), ("not", .null)])]])]) = .ok condition) ∧
      ∃ clause : Clause,
        (compile .nested ["addr.city==NY", "addr.zip>>1"]).run.value = .ok clause ∧
        clause.Keeps ["addr", "zip"] (.operators [(.gt, .num (.int 1))]) ∧
        ∃ message, filterCondition clause.toJson = .error (.unsupported message) := by
  obtain ⟨hAccepts, -, hKept⟩ := filterCondition_accepts_language
  constructor
  · refine (hAccepts _).2 (.object (List.forall_mem_singleton.2 (.joinedAll (by decide) ?_)))
    refine List.forall_mem_singleton.2 (.object (List.forall_mem_singleton.2 (.column ?_ ?_)))
    · decide
    · refine .operators (List.forall_mem_cons.2 ⟨.list rfl nofun, ?_⟩)
      exact List.forall_mem_singleton.2 (.null (by decide))
  · let tokens := ["addr.city==NY", "addr.zip>>1"]
    let filters : List Filter := [⟨"addr.city", .eq, .str "NY"⟩, ⟨"addr.zip", .gt, .num (.int 1)⟩]
    obtain ⟨clause, hOk⟩ : ∃ clause, (compile .nested tokens).run.value = .ok clause := ⟨_, rfl⟩
    have hLast : filters ∈ lastsBy (topKey .nested) (units .nested readD tokens) := by
      rw [show units .nested readD tokens = [filters] by rfl]
      exact List.mem_cons_self
    have hSegments : segments "addr.zip" = ["addr", "zip"] := by decide
    obtain ⟨hKeeps, hRefused⟩ := hKept tokens clause hOk "addr.zip>>1" (by decide)
      ⟨"addr.zip", .gt, .num (.int 1)⟩ (by rfl) (by decide)
    have hKeeps := hKeeps ⟨filters, hLast, List.mem_cons_of_mem _ List.mem_cons_self⟩
    refine ⟨clause, hOk, ?_, hRefused hKeeps (by decide)⟩
    rw [← hSegments]
    exact hKeeps

end Paging.Filter
