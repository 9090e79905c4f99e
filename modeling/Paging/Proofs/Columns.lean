import Paging.Proofs.FlatFilters

/-!
# The columns of a condition

A comparison is one of the column that it is made for (`column_of_comparison`), and a condition
mentions the columns of its entries, one by one (`mem_columns_entryConditions`).

What is in an object is told by its keys alone, and the keys of clauses are not set apart from those
that join objects. Under the name of a column a node of a clause mentions this column
(`Node.columns_of_columnCondition`). Under a key that joins objects the node is taken for an object
of columns, so that the keys of operators and of related records are mentioned instead
(`Node.reserved_of_entryCondition`).
-/

namespace Paging.Sql

/-! ## Columns of conditions -/

/-- The column that is compared. -/
def Atom.column : Atom → String
  | .isNull column => column
  | .isNotNull column => column
  | .compare column _ _ => column
  | .isIn column _ => column

/-- The columns that a condition mentions. -/
def Condition.columns (condition : Condition) : List String := condition.atoms.map Atom.column

theorem Condition.columns_ofAtoms (connective : Connective) (atoms : List Atom) :
    (ofAtoms connective atoms).columns = atoms.map Atom.column := by
  rw [columns, atoms_ofAtoms]

theorem Joint.columns_join (joint : Joint) (conditions : List Condition) :
    (joint.join conditions).columns = conditions.flatMap Condition.columns := by
  have hAtoms : (joint.join conditions).atoms = conditions.flatMap Condition.atoms := by
    cases joint with
    | all => exact Condition.atoms_join .all conditions
    | any => exact Condition.atoms_join .any conditions
    | none => exact Condition.atoms_join .all conditions
  rw [Condition.columns, hAtoms, List.map_flatMap]
  rfl

/-! ## Comparisons -/

section Comparison

variable {column key : String} {json : Json} {a : Atom}

theorem column_of_equals (hOk : equals column json = .ok a) : a.column = column := by
  unfold equals at hOk
  split at hOk
  · cases hOk
    rfl
  · obtain ⟨value, -, rfl⟩ := Results.map_eq_ok_iff.1 hOk
    rfl

theorem column_of_differs (hOk : differs column json = .ok a) : a.column = column := by
  unfold differs at hOk
  split at hOk
  · cases hOk
    rfl
  · obtain ⟨value, -, rfl⟩ := Results.map_eq_ok_iff.1 hOk
    rfl

/-- A comparison is one of the column that it is made for, whatever the operator. -/
theorem column_of_comparison (hOk : comparison column key json = .ok a) : a.column = column := by
  have hCompare : ∀ relation, (scalar json).map (.compare column relation) = .ok a →
      a.column = column := by
    intro relation hRelation
    obtain ⟨value, -, rfl⟩ := Results.map_eq_ok_iff.1 hRelation
    rfl
  unfold comparison at hOk
  split_ifs at hOk
  · exact column_of_equals hOk
  · exact column_of_differs hOk
  · exact hCompare .gt hOk
  · exact hCompare .gte hOk
  · exact hCompare .lt hOk
  · exact hCompare .lte hOk
  · obtain ⟨values, -, rfl⟩ := Results.map_eq_ok_iff.1 hOk
    rfl

/-- The condition on a column mentions that column only; and it does mention it, unless it is made
of no operators at all. -/
theorem mem_columns_columnCondition {condition : Condition}
    (hOk : columnCondition column json = .ok condition) (hNe : json ≠ .obj []) (other : String) :
    other ∈ condition.columns ↔ other = column := by
  have hAtoms : ∃ atoms, condition = .ofAtoms .all atoms ∧ atoms ≠ [] ∧
      ∀ a ∈ atoms, a.column = column := by
    unfold columnCondition at hOk
    split at hOk
    · rename_i operators
      obtain ⟨atoms, hMap, hEq⟩ := Results.bind_eq_ok_iff.1 hOk
      refine ⟨atoms, (Except.ok.inj hEq).symm, ?_, ?_⟩
      · obtain ⟨first, hFirst⟩ := List.exists_mem_of_ne_nil operators
          fun hNil => hNe (congrArg Json.obj hNil)
        obtain ⟨a, hMem, -⟩ := Results.exists_of_mapM_eq_ok hMap hFirst
        exact List.ne_nil_of_mem hMem
      · intro a hMem
        obtain ⟨entry, -, hComparison⟩ := (Results.mem_of_mapM_eq_ok hMap).1 hMem
        exact column_of_comparison hComparison
    · obtain ⟨a, hEquals, hEq⟩ := Results.bind_eq_ok_iff.1 hOk
      refine ⟨[a], (Except.ok.inj hEq).symm, List.cons_ne_nil a [], ?_⟩
      simpa using column_of_equals hEquals
  obtain ⟨atoms, rfl, hSome, hColumn⟩ := hAtoms
  obtain ⟨first, rest, rfl⟩ := List.exists_cons_of_ne_nil hSome
  rw [Condition.columns_ofAtoms, List.mem_map]
  constructor
  · intro h
    obtain ⟨a, hMem, rfl⟩ := h
    exact hColumn a hMem
  · intro hOther
    exact ⟨first, List.mem_cons_self, (hColumn first List.mem_cons_self).trans hOther.symm⟩

end Comparison

/-! ## Entries -/

/-- The condition of one entry of a where-object. -/
def entryCondition (entry : String × Json) : Except QueryError Condition :=
  match Joint.ofKey? entry.1 with
  | some joint => (memberConditions entry.2).map joint.join
  | none => columnCondition entry.1 entry.2

theorem entryConditions_eq_mapM (entries : List (String × Json)) :
    entryConditions entries = entries.mapM entryCondition := by
  induction entries with
  | nil => rfl
  | cons entry rest ih =>
      obtain ⟨key, value⟩ := entry
      rw [entryConditions, List.mapM_cons, ih, entryCondition]
      dsimp only
      cases Joint.ofKey? key with
      | none => rfl
      | some joint => cases memberConditions value <;> rfl

theorem mem_columns_entryConditions {entries : List (String × Json)} {conditions : List Condition}
    (hOk : entryConditions entries = .ok conditions) (column : String) :
    column ∈ conditions.flatMap Condition.columns ↔
      ∃ entry ∈ entries, ∃ condition, entryCondition entry = .ok condition ∧
        column ∈ condition.columns := by
  rw [entryConditions_eq_mapM] at hOk
  rw [List.mem_flatMap]
  simp only [Results.mem_of_mapM_eq_ok hOk]
  constructor
  · intro h
    obtain ⟨condition, ⟨entry, hMem, hEntry⟩, hColumn⟩ := h
    exact ⟨entry, hMem, condition, hEntry, hColumn⟩
  · intro h
    obtain ⟨entry, hMem, condition, hEntry, hColumn⟩ := h
    exact ⟨condition, ⟨entry, hMem, hEntry⟩, hColumn⟩

end Paging.Sql

namespace Paging.Filter

open Paging.Keyed Paging.Sql

/-! ## Nodes -/

/-- The keys under which a node keeps what it asks for, as far as they can be taken for columns. -/
def reservedColumns : List String := ["equals", "gt", "gte", "in", "is", "lt", "lte"]

/-- Columns that are reserved, one of them at least. -/
def Reserved (columns : List String) : Prop :=
  columns ≠ [] ∧ ∀ column ∈ columns, column ∈ reservedColumns

/-- A node that asks for something, and compares with literals only. -/
def Node.Sound : Node → Prop
  | .condition leaf => leaf.comparisons ≠ [] ∧ ∀ entry ∈ leaf.comparisons, IsLiteral entry.2
  | .related clause => clause ≠ []
  | .relatedAll _ => True

namespace Node

/-- A sound node is a condition, or it asks for related records under the key `is`. -/
theorem toJson_of_sound {node : Node} (hSound : node.Sound) :
    (∃ leaf, node = .condition leaf) ∨
      ∃ body, node.toJson = .obj [("is", body)] ∧ body ≠ .obj [] := by
  cases node with
  | condition leaf => exact .inl ⟨leaf, rfl⟩
  | related clause =>
      obtain ⟨entry, rest, rfl⟩ := List.exists_cons_of_ne_nil
        (show clause ≠ [] from hSound)
      exact .inr ⟨.obj (entriesToJson (entry :: rest)), rfl, by simp [entriesToJson]⟩
  | relatedAll clauses => exact .inr ⟨_, rfl, by simp⟩

theorem toJson_ne_of_sound {node : Node} (hSound : node.Sound) : node.toJson ≠ .obj [] := by
  intro hEmpty
  rcases toJson_of_sound hSound with ⟨leaf, rfl⟩ | ⟨body, hBody, -⟩
  · obtain ⟨hNe, hLiteral⟩ := hSound
    cases leaf with
    | equals value =>
        have hValue : IsLiteral value := hLiteral (.eq, value) List.mem_cons_self
        rw [show value = .obj [] from hEmpty] at hValue
        exact hValue
    | operators entries => exact hNe (List.map_eq_nil_iff.1 (Json.obj.inj hEmpty))
  · rw [hBody] at hEmpty
    cases hEmpty

/-- Under the name of a column a sound node becomes a condition that mentions this column, provided
that it does not ask for related records. -/
theorem columns_of_columnCondition {node : Node} (hSound : node.Sound) {column : String}
    {condition : Sql.Condition} (hOk : columnCondition column node.toJson = .ok condition) :
    (∃ leaf, node = .condition leaf) ∧ ∀ other, other ∈ condition.columns ↔ other = column := by
  refine ⟨?_, mem_columns_columnCondition hOk (toJson_ne_of_sound hSound)⟩
  rcases toJson_of_sound hSound with hLeaf | ⟨body, hBody, -⟩
  · exact hLeaf
  · rw [hBody] at hOk
    cases hOk

end Node

/-- No objects are made of a literal. -/
theorem memberConditions_ne_ok {value : Json} (hLiteral : IsLiteral value)
    (conditions : List Sql.Condition) : memberConditions value ≠ .ok conditions := by
  intro hOk
  cases value with
  | arr items => exact hLiteral
  | obj entries => exact hLiteral
  | null => cases hOk
  | bool b => cases hOk
  | num n => cases hOk
  | str s => cases hOk

/-- The key of an operator in the place of a column. -/
theorem reserved_of_operator {op : Operator} {value : Json} (hLiteral : IsLiteral value)
    {condition : Sql.Condition} (hOk : entryCondition (op.key, value) = .ok condition) :
    Reserved condition.columns := by
  have hNe : value ≠ .obj [] := by
    intro hEmpty
    rw [hEmpty] at hLiteral
    exact hLiteral
  by_cases hNot : op = .neq
  · -- The key `NOT` joins objects, and a literal is none.
    rw [hNot] at hOk
    obtain ⟨conditions, hMembers, -⟩ := Results.map_eq_ok_iff.1 hOk
    exact absurd hMembers (memberConditions_ne_ok hLiteral conditions)
  · have hKey : op.key ∉ ["AND", "OR", "NOT"] ∧ op.key ∈ reservedColumns := by
      revert hNot
      cases op <;> decide
    rw [entryCondition, Joint.ofKey?_eq_none hKey.1] at hOk
    have hColumns := mem_columns_columnCondition hOk hNe
    refine ⟨List.ne_nil_of_mem ((hColumns op.key).2 rfl), ?_⟩
    intro column hMem
    rw [(hColumns column).1 hMem]
    exact hKey.2

theorem reserved_of_object {entries : List (String × Json)} (hNe : entries ≠ [])
    (hEach : ∀ entry ∈ entries, ∀ condition, entryCondition entry = .ok condition →
      Reserved condition.columns)
    {conditions : List Sql.Condition} (hOk : memberConditions (.obj entries) = .ok conditions) :
    Reserved (conditions.flatMap Sql.Condition.columns) := by
  obtain ⟨inner, hInner, hEq⟩ := Results.bind_eq_ok_iff.1 hOk
  have hSame : conditions.flatMap Sql.Condition.columns =
      inner.flatMap Sql.Condition.columns := by
    rw [← Except.ok.inj hEq, List.flatMap_singleton]
    exact Joint.columns_join .all inner
  rw [hSame]
  have hColumns := mem_columns_entryConditions hInner
  constructor
  · obtain ⟨first, hFirst⟩ := List.exists_mem_of_ne_nil entries hNe
    rw [entryConditions_eq_mapM] at hInner
    obtain ⟨condition, -, hCondition⟩ := Results.exists_of_mapM_eq_ok hInner hFirst
    obtain ⟨column, hMem⟩ := List.exists_mem_of_ne_nil _ (hEach first hFirst condition hCondition).1
    exact List.ne_nil_of_mem ((hColumns column).2 ⟨first, hFirst, condition, hCondition, hMem⟩)
  · intro column hMem
    obtain ⟨entry, hEntry, condition, hCondition, hMention⟩ := (hColumns column).1 hMem
    exact (hEach entry hEntry condition hCondition).2 column hMention

/-- Under a joint a node is taken for an object, and the keys under which it keeps what it asks for
are taken for columns. -/
theorem Node.reserved_of_memberConditions {node : Node} (hSound : node.Sound)
    {conditions : List Sql.Condition} (hOk : memberConditions node.toJson = .ok conditions) :
    Reserved (conditions.flatMap Sql.Condition.columns) := by
  rcases toJson_of_sound hSound with ⟨leaf, rfl⟩ | ⟨body, hBody, hNe⟩
  · obtain ⟨hNe, hLiteral⟩ := hSound
    cases leaf with
    | equals value =>
        have hValue : IsLiteral value := hLiteral (.eq, value) List.mem_cons_self
        exact absurd hOk (memberConditions_ne_ok hValue conditions)
    | operators entries =>
        refine reserved_of_object (fun hNil => hNe (List.map_eq_nil_iff.1 hNil)) ?_ hOk
        intro entry hMem condition hCondition
        obtain ⟨comparison, hComparison, rfl⟩ := List.mem_map.1 hMem
        exact reserved_of_operator (hLiteral comparison hComparison) hCondition
  · rw [hBody] at hOk
    refine reserved_of_object (List.cons_ne_nil _ _) ?_ hOk
    intro entry hMem condition hCondition
    rw [List.mem_singleton.1 hMem] at hCondition
    have hColumns : ∀ other, other ∈ condition.columns ↔ other = "is" :=
      mem_columns_columnCondition hCondition hNe
    refine ⟨List.ne_nil_of_mem ((hColumns "is").2 rfl), ?_⟩
    intro column hMention
    rw [(hColumns column).1 hMention]
    decide

theorem Node.reserved_of_entryCondition {node : Node} (hSound : node.Sound) {key : String}
    (hKey : key ∈ ["AND", "OR", "NOT"]) {condition : Sql.Condition}
    (hOk : entryCondition (key, node.toJson) = .ok condition) : Reserved condition.columns := by
  have hJoint : ∃ joint, Joint.ofKey? key = some joint := by
    simp only [List.mem_cons, List.not_mem_nil, or_false] at hKey
    rcases hKey with rfl | rfl | rfl
    · exact ⟨.all, rfl⟩
    · exact ⟨.any, rfl⟩
    · exact ⟨.none, rfl⟩
  obtain ⟨joint, hJoint⟩ := hJoint
  rw [entryCondition, hJoint] at hOk
  obtain ⟨conditions, hMembers, rfl⟩ := Results.map_eq_ok_iff.1 hOk
  rw [Joint.columns_join]
  exact Node.reserved_of_memberConditions hSound hMembers

end Paging.Filter
