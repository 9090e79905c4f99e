import Paging.Proofs.Truth
import Paging.Proofs.Units
import Paging.Sql.Compile

/-!
# Flat filters as conditions

In flat mode a list of tokens becomes a clause whose entries are conditions on columns, and the
clause becomes a condition again. Of all the tokens the last one with each field and operator
survives (`surviving`), and the condition is the conjunction of the comparisons that the survivors
make (`filterCondition_compile_flat`). Only null can be in the way: it has no order, and no list
holds it.
-/

namespace Paging.Sql

/-- A condition that holds where all of some comparisons do, and that makes no others. -/
structure Condition.Conjoins (condition : Condition) (atoms : List Atom) : Prop where
  truth_eq : ∀ interp, condition.truth interp = Truth.all (atoms.map interp)
  mem_atoms_iff : ∀ a, a ∈ condition.atoms ↔ a ∈ atoms

theorem Truth.all_flatMap {α : Type} (values : α → List Truth) (items : List α) :
    all (items.flatMap values) = all (items.map fun item => all (values item)) := by
  induction items with
  | nil => rfl
  | cons item rest ih => rw [List.flatMap_cons, all_append, ih, List.map_cons, all_cons]

/-- A conjunction of conjunctions is one conjunction. -/
theorem Condition.conjoins_join_ofAtoms (groups : List (List Atom)) :
    (join .all (groups.map (ofAtoms .all))).Conjoins groups.flatten := by
  constructor
  · intro interp
    have hGroups : (groups.map (ofAtoms .all)).map (truth interp) =
        groups.map fun atoms => Truth.all (atoms.map interp) := by
      rw [List.map_map]
      exact List.map_congr_left fun atoms _ => truth_ofAtoms interp .all atoms
    rw [truth_join, hGroups, List.map_flatten, ← List.flatMap_def, Truth.all_flatMap]
    rfl
  · intro a
    have hAtoms : (groups.map (ofAtoms .all)).flatMap atoms = groups.flatten := by
      rw [List.flatMap_map, List.flatten_eq_flatMap]
      exact List.flatMap_congr fun atoms _ => atoms_ofAtoms .all atoms
    rw [atoms_join, hAtoms]

theorem Condition.Conjoins.congr {condition : Condition} {atoms atoms' : List Atom}
    (hConjoins : condition.Conjoins atoms) (hSame : ∀ a, a ∈ atoms ↔ a ∈ atoms') :
    condition.Conjoins atoms' := by
  constructor
  · intro interp
    rw [hConjoins.truth_eq]
    apply Truth.all_congr
    intro value
    simp only [List.mem_map, hSame]
  · intro a
    rw [hConjoins.mem_atoms_iff, hSame]

theorem Joint.ofKey?_eq_none {key : String} (hKey : key ∉ ["AND", "OR", "NOT"]) :
    ofKey? key = Option.none := by
  simp only [List.mem_cons, List.not_mem_nil, or_false, not_or] at hKey
  rw [ofKey?, if_neg hKey.1, if_neg hKey.2.1, if_neg hKey.2.2]

end Paging.Sql

namespace Paging.Filter

open Paging.Keyed Paging.Sql

/-! ## Comparisons -/

/-- A value that is not made of other values. -/
def IsLiteral : Json → Prop
  | .arr _ | .obj _ => False
  | _ => True

theorem isLiteral_literal (text : List Char) : IsLiteral (literal text) := by
  unfold literal
  split
  · trivial
  · split
    · trivial
    · split
      · trivial
      · split <;> trivial

theorem isLiteral_of_parse {token : String} {filter : Filter}
    (hParse : parse token = .ok filter) : IsLiteral filter.value := by
  unfold parse at hParse
  cases hSplit : split? token with
  | error e =>
      rw [hSplit] at hParse
      cases hParse
  | ok parts =>
      rw [hSplit] at hParse
      cases hParse
      exact isLiteral_literal _

/-- The comparison that an operator stands for. -/
def Operator.atom (column : String) (value : Value) : Operator → Atom
  | .eq => .compare column .eq value
  | .neq => .compare column .ne value
  | .gt => .compare column .gt value
  | .gte => .compare column .gte value
  | .lt => .compare column .lt value
  | .lte => .compare column .lte value
  | .isIn => .isIn column [value]

/-- The comparison that a filter stands for. That a column is null, or is not, has a form of its
own; there are no other comparisons with null. -/
def atom? (filter : Filter) : Option Atom :=
  match filter.operator, filter.value with
  | .eq, .null => some (.isNull filter.field)
  | .neq, .null => some (.isNotNull filter.field)
  | op, value => (scalar value).toOption.map fun bound => op.atom filter.field bound

theorem exists_atom?_iff {filter : Filter} (hLiteral : IsLiteral filter.value) :
    (∃ a, filter.atom? = some a) ↔
      (filter.value = .null → filter.operator = .eq ∨ filter.operator = .neq) := by
  obtain ⟨field, op, value⟩ := filter
  cases value with
  | null => cases op <;> simp [atom?, scalar, Except.toOption]
  | bool b => cases op <;> simp [atom?, scalar, Except.toOption]
  | num n => cases op <;> simp [atom?, scalar, Except.toOption]
  | str s => cases op <;> simp [atom?, scalar, Except.toOption]
  | arr items => exact hLiteral.elim
  | obj entries => exact hLiteral.elim

/-- The key of an operator is read back as that operator. -/
theorem toOption_comparison {column : String} {op : Operator} {value : Json}
    (hLiteral : IsLiteral value) :
    (comparison column op.key value).toOption = atom? ⟨column, op, value⟩ := by
  cases value with
  | null => cases op <;> rfl
  | bool b => cases op <;> rfl
  | num n => cases op <;> rfl
  | str s => cases op <;> rfl
  | arr items => exact hLiteral.elim
  | obj entries => exact hLiteral.elim

/-- The comparisons that stand under one key of a clause, without those on related records. -/
def Node.comparisons (key : String) : Node → List Filter
  | .condition leaf => leaf.comparisons.map fun (op, value) => ⟨key, op, value⟩
  | _ => []

/-- The comparisons that a clause makes, without those on related records. -/
def Clause.comparisons (clause : Clause) : List Filter :=
  clause.flatMap fun entry => entry.2.comparisons entry.1

theorem mem_comparisons_condition {key : String} {condition : Condition} {filter : Filter} :
    filter ∈ (Node.condition condition).comparisons key ↔
      filter.field = key ∧ (filter.operator, filter.value) ∈ condition.comparisons := by
  rw [Node.comparisons, List.mem_map]
  constructor
  · intro h
    obtain ⟨entry, hMem, rfl⟩ := h
    exact ⟨rfl, hMem⟩
  · intro h
    obtain ⟨rfl, hMem⟩ := h
    exact ⟨_, hMem, rfl⟩

/-! ## Clauses on columns -/

/-- An entry that puts a condition on a column. -/
def IsColumn (entry : String × Node) : Prop :=
  entry.1 ∉ ["AND", "OR", "NOT"] ∧
    ∃ condition : Condition, entry.2 = .condition condition ∧
      ∀ comparison ∈ condition.comparisons, IsLiteral comparison.2

theorem toOption_columnCondition {column : String} {condition : Condition}
    (hLiteral : ∀ comparison ∈ condition.comparisons, IsLiteral comparison.2) :
    (columnCondition column condition.toJson).toOption =
      (((Node.condition condition).comparisons column).mapM atom?).map (.ofAtoms .all) := by
  cases condition with
  | equals value =>
      have hValue : IsLiteral value := hLiteral (.eq, value) List.mem_cons_self
      cases value with
      | null => rfl
      | bool b => rfl
      | num n => rfl
      | str s => rfl
      | arr items => exact hValue.elim
      | obj entries => exact hValue.elim
  | operators entries =>
      have hMembers : (entries.map fun entry => (entry.1.key, entry.2)).mapM
          (fun entry => (comparison column entry.1 entry.2).toOption) =
          (entries.map fun entry => (⟨column, entry.1, entry.2⟩ : Filter)).mapM atom? := by
        rw [List.mapM_map, List.mapM_map]
        exact Results.mapM_congr fun entry hMem => toOption_comparison (hLiteral entry hMem)
      show (do
        let atoms ← (entries.map fun entry => (entry.1.key, entry.2)).mapM
          fun entry => comparison column entry.1 entry.2
        return Sql.Condition.ofAtoms .all atoms : Except QueryError Sql.Condition).toOption = _
      rw [Results.toOption_bind_pure, Results.toOption_mapM, hMembers]
      rfl

/-- The entries of a clause on columns become conditions one by one. -/
theorem toOption_entryConditions {clause : Clause} (hColumns : ∀ entry ∈ clause, IsColumn entry) :
    (entryConditions (entriesToJson clause)).toOption =
      clause.mapM fun entry =>
        ((entry.2.comparisons entry.1).mapM atom?).map (Sql.Condition.ofAtoms .all) := by
  induction clause with
  | nil => rfl
  | cons entry rest ih =>
      obtain ⟨key, node⟩ := entry
      obtain ⟨hKey, condition, rfl, hLiteral⟩ := hColumns (key, node) List.mem_cons_self
      have hRest := ih fun other hMem => hColumns other (List.mem_cons_of_mem _ hMem)
      rw [List.mapM_cons, ← hRest, ← toOption_columnCondition hLiteral, entriesToJson,
        entryConditions, Joint.ofKey?_eq_none hKey, Node.toJson]
      dsimp only
      rw [Results.toOption_bind]
      refine congrArg _ (funext fun first => ?_)
      rw [Results.toOption_bind]
      rfl

/-- A clause on columns becomes the conjunction of its comparisons, provided that each of them has
a form. -/
theorem filterCondition_toJson {clause : Clause} (hColumns : ∀ entry ∈ clause, IsColumn entry) :
    ((∃ condition, filterCondition clause.toJson = .ok condition) ↔
      ∀ filter ∈ clause.comparisons, ∃ a, filter.atom? = some a) ∧
    ∀ condition, filterCondition clause.toJson = .ok condition →
      ∃ atoms, clause.comparisons.mapM atom? = some atoms ∧ condition.Conjoins atoms := by
  let groups? := clause.mapM fun entry => (entry.2.comparisons entry.1).mapM atom?
  have hFilter : (filterCondition clause.toJson).toOption =
      groups?.map fun groups => .join .all (groups.map (.ofAtoms .all)) := by
    rw [Clause.toJson, filterCondition, Results.toOption_bind_pure,
      toOption_entryConditions hColumns, Results.mapM_map_eq, Option.map_map]
    rfl
  have hAtoms : clause.comparisons.mapM atom? = groups?.map List.flatten :=
    Results.mapM_flatMap _ _ _
  rw [← Results.exists_mapM_eq_some_iff, hAtoms]
  simp only [← Results.toOption_eq_some_iff, hFilter]
  cases groups? with
  | none => simp
  | some groups =>
      refine ⟨by simp, ?_⟩
      intro condition hSome
      cases hSome
      exact ⟨groups.flatten, rfl, Sql.Condition.conjoins_join_ofAtoms groups⟩

/-! ## Tokens -/

/-- The filters that survive in flat mode: under each field and operator the last one. -/
def surviving (read : String → Filter) (tokens : List String) : List Filter :=
  lastsBy (fun filter => (filter.field, filter.operator)) (tokens.eraseDups.map read)

section Reading

variable {read : String → Filter} {tokens : List String}

/-- The survivors are those that survive in their units. -/
theorem mem_surviving_iff {filter : Filter} :
    filter ∈ surviving read tokens ↔
      ∃ unit ∈ units .flat read tokens, filter ∈ lastsBy Filter.operator unit := by
  have hUnit : ∀ unit ∈ units .flat read tokens, filter ∈ unit →
      unit = (tokens.eraseDups.map read).filter fun other => other.field = filter.field := by
    intro unit hMem hFilter
    rw [unit_eq_filter hMem hFilter]
    simp [Key.ofField_flat]
  rw [surviving, mem_lastsBy_pair_iff]
  constructor
  · intro hLast
    have hMem := (List.mem_filter.1 (mem_of_mem_lastsBy hLast)).1
    obtain ⟨token, hToken, rfl⟩ := List.mem_map.1 hMem
    obtain ⟨unit, hMemUnit, hRead⟩ := exists_unit_of_mem (List.mem_eraseDups.1 hToken)
    rw [← hUnit unit hMemUnit hRead] at hLast
    exact ⟨unit, hMemUnit, hLast⟩
  · intro h
    obtain ⟨unit, hMem, hLast⟩ := h
    rw [← hUnit unit hMem (mem_of_mem_lastsBy hLast)]
    exact hLast

/-- The entry of a unit makes the comparisons that survive in the unit. -/
theorem mem_comparisons_unitClause {unit : List Filter} (hMem : unit ∈ units .flat read tokens)
    {filter : Filter} :
    filter ∈ (unitClause .flat unit).comparisons ↔ filter ∈ lastsBy Filter.operator unit := by
  obtain ⟨key, hUnit, -⟩ := exists_isUnit_of_mem hMem
  have hField : ∀ other ∈ unit, other.field = topKey .flat unit := by
    intro other hOther
    exact Key.field.inj ((hUnit.ofField other hOther).trans hUnit.field_topKey.symm)
  obtain ⟨first, rest, rfl, -⟩ := hUnit.exists_cons
  have hClause : (unitClause .flat (first :: rest)).comparisons =
      (Node.condition (mergedCondition first rest)).comparisons first.field :=
    List.append_nil _
  rw [hClause, mem_comparisons_condition, mem_comparisons_mergedCondition]
  constructor
  · intro h
    obtain ⟨hFirst, other, hLast, hEq⟩ := h
    have hOther : other = filter := by
      obtain ⟨hOp, hValue⟩ := Prod.mk.inj hEq
      have hSame : other.field = filter.field := by
        rw [hField other (mem_of_mem_lastsBy hLast), hFirst]
        rfl
      exact Filter.ext hSame hOp.symm hValue.symm
    rw [← hOther]
    exact hLast
  · intro hLast
    exact ⟨hField filter (mem_of_mem_lastsBy hLast), filter, hLast, rfl⟩

/-- The condition of a unit compares with literals. -/
theorem isLiteral_of_mem_mergedCondition {mode : Mode}
    (hRead : ∀ token ∈ tokens, parse token = .ok (read token)) {first : Filter}
    {rest : List Filter} (hMem : first :: rest ∈ units mode read tokens) :
    ∀ comparison ∈ (mergedCondition first rest).comparisons, IsLiteral comparison.2 := by
  intro comparison hComparison
  obtain ⟨filter, hLast, rfl⟩ := mem_comparisons_mergedCondition.1 hComparison
  obtain ⟨token, hToken, rfl⟩ := exists_token_of_mem_unit hMem (mem_of_mem_lastsBy hLast)
  exact isLiteral_of_parse (hRead token hToken)

/-- The entry of a unit is on a column. -/
theorem isColumn_of_mem_unitClause (hRead : ∀ token ∈ tokens, parse token = .ok (read token))
    (hColumn : ∀ token ∈ tokens, (read token).field ∉ ["AND", "OR", "NOT"])
    {unit : List Filter} (hMem : unit ∈ units .flat read tokens) {entry : String × Node}
    (hEntry : entry ∈ unitClause .flat unit) : IsColumn entry := by
  obtain ⟨key, hUnit, -⟩ := exists_isUnit_of_mem hMem
  obtain ⟨first, rest, rfl, -⟩ := hUnit.exists_cons
  have hEq : entry = (first.field, .condition (mergedCondition first rest)) :=
    List.mem_singleton.1 hEntry
  rw [hEq]
  refine ⟨?_, mergedCondition first rest, rfl, isLiteral_of_mem_mergedCondition hRead hMem⟩
  obtain ⟨token, hToken, rfl⟩ := exists_token_of_mem_unit hMem List.mem_cons_self
  exact hColumn token hToken

/-- Two lists with the same items have the same comparisons, or neither has. -/
theorem exists_mapM_atom? {filters filters' : List Filter} {atoms : List Atom}
    (hSame : ∀ filter, filter ∈ filters ↔ filter ∈ filters')
    (hSome : filters.mapM atom? = some atoms) :
    ∃ atoms', filters'.mapM atom? = some atoms' ∧ ∀ a, a ∈ atoms ↔ a ∈ atoms' := by
  have hAll := Results.exists_mapM_eq_some_iff.1 ⟨atoms, hSome⟩
  obtain ⟨atoms', hSome'⟩ := Results.exists_mapM_eq_some_iff.2
    fun filter hMem => hAll filter ((hSame filter).2 hMem)
  refine ⟨atoms', hSome', ?_⟩
  intro a
  rw [Results.mem_of_mapM_eq_some hSome, Results.mem_of_mapM_eq_some hSome']
  exact exists_congr fun filter => and_congr_left fun _ => hSame filter

/-- Compiling flat tokens gives the entries of all units, and the clause makes the comparisons of the
survivors, by keys and not in their order. -/
theorem exists_compile_flat_eq_ok (hRead : ∀ token ∈ tokens, parse token = .ok (read token)) :
    ∃ clause, (compile .flat tokens).run.value = .ok clause ∧ clause.Sorted ∧
      (∀ entry, entry ∈ clause ↔
        ∃ unit ∈ units .flat read tokens, entry ∈ unitClause .flat unit) ∧
      ∀ filter, filter ∈ clause.comparisons ↔ filter ∈ surviving read tokens := by
  obtain ⟨clause, hRun, hSorted, hEntries⟩ := exists_run_compile_flat_eq hRead
  refine ⟨clause, congrArg Logged.value hRun, hSorted, hEntries, ?_⟩
  intro filter
  rw [mem_surviving_iff, Clause.comparisons, List.mem_flatMap]
  constructor
  · intro h
    obtain ⟨entry, hMem, hFilter⟩ := h
    obtain ⟨unit, hUnit, hEntry⟩ := (hEntries entry).1 hMem
    exact ⟨unit, hUnit, (mem_comparisons_unitClause hUnit).1
      (List.mem_flatMap.2 ⟨entry, hEntry, hFilter⟩)⟩
  · intro h
    obtain ⟨unit, hUnit, hLast⟩ := h
    obtain ⟨entry, hEntry, hFilter⟩ :=
      List.mem_flatMap.1 ((mem_comparisons_unitClause hUnit).2 hLast)
    exact ⟨entry, (hEntries entry).2 ⟨unit, hUnit, hEntry⟩, hFilter⟩

/-- **Flat filters keep their meaning.** Tokens on columns compile to a clause, the clause becomes a
condition unless a survivor compares null by order or with a list, and the condition is the
conjunction of the comparisons that the survivors make. -/
theorem filterCondition_compile_flat (hRead : ∀ token ∈ tokens, parse token = .ok (read token))
    (hColumn : ∀ token ∈ tokens, (read token).field ∉ ["AND", "OR", "NOT"]) :
    ∃ clause, (compile .flat tokens).run.value = .ok clause ∧
      ((∃ condition, filterCondition clause.toJson = .ok condition) ↔
        ∀ filter ∈ surviving read tokens,
          filter.value = .null → filter.operator = .eq ∨ filter.operator = .neq) ∧
      (∀ condition, filterCondition clause.toJson = .ok condition →
        ∃ atoms, (surviving read tokens).mapM atom? = some atoms ∧ condition.Conjoins atoms) ∧
      (tokens = [] → ∀ condition, filterCondition clause.toJson = .ok condition →
        Expr.ofCondition condition = .constant true) := by
  obtain ⟨clause, hCompile, -, hEntries, hSame⟩ := exists_compile_flat_eq_ok hRead
  have hColumns : ∀ entry ∈ clause, IsColumn entry := by
    intro entry hMem
    obtain ⟨unit, hUnit, hEntry⟩ := (hEntries entry).1 hMem
    exact isColumn_of_mem_unitClause hRead hColumn hUnit hEntry
  obtain ⟨hSucceeds, hConjoins⟩ := filterCondition_toJson hColumns
  refine ⟨clause, hCompile, ?_, ?_, ?_⟩
  · rw [hSucceeds]
    refine forall_congr' fun filter => ?_
    rw [hSame filter]
    refine forall_congr' fun hSurvives => exists_atom?_iff ?_
    obtain ⟨token, hToken, rfl⟩ := List.mem_map.1 (mem_of_mem_lastsBy hSurvives)
    exact isLiteral_of_parse (hRead token (List.mem_eraseDups.1 hToken))
  · intro condition hCondition
    obtain ⟨atoms, hAtoms, hConjoins⟩ := hConjoins condition hCondition
    obtain ⟨atoms', hAtoms', hSameAtoms⟩ := exists_mapM_atom? hSame hAtoms
    exact ⟨atoms', hAtoms', hConjoins.congr hSameAtoms⟩
  · intro hNil condition hCondition
    subst hNil
    have hEmpty : clause = [] := (Except.ok.inj hCompile).symm
    subst hEmpty
    cases hCondition
    rfl

/-- Of two tokens with one operator the later one counts, so that the null is gone. -/
theorem filterCondition_compile_flat_age :
    ∃ clause, (compile .flat ["age>=18", "age!=null", "age!=30"]).run.value = .ok clause ∧
      ∃ condition, filterCondition clause.toJson = .ok condition ∧
        condition.Conjoins [.compare "age" .gte (.bigInt 18), .compare "age" .ne (.bigInt 30)] := by
  have hColumn : ∀ token ∈ ["age>=18", "age!=null", "age!=30"],
      (readD token).field ∉ ["AND", "OR", "NOT"] := by
    decide
  have hSurviving : surviving readD ["age>=18", "age!=null", "age!=30"] =
      [⟨"age", .gte, .num (.int 18)⟩, ⟨"age", .neq, .num (.int 30)⟩] := by
    rfl
  have hRead := parse_eq_readD (show ∀ token ∈ ["age>=18", "age!=null", "age!=30"],
    (parse token).toOption.isSome by decide)
  obtain ⟨clause, hCompile, hSucceeds, hConjoins, -⟩ := filterCondition_compile_flat hRead hColumn
  rw [hSurviving] at hSucceeds hConjoins
  obtain ⟨condition, hCondition⟩ := hSucceeds.2 (by simp)
  obtain ⟨atoms, hAtoms, hMeans⟩ := hConjoins condition hCondition
  cases hAtoms
  exact ⟨clause, hCompile, condition, hCondition, hMeans⟩

end Reading

end Paging.Filter
