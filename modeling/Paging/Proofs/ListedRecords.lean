import Paging.Proofs.Faults

/-!
# Stores of listed records

A store may hold a list of records and answer every query that it accepts with a stretch of that
list (`Store.Holds`). Whether it accepts a query could still depend on where the page begins, so
that one page is shown and another is refused. A store that ignores this shows all pages or none
(`Store.IgnoresSkip`).

Two kinds of stores do both: the store of a list (`Store.ofList`), and the SQL store over a database
that lists rows (`Sql.Database.holds_store`, `Sql.Database.ignoresSkip_store`).
-/

namespace Paging

section Lists

variable {ρ ε : Type}

/-- A store that holds just these records of a model, whatever the condition and the order of the
queries that it accepts. -/
structure Store.Holds (store : Store ρ ε) (model : String) (records : List ρ) : Prop where
  /-- Their number is a word. -/
  length_lt : records.length < UInt64.size
  findMany_eq : ∀ args, (store.validate model args).run.value = .ok () →
    (store.findMany model args).run.value =
      .ok ((records.drop args.skip.toNat).take args.take.toNat)
  count_eq : ∀ args, (store.validate model args).run.value = .ok () →
    (store.count model args.where?).run.value = .ok (.ofNat records.length)

/-- Queries that differ in the number of records passed over are accepted or rejected alike. -/
def Store.IgnoresSkip (store : Store ρ ε) (model : String) : Prop :=
  ∀ args skip, (store.validate model { args with skip }).run.value =
    (store.validate model args).run.value

/-- The store of a list of records. It accepts every query. -/
def Store.ofList (records : List ρ) : Store ρ ε where
  findMany := fun _ args => pure ((records.drop args.skip.toNat).take args.take.toNat)
  count := fun _ _ => pure (.ofNat records.length)

theorem Store.holds_ofList {records : List ρ} (hLength : records.length < UInt64.size)
    (model : String) : (ofList records : Store ρ ε).Holds model records where
  length_lt := hLength
  findMany_eq := fun _ _ => rfl
  count_eq := fun _ _ => rfl

theorem Store.ignoresSkip_ofList (records : List ρ) (model : String) :
    (ofList records : Store ρ ε).IgnoresSkip model := fun _ _ => rfl

end Lists

namespace Sql

/-! ## Databases -/

/-- A database that lists just these rows of a model, whatever columns, condition and order it is
asked for. -/
structure Database.Lists (db : Database) (model : String) (rows : List Row) : Prop where
  /-- Their number fits into a cell. -/
  length_le : (rows.length : Int) ≤ Number.maxInt
  rows_eq : ∀ select : Select, select.model = model → db.rows (select.statement db.dialect) =
    .ok ((rows.drop select.offset.toNat).take select.limit.toNat)
  row_eq : ∀ count : Count, count.model = model →
    ∃ column, db.row (count.statement db.dialect) = .ok (some [(column, .int rows.length)])

theorem countOfRow_natCast (column : String) (rest : Row) {n : Nat}
    (hLe : (n : Int) ≤ Number.maxInt) : countOfRow ((column, .int n) :: rest) = .ok (.ofNat n) := by
  have hMin : Number.minInt ≤ n := by
    rw [Number.minInt]
    omega
  rw [countOfRow, if_pos ⟨hMin, hLe⟩, if_pos (Int.natCast_nonneg n), Int.toNat_natCast]

/-- The SQL store over a database that lists rows holds them as objects. -/
theorem Database.holds_store {db : Database} {model : String} {rows : List Row}
    (hLists : db.Lists model rows) : db.store.Holds model (rows.map Row.toJson) where
  length_lt := by
    have hLe := hLists.length_le
    rw [Number.maxInt] at hLe
    rw [List.length_map, UInt64.size]
    omega
  findMany_eq := by
    intro args hValid
    obtain ⟨select, hSelect, -⟩ := exists_select_of_validate hValid
    obtain ⟨-, -, hLimit, hOffset, hModel⟩ := Select.of_ofArgs_eq_ok hSelect
    show (db.findMany model args).run.value = _
    rw [Database.value_findMany hSelect, hLists.rows_eq select hModel, hLimit, hOffset,
      ← List.map_drop, ← List.map_take]
    rfl
  count_eq := by
    intro args hValid
    obtain ⟨_, count, -, hCount, -⟩ := Database.exists_queries_of_validate hValid
    obtain ⟨column, hRow⟩ := hLists.row_eq count (Count.of_ofFilter_eq_ok hCount).2
    rw [Database.value_count hCount, hRow, List.length_map]
    exact countOfRow_natCast column [] hLists.length_le

/-- Where a page begins is no reason for the SQL store to reject a query. -/
theorem Database.ignoresSkip_store (db : Database) (model : String) :
    db.store.IgnoresSkip model := by
  intro args skip
  rw [Database.value_validate, Database.value_validate, Select.value_ofArgs, Select.value_ofArgs]
  cases selectedColumns args.select? with
  | error e => rfl
  | ok columns =>
      cases whereCondition args.where? with
      | error e => rfl
      | ok where? => cases orderPairs args.orderBy? <;> rfl

/-- The database of a list of rows. The last two values of a statement bound what it gives; without
bounds it gives all rows. -/
def Database.ofRows (dialect : Dialect) (rows : List Row) : Database where
  dialect
  rows := fun statement =>
    match statement.values.reverse with
    | .word offset :: .word limit :: _ => .ok ((rows.drop offset.toNat).take limit.toNat)
    | _ => .ok rows
  row := fun _ => .ok (some [("count", .int rows.length)])

theorem Database.lists_ofRows (dialect : Dialect) {rows : List Row}
    (hLength : (rows.length : Int) ≤ Number.maxInt) (model : String) :
    (ofRows dialect rows).Lists model rows where
  length_le := hLength
  rows_eq := by
    intro select _
    have hValues := Select.values_statement_eq_append dialect select
    simp only [ofRows, hValues, List.reverse_append, List.reverse_cons, List.reverse_nil,
      List.nil_append, List.cons_append]
  row_eq := fun _ _ => ⟨"count", rfl⟩

end Sql

end Paging
