import Paging.Proofs.LinkTargets
import Paging.Proofs.PlannedColumns
import Paging.Response

/-!
# Whose fault a failure is

A request is refused before anything is asked of the store, and only a request that has no plan or
whose plan the store rejects is. A request that is accepted can fail through the store alone
(`Run.Follows`).

The SQL store compiles a query three times: when it validates it, for the records and for the count.
What the first compilation accepts, the others compile as well and under the same condition. So what
is left for an accepted query to fail of is what the database does with the two statements
(`Database.Fault`), and none of it is shown to the user.
-/

namespace Paging

section Runs

variable {ρ ε : Type} (store : Store ρ ε) (settings : Settings) (model : String)
  (request : Request) (params : Params)

/-- The request has no plan, or one that the store rejects. -/
def Refused (error : QueryError) : Prop :=
  (Plan.make request params settings).run.value = .error error ∨
    ∃ plan, (Plan.make request params settings).run.value = .ok plan ∧
      (store.validate model plan.args).run.value = .error error

/-- The request has a plan, and the store does not reject it. -/
def Accepted (plan : Plan) : Prop :=
  (Plan.make request params settings).run.value = .ok plan ∧
    (store.validate model plan.args).run.value = .ok ()

/-- A run that asks the store for what is planned, and ends as the store does. -/
structure Run.Follows (plan : Plan) (run : Run ρ ε) : Prop where
  /-- The records are asked for, and if the count is, then under the same condition. -/
  calls : run.calls = [.findMany model plan.args] ∨
    run.calls = [.findMany model plan.args, .count model plan.args.where?]
  succeeds_iff : (∃ page, run.result = .ok page) ↔
    (∃ content, (store.findMany model plan.args).run.value = .ok content) ∧
      ∃ totalCount, (store.count model plan.args.where?).run.value = .ok totalCount
  /-- A failure is one of the store. -/
  failure : ∀ failure, run.result = .error failure → ∃ error, failure = .store error ∧
    ((store.findMany model plan.args).run.value = .error error ∨
      (store.count model plan.args.where?).run.value = .error error)

variable {store settings model request params}

theorem value_prepare_eq_error_iff {error : QueryError} :
    (prepare store settings model request params).run.value = .error error ↔
      Refused store settings model request params error := by
  have hDone : ∀ plan : Plan, (do store.validate model plan.args; return plan :
      Outcome QueryError Plan).run.value = .error error ↔
        (store.validate model plan.args).run.value = .error error := by
    intro plan
    rw [Results.value_bind_eq_error_iff]
    constructor
    · intro h
      rcases h with hInvalid | ⟨_, -, hPure⟩
      · exact hInvalid
      · cases hPure
    · exact .inl
  rw [prepare, Results.value_bind_eq_error_iff, Refused]
  simp only [hDone]

/-- A refused request asks nothing of the store. -/
theorem paginate_of_refused {error : QueryError}
    (hRefused : Refused store settings model request params error) :
    (paginate store settings model request params).calls = [] ∧
      (paginate store settings model request params).result = .error (.query error) := by
  have hValue := value_prepare_eq_error_iff.2 hRefused
  rw [paginate]
  rcases hRun : (prepare store settings model request params).run with ⟨log, result⟩
  rw [hRun] at hValue
  cases hValue
  exact ⟨rfl, rfl⟩

theorem follows_fetch (plan : Plan) :
    (fetch store model request plan).Follows store model plan := by
  rw [fetch]
  rcases hFind : (store.findMany model plan.args).run with ⟨log, error | content⟩
  · exact ⟨.inl rfl, by simp [hFind], by simp [hFind]⟩
  · rcases hCount : (store.count model plan.args.where?).run with ⟨more, error | totalCount⟩
    · exact ⟨.inr rfl, by simp [hCount], by simp [hCount]⟩
    · exact ⟨.inr rfl, by simp [hFind, hCount], by simp⟩

/-- An accepted request runs as it is planned. -/
theorem follows_paginate {plan : Plan}
    (hAccepted : Accepted store settings model request params plan) :
    (paginate store settings model request params).Follows store model plan := by
  have hFetch : (fetch store model request plan).Follows store model plan := follows_fetch plan
  have hValue := value_prepare_eq_ok_iff.2 hAccepted
  rw [paginate]
  rcases hRun : (prepare store settings model request params).run with ⟨log, result⟩
  rw [hRun] at hValue
  cases hValue
  exact ⟨hFetch.calls, hFetch.succeeds_iff, hFetch.failure⟩

variable (store settings model request params) in
/-- A request is either refused or accepted. -/
theorem exists_refused_or_exists_accepted :
    (∃ error, Refused store settings model request params error) ∨
      ∃ plan, Accepted store settings model request params plan := by
  cases hValue : (prepare store settings model request params).run.value with
  | error error => exact .inl ⟨error, value_prepare_eq_error_iff.1 hValue⟩
  | ok plan => exact .inr ⟨plan, value_prepare_eq_ok_iff.1 hValue⟩

/-- A run blames the request only where it is refused. -/
theorem result_paginate_eq_query_iff {error : QueryError} :
    (paginate store settings model request params).result = .error (.query error) ↔
      Refused store settings model request params error := by
  constructor
  · intro hQuery
    rcases exists_refused_or_exists_accepted store settings model request params with
      ⟨other, hRefused⟩ | ⟨plan, hAccepted⟩
    · rw [(paginate_of_refused hRefused).2] at hQuery
      cases hQuery
      exact hRefused
    · obtain ⟨_, hStore, -⟩ := (follows_paginate hAccepted).failure _ hQuery
      cases hStore
  · intro hRefused
    exact (paginate_of_refused hRefused).2

end Runs

/-! ## Databases -/

namespace Sql

/-- What a database does wrong with the two statements of a query. -/
inductive Database.Fault (db : Database) (model : String) (select : Select) (count : Count) :
    DbError → Prop where
  /-- The records cannot be had. -/
  | rows {error : DbError} (hRows : db.rows (select.statement db.dialect) = .error error) :
      Fault db model select count error
  /-- The count cannot be had. -/
  | row {error : DbError} (hRow : db.row (count.statement db.dialect) = .error error) :
      Fault db model select count error
  /-- There is no row with the count. -/
  | noRow (hRow : db.row (count.statement db.dialect) = .ok none) :
      Fault db model select count (.recordNotFound ("count of " ++ model))
  /-- The row holds no count. -/
  | noCount {row : Row} {error : DbError}
      (hRow : db.row (count.statement db.dialect) = .ok (some row))
      (hCount : countOfRow row = .error error) : Fault db model select count error

variable {db : Database} {model : String} {args : Args}

/-- A query that compiles sends its statement. -/
theorem Database.value_findMany {select : Select}
    (hSelect : (Select.ofArgs model args).run.value = .ok select) :
    (db.findMany model args).run.value =
      (db.rows (select.statement db.dialect)).map (List.map Row.toJson) := by
  have hAdapted : (ExceptT.adapt DbError.ofQueryError (Select.ofArgs model args)).run.value =
      .ok select := by
    show (Select.ofArgs model args).run.value.mapError DbError.ofQueryError = _
    rw [hSelect]
    rfl
  rw [findMany, Results.value_bind_of_eq_ok hAdapted]
  cases db.rows (select.statement db.dialect) <;> rfl

/-- So does the query for a count. -/
theorem Database.value_count {count : Count}
    (hCount : Count.ofFilter model args.where? = .ok count) :
    (db.store.count model args.where?).run.value =
      (do
        match ← db.row (count.statement db.dialect) with
        | some row => countOfRow row
        | none => .error (.recordNotFound ("count of " ++ model))) := by
  have hValue : (db.store.count model args.where?).run.value = db.count model args.where? := by
    show (liftM (db.count model args.where?) : Outcome DbError UInt64).run.value = _
    cases db.count model args.where? <;> rfl
  rw [hValue, Database.count, hCount]
  rfl

/-- Calls whose queries compile fail of what the database does, and of nothing else. -/
theorem Database.fault_iff {select : Select} {count : Count}
    (hSelect : (Select.ofArgs model args).run.value = .ok select)
    (hCount : Count.ofFilter model args.where? = .ok count) {error : DbError} :
    db.Fault model select count error ↔
      (db.store.findMany model args).run.value = .error error ∨
        (db.store.count model args.where?).run.value = .error error := by
  have hFind : (db.store.findMany model args).run.value = .error error ↔
      db.rows (select.statement db.dialect) = .error error := by
    show (db.findMany model args).run.value = _ ↔ _
    rw [Database.value_findMany hSelect]
    cases db.rows (select.statement db.dialect) <;> simp [Except.map]
  rw [hFind, Database.value_count hCount, Results.bind_eq_error_iff]
  constructor
  · intro hFault
    cases hFault with
    | rows hRows => exact .inl hRows
    | row hRow => exact .inr (.inl hRow)
    | noRow hRow => exact .inr (.inr ⟨none, hRow, rfl⟩)
    | noCount hRow hCell => exact .inr (.inr ⟨some _, hRow, hCell⟩)
  · intro h
    rcases h with hRows | hRow | ⟨row?, hRow, hAnswer⟩
    · exact .rows hRows
    · exact .row hRow
    · cases row? with
      | none =>
          cases hAnswer
          exact .noRow hRow
      | some row => exact .noCount hRow hAnswer

end Sql

/-- **Faults are told apart.** A run blames the request exactly where it is refused, with that
error and before any call; the response has status 400. An accepted request asks for what is
planned, succeeds if both calls do, and fails of nothing else. A query that the SQL store accepts
compiles at every call and under one condition, so that its calls fail exactly of what the database
does. Whatever the store's error is and however it is worded, the response is the same. -/
theorem paginate_tells_faults_apart {ρ ε : Type} (store : Store ρ ε) (db : Sql.Database)
    (settings : Settings) (model : String) (request : Request) (params : Params) :
    (∀ error, (paginate store settings model request params).result = .error (.query error) ↔
      Refused store settings model request params error) ∧
    (∀ error, Refused store settings model request params error →
      (paginate store settings model request params).calls = []) ∧
    (∀ plan, Accepted store settings model request params plan →
      (paginate store settings model request params).Follows store model plan) ∧
    (∀ args, (db.store.validate model args).run.value = .ok () → ∃ select count,
      (Sql.Select.ofArgs model args).run.value = .ok select ∧
        Sql.Count.ofFilter model args.where? = .ok count ∧ count.where? = select.where? ∧
        ∀ error, (db.store.findMany model args).run.value = .error error ∨
          (db.store.count model args.where?).run.value = .error error ↔
            db.Fault model select count error) ∧
    (∀ (text : ε → String) error, (Response.ofFailure text (.query error)).value.status = 400) ∧
    ∀ (text : ε → String) first second,
      (Response.ofFailure text (.store first)).value.status = 500 ∧
        (Response.ofFailure text (.store first)).value =
          (Response.ofFailure text (.store second)).value := by
  refine ⟨?_, ?_, ?_, ?_, ?_, ?_⟩
  · intro error
    exact result_paginate_eq_query_iff
  · intro error hRefused
    exact (paginate_of_refused hRefused).1
  · intro plan hAccepted
    exact follows_paginate hAccepted
  · intro args hValid
    obtain ⟨select, count, hSelect, hCount, hWhere⟩ :=
      Sql.Database.exists_queries_of_validate hValid
    refine ⟨select, count, hSelect, hCount, hWhere, ?_⟩
    intro error
    exact (Sql.Database.fault_iff hSelect hCount).symm
  · intro text error
    rfl
  · intro text first second
    exact ⟨rfl, rfl⟩

/-- A database without the row that holds the count, and a filter without an operator. -/
theorem paginate_tells_faults_apart_users :
    ∃ (db : Sql.Database) (params : Params) (plan : Plan) (select : Sql.Select) (count : Sql.Count),
      Accepted db.store {} "users" {} params plan ∧
      (paginate db.store {} "users" {} params).Follows db.store "users" plan ∧
      db.Fault "users" select count (.recordNotFound "count of users") ∧
      Refused db.store {} "users" { filter := some ["name"] } params (.invalidFilter "name") ∧
      (paginate db.store {} "users" { filter := some ["name"] } params).calls = [] := by
  let db : Sql.Database := { dialect := .sqlite, rows := fun _ => .ok [], row := fun _ => .ok none }
  let params : Params := { where? := some (.obj [("name", .str "Ada")]) }
  let plan : Plan := {
    window := ⟨1, 20, by decide, by decide⟩
    args := { skip := 0, take := 20, where? := params.where? }
    sort? := none }
  have hAccepted : Accepted db.store {} "users" {} params plan := by
    constructor
    · rfl
    · rfl
  have hRefused : Refused db.store {} "users" { filter := some ["name"] } params
      (.invalidFilter "name") := by
    left
    rfl
  obtain ⟨-, -, hFollows, hQueries, -⟩ :=
    paginate_tells_faults_apart db.store db {} "users" {} params
  obtain ⟨-, hNoCalls, -⟩ :=
    paginate_tells_faults_apart db.store db {} "users" { filter := some ["name"] } params
  obtain ⟨select, count, -, -, -, hFault⟩ := hQueries plan.args hAccepted.2
  refine ⟨db, params, plan, select, count, hAccepted, hFollows plan hAccepted, ?_, hRefused,
    hNoCalls _ hRefused⟩
  exact (hFault (.recordNotFound "count of users")).1 (.inr rfl)

end Paging
