import Paging.Proofs.Literals
import Paging.Proofs.PlannedColumns

/-!
# Numbers on their way to the database

An integer reaches a statement in two ways: as the value of a flat token (`Spells`), or as an
operand of the caller's condition. It is bound as an integer if it has 64 bits with a sign, and
else as the double nearest to it; a token whose integer is too great for that is bound as its text.
So it stays what it is exactly if it has 64 bits or is a double (`number?_ofNumber_iff`,
`exists_bindings_literal`). `Database.numbers_of_validate` says so of the two statements of a query
that the store accepts.
-/

namespace Paging

open Paging.Double

namespace Filter

/-! ## Reading integers -/

/-- The sign and the digits of an integer that is not zero are those of its text. -/
theorem signed_eq {negative : Bool} {size : Nat} {n : Int} (hEq : n = signed negative size)
    (hNe : n ≠ 0) : decide (n < 0) = negative ∧ n.natAbs = size := by
  subst hEq
  cases negative <;> simp [signed] at hNe ⊢
  omega

theorem number?_of_spells {text : List Char} {n : Int} (hSpells : Spells text n) :
    number? text =
      if IsWordInt n then some (.int n)
      else (ofRatio? (decide (n < 0)) n.natAbs 1).map .float := by
  have hInteger : integer? text = if IsWordInt n then some n else none := by
    rw [integer?, readInt?_eq_some_iff.2 hSpells]
    rfl
  unfold number?
  rw [hInteger]
  split_ifs with hRange
  · rfl
  · have hNonzero : n ≠ 0 := by
      rintro rfl
      exact hRange ⟨by decide, by decide⟩
    obtain ⟨sign, hSign, digits, rfl, hNe, hDigits, hN⟩ := hSpells
    obtain ⟨hNegative, hSize⟩ := signed_eq hN hNonzero
    have hRead : Numeral.readDecimal? (sign ++ digits) = some ⟨sign = ['-'], digits, [], none⟩ := by
      rw [readDecimal?_eq_some_iff]
      refine ⟨sign, hSign, [], [], ?_, rfl, hDigits, .none, .none, ?_⟩
      · rw [List.append_nil, List.append_nil]
      · simpa [Numeral.digits] using hNe
    rw [double?, hRead, hNegative, hSize, ← ofDecimal?_eq]
    simp [Numeral.value?, Numeral.digits]

/-- **The literal of an integer.** It is the integer if it has 64 bits, else the double nearest to
it, and the text itself if there is none. -/
theorem literal_of_spells {text : List Char} {n : Int} (hSpells : Spells text n) :
    literal text =
      if IsWordInt n then Json.num (.int n)
      else match ofRatio? (decide (n < 0)) n.natAbs 1 with
        | some x => .num (.float x)
        | none => .str (String.ofList text) := by
  have hDigits : ∃ c ∈ text, c.isDigit := hSpells.exists_isDigit
  unfold literal
  rw [sameWord_of_isDigit hDigits (by decide), sameWord_of_isDigit hDigits (by decide),
    sameWord_of_isDigit hDigits (by decide), number?_of_spells hSpells]
  by_cases hRange : IsWordInt n
  · simp [hRange]
  · cases ofRatio? (decide (n < 0)) n.natAbs 1 <;> simp [hRange]

end Filter

namespace Sql

open Paging.Filter

/-! ## Binding integers -/

/-- The number that a value is, if it is one. -/
def Value.number? : Value → Option ℚ
  | .bool _ | .text _ => none
  | .int n | .bigInt n => some n
  | .word n => some n.toNat
  | .double x => some x.toRat

/-- An integer that a double is equal to is rounded to itself. -/
theorem toRat_of_isDouble {n : Int} (hDouble : IsDouble n) :
    ∃ x, ofRatio? (decide (n < 0)) n.natAbs 1 = some x ∧ x.toRat = n := by
  obtain ⟨y, hY⟩ := hDouble
  have hAbs : |y.toRat| = (n.natAbs : ℚ) := by
    rw [hY, ← Int.cast_abs, Int.abs_eq_natAbs]
    simp
  obtain ⟨x, hSome, hX⟩ := exists_ofRatio?_eq (decide (n < 0)) hAbs
  refine ⟨x, hSome, ?_⟩
  rw [hX, signed_natAbs]

/-- An integer of a condition is bound as itself exactly if it has 64 bits with a sign, or is a
double. -/
theorem number?_ofNumber_iff (n : Int) :
    (ofNumber (.int n)).number? = some (n : ℚ) ↔ IsWordInt n ∨ IsDouble n := by
  by_cases hRange : IsWordInt n
  · have hBound : ofNumber (.int n) = .bigInt n := if_pos hRange
    simp [hBound, Value.number?, hRange]
  · have hBound : ofNumber (.int n) = .double (.ofInt n) := if_neg hRange
    simp only [hBound, Value.number?, hRange, false_or, Option.some.injEq]
    constructor
    · intro h
      exact ⟨_, h⟩
    · intro hDouble
      obtain ⟨x, hSome, hX⟩ := toRat_of_isDouble hDouble
      rw [Double.ofInt, hSome, Option.getD_some, hX]

/-- The literal of an integer is its own operand. -/
theorem operands_literal {text : List Char} {n : Int} (hSpells : Spells text n) :
    operands (literal text) = [literal text] := by
  rw [literal_of_spells hSpells]
  split
  · rfl
  · split <;> rfl

/-- The integer of a token is bound as itself or as the text of the token exactly if it has 64 bits
with a sign, or is a double, or is too great to be rounded to one. -/
theorem exists_bindings_literal {text : List Char} {n : Int} (hSpells : Spells text n) :
    ∃ value, bindings (literal text) = [value] ∧
      (value.number? = some (n : ℚ) ∨ value = .text (String.ofList text) ↔
        IsWordInt n ∨ IsDouble n ∨ limit ≤ n.natAbs) := by
  rw [literal_of_spells hSpells]
  by_cases hRange : IsWordInt n
  · refine ⟨ofNumber (.int n), by rw [if_pos hRange]; rfl, ?_⟩
    simp [(number?_ofNumber_iff n).2 (.inl hRange), hRange]
  · rw [if_neg hRange, ← ofRatio?_eq_none_iff (decide (n < 0))]
    cases hRound : ofRatio? (decide (n < 0)) n.natAbs 1 with
    | none => exact ⟨.text (String.ofList text), rfl, by simp⟩
    | some x =>
        refine ⟨.double x, rfl, ?_⟩
        simp only [Value.number?, hRange, reduceCtorEq, or_false, false_or, Option.some.injEq]
        constructor
        · intro h
          exact ⟨x, h⟩
        · intro hDouble
          obtain ⟨y, hSome, hY⟩ := toRat_of_isDouble hDouble
          rw [← hY, Option.some.inj (hRound.symm.trans hSome)]

end Sql

/-! ## Entries of planned conditions -/

/-- A condition is an object with the given entry. -/
def HasEntry (where? : Option Json) (entry : String × Json) : Prop :=
  ∃ entries, where? = some (.obj entries) ∧ entry ∈ entries

theorem HasEntry.mem_whereOperands {where? : Option Json} {entry : String × Json}
    (hEntry : HasEntry where? entry) {operand : Json}
    (hOperand : operand ∈ Sql.operandsOfEntry entry) : operand ∈ Sql.whereOperands where? := by
  obtain ⟨entries, rfl, hMem⟩ := hEntry
  rw [Sql.whereOperands, Sql.operands, Sql.entryOperands_eq_flatMap]
  exact List.mem_flatMap.2 ⟨entry, hMem, hOperand⟩

namespace Filter

/-- Filters that are written over a condition leave the entries under other keys as they are. -/
theorem hasEntry_layerFilters {mode : Mode} {list : Option (List String)} {base result : Option Json}
    (hOk : (Plan.layerFilters mode list base).run.value = .ok result) {entry : String × Json}
    (hEntry : HasEntry base entry) (hKeys : ∀ given ∈ readable mode list, given.topKey ≠ entry.1) :
    HasEntry result entry := by
  obtain ⟨entries, rfl, hMem⟩ := hEntry
  rcases Plan.layers_of_layerFilters hOk with ⟨-, rfl⟩ | ⟨-, clause, hCompile, rfl⟩
  · exact ⟨entries, rfl, hMem⟩
  · have hMade : MadeOf (readable mode list) (entriesToJson clause) := madeOf_compile hCompile
    refine ⟨_, rfl, Table.mem_insertAll_of_mem hMem ?_⟩
    rw [hMade.mem_keys_iff]
    intro h
    obtain ⟨given, hGiven, hKey⟩ := h
    exact hKeys given hGiven hKey

/-- The entries of a clause are there when it is written over a condition. -/
theorem hasEntry_layerClause (base : Option Json) {clause : Clause} (hSorted : clause.Sorted)
    {entry : String × Node} (hMem : entry ∈ clause) :
    HasEntry (some (Plan.layerClause base clause).value) (entry.1, entry.2.toJson) := by
  have hWritten : (entry.1, entry.2.toJson) ∈ entriesToJson clause := by
    rw [entriesToJson_eq_map]
    exact List.mem_map_of_mem hMem
  have hNodup : ((entriesToJson clause).map Prod.fst).Nodup := by
    rw [entriesToJson_eq_map, List.map_map]
    exact hSorted.nodup_keys
  match base with
  | none => exact ⟨_, rfl, hWritten⟩
  | some (.obj _) => exact ⟨_, rfl, Table.mem_insertAll_of_nodup hNodup hWritten⟩
  | some .null | some (.bool _) | some (.num _) | some (.str _) | some (.arr _) =>
      exact ⟨_, rfl, hWritten⟩

/-- A filter that survives in flat mode stands in the clause, under its field. -/
theorem exists_leaf_of_surviving {tokens : List String} {clause : Clause}
    (hCompile : (compile .flat tokens).run.value = .ok clause) {filter : Filter}
    (hSurvives : filter ∈ surviving readD tokens) :
    clause.Sorted ∧ ∃ leaf : Condition, (filter.field, .condition leaf) ∈ clause ∧
      (filter.operator, filter.value) ∈ leaf.comparisons := by
  obtain ⟨compiled, hCompiled, hSorted, -, hSame⟩ :=
    exists_compile_flat_eq_ok (parse_eq_readD_of_compile hCompile)
  obtain rfl : compiled = clause := Except.ok.inj (hCompiled.symm.trans hCompile)
  obtain ⟨⟨key, node⟩, hEntry, hFilter⟩ := List.mem_flatMap.1 ((hSame filter).2 hSurvives)
  refine ⟨hSorted, ?_⟩
  cases node with
  | condition leaf =>
      obtain ⟨rfl, hComparison⟩ := mem_comparisons_condition.1 hFilter
      exact ⟨leaf, hEntry, hComparison⟩
  | related _ => cases hFilter
  | relatedAll _ => cases hFilter

/-- So it does when the flat filters are written over a condition. -/
theorem exists_hasEntry_of_surviving {list : Option (List String)} {base result : Option Json}
    (hOk : (Plan.layerFilters .flat list base).run.value = .ok result) {filter : Filter}
    (hSurvives : filter ∈ surviving readD (list.getD [])) :
    ∃ leaf : Condition, HasEntry result (filter.field, leaf.toJson) ∧
      (filter.operator, filter.value) ∈ leaf.comparisons := by
  rcases Plan.layers_of_layerFilters hOk with ⟨hNil, -⟩ | ⟨-, clause, hCompile, rfl⟩
  · rw [hNil] at hSurvives
    cases hSurvives
  · obtain ⟨hSorted, leaf, hMem, hComparison⟩ := exists_leaf_of_surviving hCompile hSurvives
    exact ⟨leaf, hasEntry_layerClause base hSorted hMem, hComparison⟩

/-- The values of a condition are operands under its key, unless they are null. -/
theorem mem_operandsOfEntry_of_comparison {key : String} {leaf : Condition} {op : Operator}
    {value : Json} (hMem : (op, value) ∈ leaf.comparisons)
    (hValue : Sql.operands value = [value]) :
    value ∈ Sql.operandsOfEntry (key, leaf.toJson) := by
  have hOwn : ∀ name, value ∈ Sql.operandsOfEntry (name, value) := by
    intro name
    unfold Sql.operandsOfEntry
    split <;> simp [hValue]
  cases leaf with
  | equals own =>
      cases List.mem_singleton.1 hMem
      exact hOwn key
  | operators entries =>
      have hEntry : (op.key, value) ∈ entries.map fun entry => (entry.1.key, entry.2) :=
        List.mem_map_of_mem hMem
      rw [Condition.toJson, Sql.operandsOfEntry, if_neg (by simp [Sql.isEmptyList]), Sql.operands,
        Sql.entryOperands_eq_flatMap]
      exact List.mem_flatMap.2 ⟨_, hEntry, hOwn op.key⟩

end Filter

open Paging.Filter

/-- A request keeps a flat filter if nothing is written over it: no later flat filter on its field
with its operator, and no nested filter under its key. -/
def Request.Keeps (request : Request) (filter : Filter) : Prop :=
  filter ∈ surviving readD (request.filter.getD []) ∧
    ∀ given ∈ readable .nested request.nestedFilter, given.topKey ≠ filter.field

section Planned

variable {request : Request} {params : Params} {settings : Settings} {plan : Plan}

/-- The value of a flat filter that is kept is an operand of the plan, unless it is null. -/
theorem Plan.mem_whereOperands_of_keeps (hPlan : (make request params settings).run.value = .ok plan)
    {filter : Filter} (hKeeps : request.Keeps filter)
    (hValue : Sql.operands filter.value = [filter.value]) :
    filter.value ∈ Sql.whereOperands plan.args.where? := by
  obtain ⟨hSurvives, hNotNested⟩ := hKeeps
  obtain ⟨flat, hFlat, hNested⟩ := exists_layers_of_make hPlan
  obtain ⟨leaf, hEntry, hComparison⟩ := exists_hasEntry_of_surviving hFlat hSurvives
  have hAfterNested := hasEntry_layerFilters hNested hEntry hNotNested
  exact hAfterNested.mem_whereOperands (mem_operandsOfEntry_of_comparison hComparison hValue)

/-- The operands of the caller's condition are operands of the plan, unless a filter is written over
the key that they stand under. -/
theorem Plan.mem_whereOperands_of_caller (hPlan : (make request params settings).run.value = .ok plan)
    {entry : String × Json} (hEntry : HasEntry params.where? entry)
    (hKeys : ∀ given ∈ request.given, given.topKey ≠ entry.1) {operand : Json}
    (hOperand : operand ∈ Sql.operandsOfEntry entry) :
    operand ∈ Sql.whereOperands plan.args.where? := by
  obtain ⟨flat, hFlat, hNested⟩ := exists_layers_of_make hPlan
  have hAfterFlat := hasEntry_layerFilters hFlat hEntry fun given hGiven =>
    hKeys given (List.mem_append_left _ hGiven)
  have hAfterNested := hasEntry_layerFilters hNested hAfterFlat fun given hGiven =>
    hKeys given (List.mem_append_right _ hGiven)
  exact hAfterNested.mem_whereOperands hOperand

end Planned

/-! ## Integers in statements -/

namespace Sql

/-- **Integers on their way to the database.** The two statements of a query that the store accepts
bind the operands of the planned condition. The value of a flat token that is kept is one of them,
and so is what stands in the caller's condition under a key that no filter takes. An integer is bound
as itself exactly if it has 64 bits with a sign or is a double; and a token whose integer is too
great for a double is bound as its text. -/
theorem Database.numbers_of_validate {db : Database} {model : String} {request : Request}
    {params : Params} {settings : Settings} {plan : Plan}
    (hPlan : (Plan.make request params settings).run.value = .ok plan)
    (hValid : (db.store.validate model plan.args).run.value = .ok ()) :
    ∃ select count, (Select.ofArgs model plan.args).run.value = .ok select ∧
      Count.ofFilter model plan.args.where? = .ok count ∧
      (select.statement db.dialect).values = (whereOperands plan.args.where?).flatMap bindings ++
        [.word plan.args.take, .word plan.args.skip] ∧
      (count.statement db.dialect).values = (whereOperands plan.args.where?).flatMap bindings ∧
      (∀ token field op text n, split? token = .ok (field, op, text) → Spells text n →
        (request.Keeps ⟨String.ofList field, op, literal text⟩ →
          literal text ∈ whereOperands plan.args.where?) ∧
        ∃ value, bindings (literal text) = [value] ∧
          (value.number? = some (n : ℚ) ∨ value = .text (String.ofList text) ↔
            IsWordInt n ∨ IsDouble n ∨ limit ≤ n.natAbs)) ∧
      (∀ entry, HasEntry params.where? entry → ∀ n, .num (.int n) ∈ operandsOfEntry entry →
        ((∀ given ∈ request.given, given.topKey ≠ entry.1) →
          .num (.int n) ∈ whereOperands plan.args.where?) ∧
        ∃ value, bindings (.num (.int n)) = [value] ∧
          (value.number? = some (n : ℚ) ↔ IsWordInt n ∨ IsDouble n)) := by
  obtain ⟨select, count, hSelect, hCount, -⟩ := exists_queries_of_validate hValid
  refine ⟨select, count, hSelect, hCount, Select.values_ofArgs db.dialect hSelect,
    Count.values_ofFilter db.dialect hCount, ?_, ?_⟩
  · intro token field op text n _ hSpells
    obtain ⟨value, hValue, hKept⟩ := exists_bindings_literal hSpells
    refine ⟨?_, value, hValue, hKept⟩
    intro hKeeps
    exact Plan.mem_whereOperands_of_keeps hPlan hKeeps (operands_literal hSpells)
  · intro entry hEntry n hOperand
    refine ⟨?_, ofNumber (.int n), rfl, number?_ofNumber_iff n⟩
    intro hKeys
    exact Plan.mem_whereOperands_of_caller hPlan hEntry hKeys hOperand

/-- A small integer in a token, and a great one in the caller's condition that is a double. -/
theorem Database.numbers_of_validate_kept :
    ∃ (db : Database) (plan : Plan) (select : Select) (first second : Value),
      (Plan.make { filter := some ["id==+42"] }
        { where? := some (.obj [("serial", .num (.int 18446744073709549568))]) } {}).run.value =
          .ok plan ∧
      (db.store.validate "users" plan.args).run.value = .ok () ∧
      (Select.ofArgs "users" plan.args).run.value = .ok select ∧
      (select.statement db.dialect).values = [first, second, .word 20, .word 0] ∧
      (first.number? = some 42 ∨ first = .text "+42") ∧
      second.number? = some 18446744073709549568 := by
  let serial : String × Json := ("serial", .num (.int 18446744073709549568))
  let request : Request := { filter := some ["id==+42"] }
  let params : Params := { where? := some (.obj [serial]) }
  let db : Database := { dialect := .sqlite, rows := fun _ => .ok [], row := fun _ => .ok none }
  let plan : Plan := {
    window := ⟨1, 20, by decide, by decide⟩
    args := { skip := 0, take := 20, where? := some (.obj [("id", literal ['+', '4', '2']), serial]) }
    sort? := none }
  have hPlan : (Plan.make request params {}).run.value = .ok plan := by
    rfl
  have hValid : (db.store.validate "users" plan.args).run.value = .ok () := by
    rfl
  obtain ⟨select, count, hSelect, -, hValues, -, hTokens, hCaller⟩ :=
    Database.numbers_of_validate hPlan hValid
  have hSpells : Spells ['+', '4', '2'] 42 :=
    ⟨['+'], by decide, ['4', '2'], rfl, by decide, List.all_eq_true.1 (by decide), by decide⟩
  obtain ⟨-, first, hFirst, hFirstKept⟩ :=
    hTokens "id==+42" ['i', 'd'] .eq ['+', '4', '2'] 42 rfl hSpells
  obtain ⟨-, second, hSecond, hSecondKept⟩ :=
    hCaller serial ⟨_, rfl, List.mem_cons_self⟩ 18446744073709549568 List.mem_cons_self
  have hOperands : whereOperands plan.args.where? = [literal ['+', '4', '2'], serial.2] := by
    rfl
  have hDouble : IsDouble 18446744073709549568 :=
    ⟨⟨false, 9007199254740991, 11, by decide⟩, by norm_num [toRat]⟩
  refine ⟨db, plan, select, first, second, hPlan, hValid, hSelect, ?_, ?_, ?_⟩
  · rw [hValues, hOperands, List.flatMap_cons, List.flatMap_singleton, hFirst, hSecond]
    rfl
  · exact_mod_cast hFirstKept.2 (.inl (by decide))
  · exact_mod_cast hSecondKept.2 (.inr hDouble)

/-- The first integer above those of 64 bits with a sign that is no double, in a token, and the
greatest of 64 bits, in the caller's condition, are bound as other numbers. -/
theorem Database.integers_rounded :
    ∃ (db : Database) (plan : Plan) (select : Select) (first second : Double),
      (Plan.make { filter := some ["id==9223372036854775809"] }
        { where? := some (.obj [("serial", .num (.int 18446744073709551615))]) } {}).run.value =
          .ok plan ∧
      (db.store.validate "users" plan.args).run.value = .ok () ∧
      (Select.ofArgs "users" plan.args).run.value = .ok select ∧
      (select.statement db.dialect).values = [.double first, .double second, .word 20, .word 0] ∧
      first.toRat = 9223372036854775808 ∧ second.toRat = 18446744073709551616 := by
  let serial : String × Json := ("serial", .num (.int 18446744073709551615))
  let first : Double := ⟨false, 4503599627370496, 11, by decide⟩
  let second : Double := ⟨false, 4503599627370496, 12, by decide⟩
  let filter : Filter := ⟨"id", .eq, .num (.float first)⟩
  let params : Params := { where? := some (.obj [serial]) }
  let db : Database := { dialect := .sqlite, rows := fun _ => .ok [], row := fun _ => .ok none }
  let plan : Plan := {
    window := ⟨1, 20, by decide, by decide⟩
    args := { skip := 0, take := 20, where? := some (.obj [("id", filter.value), serial]) }
    sort? := none }
  have hSpells : Spells "9223372036854775809".toList 9223372036854775809 :=
    ⟨[], by decide, _, rfl, by decide, List.all_eq_true.1 (by decide), by decide⟩
  have hFirst : ofRatio? false 9223372036854775809 1 = some first := by
    decide +kernel
  have hSecond : ofNumber (.int 18446744073709551615) = .double second := by
    decide +kernel
  have hLiteral : literal "9223372036854775809".toList = .num (.float first) := by
    rw [literal_of_spells hSpells, if_neg (by decide)]
    exact congrArg (fun x? : Option Double => match x? with
      | some x => Json.num (.float x)
      | none => .str "9223372036854775809") hFirst
  have hParse : parse "id==9223372036854775809" =
      .ok ⟨"id", .eq, literal "9223372036854775809".toList⟩ := by
    rfl
  rw [hLiteral] at hParse
  -- What the token is read as is known from here on, so that no literal is evaluated any more.
  have hCompile : compile .flat ["id==9223372036854775809"] =
      pure [("id", .condition (.equals filter.value))] := by
    rw [@compile_eq .flat (fun _ => filter) _ (by simpa using hParse)]
    rfl
  have hInsert : Table.insertAll [("id", filter.value)] [serial] =
      [("id", filter.value), serial] := by
    have hOrder : "id" < "serial" := by
      decide
    rw [Table.insertAll, List.foldl_cons, List.foldl_nil, Table.insert, if_neg (by decide),
      if_pos hOrder]
  have hFlat : Plan.layerFilters .flat (some ["id==9223372036854775809"]) params.where? =
      pure plan.args.where? := by
    show (compile .flat _ >>= _) = _
    rw [hCompile, pure_bind]
    exact congrArg (fun entries => (pure (some (.obj entries)) : Outcome QueryError (Option Json)))
      hInsert
  have hPlan : (Plan.make { filter := some ["id==9223372036854775809"] } params {}).run.value =
      .ok plan := by
    unfold Plan.make
    dsimp only
    rw [hFlat]
    rfl
  have hValid : (db.store.validate "users" plan.args).run.value = .ok () := by
    rfl
  obtain ⟨select, -, hSelect, -⟩ := exists_queries_of_validate hValid
  have hValues : (select.statement db.dialect).values =
      [.double first, ofNumber (.int 18446744073709551615), .word 20, .word 0] :=
    Select.values_ofArgs db.dialect hSelect
  refine ⟨db, plan, select, first, second, hPlan, hValid, hSelect, ?_, ?_, ?_⟩
  · rw [hValues, hSecond]
  · norm_num [toRat, first]
  · norm_num [toRat, second]

end Sql

end Paging
