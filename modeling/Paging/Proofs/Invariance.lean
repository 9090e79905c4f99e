import Paging.Proofs.Malformed

/-!
# What flat filters do not depend on

Flat tokens are grouped by their fields and merged by their operators. So if no two tokens agree in
both, the order of the tokens is lost on the way: of lists with the same tokens the units are the
same up to their order (`exists_unit_perm`), and so are the conditions that they are merged to
(`compile_flat_perm`). And where no field has a dot, the tokens have the same keys and thus the same
units in nested mode, so that the mode does not matter either (`compile_nested_eq_flat`).
-/

namespace Paging.Filter

open Paging.Keyed

section Reading

variable {mode : Mode} {read : String → Filter} {tokens others : List String}

/-! ## The order of the tokens -/

/-- The units of lists with the same tokens differ in the order of their filters only. -/
theorem exists_unit_perm (hSame : ∀ token, token ∈ tokens ↔ token ∈ others) {unit : List Filter}
    (hUnit : unit ∈ units mode read tokens) :
    ∃ unit' ∈ units mode read others, unit.Perm unit' := by
  have hDistinct : tokens.eraseDups.Perm others.eraseDups := by
    refine (List.perm_ext_iff_of_nodup (nodup_eraseDups _) (nodup_eraseDups _)).2 fun token => ?_
    rw [List.mem_eraseDups, List.mem_eraseDups, hSame]
  obtain ⟨key, hIsUnit, -⟩ := exists_isUnit_of_mem hUnit
  obtain ⟨filter, hFilter⟩ := List.exists_mem_of_ne_nil unit hIsUnit.nonempty
  obtain ⟨token, hToken, rfl⟩ := exists_token_of_mem_unit hUnit hFilter
  obtain ⟨unit', hUnit', hFilter'⟩ :=
    @exists_unit_of_mem mode read others token ((hSame token).1 hToken)
  -- Both units hold all filters of their list that have the key of this one.
  refine ⟨unit', hUnit', ?_⟩
  rw [unit_eq_filter hUnit hFilter, unit_eq_filter hUnit' hFilter']
  exact (hDistinct.map read).filter _

/-- Tokens that compare one field by one operator are the same token. -/
def Unambiguous (read : String → Filter) (tokens : List String) : Prop :=
  ∀ first ∈ tokens, ∀ second ∈ tokens, (read first).field = (read second).field →
    (read first).operator = (read second).operator → first = second

/-- The filters of a unit of unambiguous tokens differ in their operators. -/
theorem nodup_operators (hOnce : Unambiguous read tokens) {unit : List Filter}
    (hUnit : unit ∈ units .flat read tokens) : (unit.map Filter.operator).Nodup := by
  obtain ⟨key, -, hAll⟩ := exists_isUnit_of_mem hUnit
  rw [hAll, List.map_map]
  refine ((nodup_eraseDups tokens).filter _).map_on ?_
  intro first hFirst second hSecond hOperator
  obtain ⟨hFirst, hFirstKey⟩ := List.mem_filter.1 hFirst
  obtain ⟨hSecond, hSecondKey⟩ := List.mem_filter.1 hSecond
  have hKeys : Key.field (read first).field = .field (read second).field :=
    (of_decide_eq_true hFirstKey).trans (of_decide_eq_true hSecondKey).symm
  exact hOnce first (List.mem_eraseDups.1 hFirst) second (List.mem_eraseDups.1 hSecond)
    (Key.field.inj hKeys) hOperator

theorem IsUnit.of_perm {key : Key} {unit unit' : List Filter} (hUnit : IsUnit mode key unit)
    (hPerm : unit.Perm unit') : IsUnit mode key unit' where
  nonempty := by
    intro hNil
    rw [hNil] at hPerm
    exact hUnit.nonempty hPerm.eq_nil
  ofField filter hMem := hUnit.ofField filter (hPerm.mem_iff.2 hMem)

/-- A unit of different operators has one clause, whatever the order of its filters. -/
theorem unitClause_eq_of_perm {key : Key} {unit unit' : List Filter} (hUnit : IsUnit .flat key unit)
    (hPerm : unit.Perm unit') (hOperators : (unit.map Filter.operator).Nodup) :
    unitClause .flat unit = unitClause .flat unit' := by
  obtain ⟨first, rest, rfl, rfl⟩ := hUnit.exists_cons
  obtain ⟨first', rest', rfl, hFirst'⟩ := (hUnit.of_perm hPerm).exists_cons
  rw [unitClause_of_field (Key.ofField_flat first.field), unitClause_of_field hFirst',
    mergedCondition_eq_of_perm hPerm hOperators]

/-- Lists with the same tokens have the same entries. -/
theorem exists_unitClause_of_same (hSame : ∀ token, token ∈ tokens ↔ token ∈ others)
    (hOnce : Unambiguous read tokens) {entry : String × Node}
    (hEntry : ∃ unit ∈ units .flat read tokens, entry ∈ unitClause .flat unit) :
    ∃ unit ∈ units .flat read others, entry ∈ unitClause .flat unit := by
  obtain ⟨unit, hUnit, hEntry⟩ := hEntry
  obtain ⟨unit', hUnit', hPerm⟩ := exists_unit_perm hSame hUnit
  obtain ⟨key, hIsUnit, -⟩ := exists_isUnit_of_mem hUnit
  refine ⟨unit', hUnit', ?_⟩
  rw [← unitClause_eq_of_perm hIsUnit hPerm (nodup_operators hOnce hUnit)]
  exact hEntry

/-- **The order of flat tokens does not matter.** Where tokens that compare one field by one
operator are the same token, the tokens compile to one clause in every order, and nothing is
noted. -/
theorem compile_flat_perm (hPerm : tokens.Perm others)
    (hRead : ∀ token ∈ tokens, parse token = .ok (read token)) (hOnce : Unambiguous read tokens) :
    ∃ clause, (compile .flat tokens).run = ⟨[], .ok clause⟩ ∧
      (compile .flat others).run = ⟨[], .ok clause⟩ := by
  have hReadOthers : ∀ token ∈ others, parse token = .ok (read token) :=
    fun token hMem => hRead token (hPerm.mem_iff.2 hMem)
  have hOnceOthers : Unambiguous read others := fun first hFirst second hSecond =>
    hOnce first (hPerm.mem_iff.2 hFirst) second (hPerm.mem_iff.2 hSecond)
  obtain ⟨clause, hRun, hSorted, hEntries⟩ := exists_run_compile_flat_eq hRead
  obtain ⟨clause', hRun', hSorted', hEntries'⟩ := exists_run_compile_flat_eq hReadOthers
  have hSame : clause = clause' := by
    refine hSorted.eq_of_mem_iff hSorted' fun entry => ?_
    rw [hEntries, hEntries']
    exact ⟨exists_unitClause_of_same (fun _ => hPerm.mem_iff) hOnce,
      exists_unitClause_of_same (fun _ => hPerm.symm.mem_iff) hOnceOthers⟩
  exact ⟨clause, hRun, hSame ▸ hRun'⟩

/-- Two tokens on one field, around one on another field, and one of them repeated. -/
theorem compile_flat_perm_age :
    ∃ clause, (compile .flat ["age>=18", "name==Ann", "age==30", "age>=18"]).run =
        ⟨[], .ok clause⟩ ∧
      (compile .flat ["age==30", "age>=18", "age>=18", "name==Ann"]).run = ⟨[], .ok clause⟩ := by
  have hPerm : ["age>=18", "name==Ann", "age==30", "age>=18"].Perm
      ["age==30", "age>=18", "age>=18", "name==Ann"] := by
    decide
  have hRead := parse_eq_readD (show ∀ token ∈ ["age>=18", "name==Ann", "age==30", "age>=18"],
    (parse token).toOption.isSome by decide)
  have hOnce : Unambiguous readD ["age>=18", "name==Ann", "age==30", "age>=18"] := by
    unfold Unambiguous
    decide
  exact compile_flat_perm hPerm hRead hOnce

/-! ## The mode -/

/-- Fields without dots have the same units in both modes. -/
theorem units_nested_eq_flat (hUndotted : ∀ token ∈ tokens, dots (read token).field = 0) :
    units .nested read tokens = units .flat read tokens := by
  have hKeys : ∀ token ∈ tokens.eraseDups, keyOf .nested read token = keyOf .flat read token :=
    fun token hMem => Key.ofField_of_undotted fun _ => hUndotted token (List.mem_eraseDups.1 hMem)
  rw [units, units, groupsBy_congr hKeys]

/-- Units of such fields have the same clauses in both modes. -/
theorem unitClause_nested_eq_flat (hUndotted : ∀ token ∈ tokens, dots (read token).field = 0)
    {unit : List Filter} (hUnit : unit ∈ units .flat read tokens) :
    unitClause .nested unit = unitClause .flat unit := by
  obtain ⟨key, hIsUnit, -⟩ := exists_isUnit_of_mem hUnit
  obtain ⟨first, rest, rfl, -⟩ := hIsUnit.exists_cons
  obtain ⟨token, hToken, rfl⟩ := exists_token_of_mem_unit hUnit List.mem_cons_self
  have hKey : Key.ofField .nested (read token).field = .field (read token).field :=
    Key.ofField_of_undotted fun _ => hUndotted token hToken
  rw [unitClause_of_field hKey, unitClause_of_field (Key.ofField_flat _)]

/-- **Nested mode extends flat mode.** Where no field of a token has a dot, both modes compile a
list alike, to the same clause or the same error, and nothing is noted. -/
theorem compile_nested_eq_flat
    (hUndotted : ∀ token ∈ tokens, ∀ filter, parse token = .ok filter → '.' ∉ filter.field.toList) :
    (compile .nested tokens).run = (compile .flat tokens).run ∧
      (compile .flat tokens).run.log = [] := by
  rcases all_read_or_exists_first tokens with hRead | ⟨before, token, after, rfl, hBefore, hToken⟩
  · have hDots : ∀ token ∈ tokens, dots (readD token).field = 0 := fun token hMem =>
      List.count_eq_zero.2 (hUndotted token hMem _ (hRead token hMem))
    obtain ⟨clause, hRun, -⟩ := exists_run_compile_flat_eq hRead
    refine ⟨?_, congrArg Logged.log hRun⟩
    rw [compile_eq hRead, compile_eq hRead, units_nested_eq_flat hDots,
      List.flatMap_congr fun unit hUnit => unitClause_nested_eq_flat hDots hUnit]
  · -- The first malformed token is the error in both modes, whatever its group would be.
    rw [compile_of_malformed .nested after hBefore hToken,
      compile_of_malformed .flat after hBefore hToken]
    exact ⟨rfl, rfl⟩

/-- The dot of a value is no dot of a field, nor is that of a token that cannot be read. -/
theorem compile_nested_eq_flat_age :
    (compile .nested ["age>=18", "mail==a.b", "age<=65"]).run =
      (compile .flat ["age>=18", "mail==a.b", "age<=65"]).run ∧
    (compile .nested ["age>=18", "a.b"]).run = (compile .flat ["age>=18", "a.b"]).run := by
  have hUndotted : ∀ tokens : List String, (∀ token ∈ tokens, '.' ∉ (readD token).field.toList) →
      ∀ token ∈ tokens, ∀ filter, parse token = .ok filter → '.' ∉ filter.field.toList := by
    intro tokens hFields token hMem filter hParse
    rw [← readD_eq hParse]
    exact hFields token hMem
  exact ⟨(compile_nested_eq_flat (hUndotted _ (by decide))).1,
    (compile_nested_eq_flat (hUndotted _ (by decide))).1⟩

end Reading

end Paging.Filter
