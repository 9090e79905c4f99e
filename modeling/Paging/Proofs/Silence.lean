import Paging.Proofs.Meaning

/-!
# What is lost in silence

Compiling notes every entry of a clause that it replaces, but a merged condition replaces a
comparison by a later one with the same operator and notes nothing. This happens to filters that
compete: they are on one field, by one operator, and with different values (`Competes`). Where
nothing is noted, the compiled clause says what all the tokens say exactly if no two of them compete
(`silent_compile_lossless_iff`).
-/

namespace Paging.Filter

open Paging.Keyed

/-- Two filters compare one field by one operator with different values. In nested mode this is
about fields without dots only, since filters below relations are not merged. -/
structure Competes (mode : Mode) (first second : Filter) : Prop where
  field_eq : first.field = second.field
  operator_eq : first.operator = second.operator
  undotted : mode = .nested → dots first.field = 0
  value_ne : first.value ≠ second.value

/-! ## Which filters count -/

section Units

variable {mode : Mode} {read : String → Filter} {tokens : List String}

theorem mem_of_mem_counted {unit : List Filter} {filter : Filter}
    (hCounted : filter ∈ counted mode unit) : filter ∈ unit := by
  cases unit with
  | nil => exact hCounted
  | cons first rest =>
      rw [counted] at hCounted
      split at hCounted
      · exact hCounted
      · exact mem_of_mem_lastsBy hCounted

/-- A filter of a unit counts unless it competes with one that does. -/
theorem exists_counted {key : Key} {unit : List Filter} {filter : Filter}
    (hUnit : IsUnit mode key unit) (hMem : filter ∈ unit) :
    ∃ other ∈ counted mode unit, other = filter ∨ Competes mode other filter := by
  obtain ⟨first, rest, rfl, hFirst⟩ := hUnit.exists_cons
  cases key with
  | below relations =>
      rw [counted_of_below hFirst]
      exact ⟨filter, hMem, .inl rfl⟩
  | field path =>
      rw [counted_of_field hFirst]
      have hKept : filter.operator ∈
          (lastsBy Filter.operator (first :: rest)).map Filter.operator :=
        mem_keys_lastsBy.2 (List.mem_map_of_mem hMem)
      obtain ⟨other, hLast, hOperator⟩ := List.mem_map.1 hKept
      obtain ⟨hOther, hDots⟩ := Key.field_of_field (hUnit.ofField other (mem_of_mem_lastsBy hLast))
      obtain ⟨hFilter, -⟩ := Key.field_of_field (hUnit.ofField filter hMem)
      have hField : other.field = filter.field := hOther.trans hFilter.symm
      refine ⟨other, hLast, ?_⟩
      by_cases hValue : other.value = filter.value
      · exact .inl (Filter.ext hField hOperator hValue)
      · exact .inr ⟨hField, hOperator, hDots, hValue⟩

/-- Of two filters that compete one does not count. -/
theorem Competes.not_counted {first second : Filter} (hCompetes : Competes mode first second) :
    (∀ unit ∈ units mode read tokens, first ∉ counted mode unit) ∨
      ∀ unit ∈ units mode read tokens, second ∉ counted mode unit := by
  by_contra hBoth
  push Not at hBoth
  -- Both are in one unit, and of each operator one filter counts there.
  obtain ⟨⟨unit, hUnit, hFirst⟩, unit', hUnit', hSecond⟩ := hBoth
  have hSame : unit' = unit := by
    rw [unit_eq_filter hUnit (mem_of_mem_counted hFirst),
      unit_eq_filter hUnit' (mem_of_mem_counted hSecond), hCompetes.field_eq]
  rw [hSame] at hSecond
  obtain ⟨key, hIsUnit, -⟩ := exists_isUnit_of_mem hUnit
  have hKey : key = .field first.field :=
    (hIsUnit.ofField first (mem_of_mem_counted hFirst)).symm.trans
      (Key.ofField_of_undotted hCompetes.undotted)
  rw [hKey] at hIsUnit
  obtain ⟨head, rest, rfl, hHead⟩ := hIsUnit.exists_cons
  rw [counted_of_field hHead] at hFirst hSecond
  have hEq : first = second :=
    List.inj_on_of_nodup_map (nodup_keys_lastsBy _ _) hFirst hSecond hCompetes.operator_eq
  exact hCompetes.value_ne (congrArg Filter.value hEq)

end Units

/-! ## A record on which one filter fails -/

/-- Cells tell nothing, and every relation can be followed `depth` times. -/
def blankRecord : Nat → Record Bool
  | 0 => .node (fun _ => false) fun _ => none
  | depth + 1 => .node (fun _ => false) fun _ => some (blankRecord depth)

/-- One cell is marked. -/
def markedRecord (field : String) (depth : Nat) : Record Bool :=
  .node (fun name => decide (name = field)) fun _ => some (blankRecord depth)

/-- On marked cells the comparison of one filter fails; all others hold. -/
def failing (filter : Filter) (op : Operator) (value : Json) (marked : Bool) : Prop :=
  ¬(marked = true ∧ op = filter.operator ∧ value = filter.value)

theorem reaches_blankRecord {relations : List String} {depth : Nat}
    (hLength : relations.length ≤ depth) :
    (blankRecord depth).Reaches relations fun target => ∀ name, target.cell name = false := by
  induction relations generalizing depth with
  | nil =>
      rw [Record.reaches_nil]
      cases depth <;> exact fun _ => rfl
  | cons relation rest ih =>
      rw [List.length_cons] at hLength
      obtain ⟨less, rfl⟩ : ∃ less, depth = less + 1 := ⟨depth - 1, by omega⟩
      rw [Record.reaches_cons]
      exact ⟨blankRecord less, rfl, ih (by omega)⟩

section Failing

variable {mode : Mode} {filter : Filter} {depth : Nat}

theorem not_holds_markedRecord (hDots : mode = .nested → dots filter.field = 0) :
    ¬filter.Holds (failing filter) mode (markedRecord filter.field depth) := by
  rw [holds_of_field (Key.ofField_of_undotted hDots)]
  intro hHolds
  exact hHolds ⟨decide_eq_true rfl, rfl, rfl⟩

theorem holds_markedRecord {other : Filter} (hNe : other ≠ filter)
    (hDepth : dots other.field ≤ depth) :
    other.Holds (failing filter) mode (markedRecord filter.field depth) := by
  cases hKey : Key.ofField mode other.field with
  | field path =>
      rw [holds_of_field hKey]
      intro h
      obtain ⟨hMarked, hOperator, hValue⟩ := h
      have hField : other.field = filter.field :=
        (Key.field_of_field hKey).1.trans (of_decide_eq_true hMarked)
      exact hNe (Filter.ext hField hOperator hValue)
  | below relations =>
      obtain ⟨rfl, hRelations, name, hSegments⟩ := Key.segments_of_below hKey
      obtain ⟨relation, rest, rfl⟩ := List.exists_cons_of_ne_nil hRelations
      rw [dots_eq_length hSegments, List.length_cons] at hDepth
      rw [holds_of_segments hSegments, Record.reaches_cons]
      obtain ⟨target, hTarget, hBlank⟩ := reaches_blankRecord (show rest.length ≤ depth by omega)
      refine ⟨blankRecord depth, rfl, target, hTarget, ?_⟩
      intro h
      rw [hBlank name] at h
      exact Bool.false_ne_true h.1

end Failing

/-! ## When nothing is lost -/

section Reading

variable {mode : Mode} {read : String → Filter} {tokens : List String}

/-- Where no tokens compete, all that count hold exactly if all tokens do. -/
theorem forall_counted_iff
    (hNone : ∀ first ∈ tokens, ∀ second ∈ tokens, ¬Competes mode (read first) (read second))
    {holds : Filter → Prop} :
    (∀ unit ∈ units mode read tokens, ∀ filter ∈ counted mode unit, holds filter) ↔
      ∀ token ∈ tokens, holds (read token) := by
  constructor
  · intro hCounted token hToken
    obtain ⟨unit, hUnit, hMem⟩ := @exists_unit_of_mem mode read tokens token hToken
    obtain ⟨key, hIsUnit, -⟩ := exists_isUnit_of_mem hUnit
    obtain ⟨other, hOther, hEq | hCompetes⟩ := exists_counted hIsUnit hMem
    · rw [← hEq]
      exact hCounted unit hUnit other hOther
    · obtain ⟨first, hFirst, rfl⟩ :=
        exists_token_of_mem_unit hUnit (mem_of_mem_counted hOther)
      exact absurd hCompetes (hNone first hFirst token hToken)
  · intro hTokens unit hUnit filter hCounted
    obtain ⟨token, hToken, rfl⟩ := exists_token_of_mem_unit hUnit (mem_of_mem_counted hCounted)
    exact hTokens token hToken

theorem exists_dots_le (read : String → Filter) (tokens : List String) :
    ∃ depth, ∀ token ∈ tokens, dots (read token).field ≤ depth := by
  induction tokens with
  | nil => exact ⟨0, by simp⟩
  | cons first rest ih =>
      obtain ⟨depth, hRest⟩ := ih
      refine ⟨max (dots (read first).field) depth, ?_⟩
      rw [List.forall_mem_cons]
      refine ⟨Nat.le_max_left _ _, ?_⟩
      intro token hMem
      exact Nat.le_trans (hRest token hMem) (Nat.le_max_right _ _)

/-- A token that does not count is lost: some record fails it and passes all that count. -/
theorem exists_record_of_not_counted {token : String}
    (hDots : mode = .nested → dots (read token).field = 0)
    (hNot : ∀ unit ∈ units mode read tokens, read token ∉ counted mode unit) :
    ∃ (test : Operator → Json → Bool → Prop) (record : Record Bool),
      (∀ unit ∈ units mode read tokens, ∀ filter ∈ counted mode unit,
        filter.Holds test mode record) ∧ ¬(read token).Holds test mode record := by
  obtain ⟨depth, hDepth⟩ := exists_dots_le read tokens
  refine ⟨failing (read token), markedRecord (read token).field depth, ?_,
    not_holds_markedRecord hDots⟩
  intro unit hUnit filter hCounted
  obtain ⟨other, hOther, rfl⟩ := exists_token_of_mem_unit hUnit (mem_of_mem_counted hCounted)
  apply holds_markedRecord
  · intro hEq
    rw [hEq] at hCounted
    exact hNot unit hUnit hCounted
  · exact hDepth other hOther

/-- **What silence is worth.** Where nothing is noted, the compiled clause holds on the records on
which all tokens hold, provided that no two tokens compete, and only then. -/
theorem silent_compile_lossless_iff (hRead : ∀ token ∈ tokens, parse token = .ok (read token))
    (hSilent : ∀ field, Event.keyReplaced field ∉ (compile mode tokens).run.log) :
    ∃ clause, (compile mode tokens).run.value = .ok clause ∧
      ((∀ (κ : Type) (test : Operator → Json → κ → Prop) (record : Record κ),
          clause.Holds test record ↔ ∀ token ∈ tokens, (read token).Holds test mode record) ↔
        ∀ first ∈ tokens, ∀ second ∈ tokens, ¬Competes mode (read first) (read second)) := by
  have hDistinct : ((units mode read tokens).map (topKey mode)).Nodup := by
    rw [← log_compile_eq_nil_iff hRead, log_compile hRead, List.map_eq_nil_iff,
      List.eq_nil_iff_forall_not_mem]
    intro field hField
    apply hSilent field
    rw [log_compile hRead]
    exact List.mem_map_of_mem hField
  obtain ⟨clause, hCompile, hHolds⟩ := @exists_holds_iff mode read tokens hRead
  rw [lastsBy_eq_self hDistinct] at hHolds
  refine ⟨clause, hCompile, ?_⟩
  constructor
  · intro hAll first hFirst second hSecond hCompetes
    -- Of two tokens that compete one does not count, and the record that it fails tells the clause
    -- from the tokens.
    have hLost : ∀ token ∈ tokens, (mode = .nested → dots (read token).field = 0) →
        ¬∀ unit ∈ units mode read tokens, read token ∉ counted mode unit := by
      intro token hToken hDots hNot
      obtain ⟨test, record, hCounted, hFails⟩ := exists_record_of_not_counted hDots hNot
      exact hFails ((hAll Bool test record).1 (hHolds.2 hCounted) token hToken)
    rcases hCompetes.not_counted with hNot | hNot
    · exact hLost first hFirst hCompetes.undotted hNot
    · refine hLost second hSecond ?_ hNot
      rw [← hCompetes.field_eq]
      exact hCompetes.undotted
  · intro hNone κ test record
    rw [hHolds, forall_counted_iff hNone]

/-- Comparisons by different operators on one field do not compete. -/
theorem silent_compile_lossless_age :
    ∃ clause, (compile .nested ["age!=30", "age<=65", "author.age!=31"]).run.value = .ok clause ∧
      ∀ (κ : Type) (test : Operator → Json → κ → Prop) (record : Record κ),
        clause.Holds test record ↔ ∀ token ∈ ["age!=30", "age<=65", "author.age!=31"],
          (readD token).Holds test .nested record := by
  have hRead := parse_eq_readD (show ∀ token ∈ ["age!=30", "age<=65", "author.age!=31"],
    (parse token).toOption.isSome by decide)
  have hLog : (compile .nested ["age!=30", "age<=65", "author.age!=31"]).run.log = [] := by
    rfl
  have hSilent : ∀ field, Event.keyReplaced field ∉
      (compile .nested ["age!=30", "age<=65", "author.age!=31"]).run.log := by
    intro field
    rw [hLog]
    exact List.not_mem_nil
  have hSame : ∀ first ∈ ["age!=30", "age<=65", "author.age!=31"],
      ∀ second ∈ ["age!=30", "age<=65", "author.age!=31"],
        (readD first).field = (readD second).field →
          (readD first).operator = (readD second).operator → first = second := by
    decide
  obtain ⟨clause, hCompile, hLossless⟩ := silent_compile_lossless_iff hRead hSilent
  refine ⟨clause, hCompile, hLossless.2 ?_⟩
  intro first hFirst second hSecond hCompetes
  have hEq := hSame first hFirst second hSecond hCompetes.field_eq hCompetes.operator_eq
  exact hCompetes.value_ne (by rw [hEq])

/-- Two exceptions on one field: nothing is noted, and a record that the first one excludes passes
the clause. -/
theorem silent_compile_drops_age :
    ∃ clause, (compile .flat ["age!=30", "age!=31"]).run = ⟨[], .ok clause⟩ ∧
      ¬∀ (κ : Type) (test : Operator → Json → κ → Prop) (record : Record κ),
        clause.Holds test record ↔
          ∀ token ∈ ["age!=30", "age!=31"], (readD token).Holds test .flat record := by
  refine ⟨[("age", .condition (.operators [(.neq, .num (.int 31))]))], rfl, ?_⟩
  intro hAll
  let test : Operator → Json → Int → Prop := fun _ value age => value ≠ .num (.int age)
  let record : Record Int := .node (fun _ => 30) fun _ => none
  have hClause : Clause.Holds test record
      [("age", .condition (.operators [(.neq, .num (.int 31))]))] := by
    rw [Clause.holds_iff, List.forall_mem_singleton]
    show ∀ comparison ∈ [(Operator.neq, Json.num (.int 31))], comparison.2 ≠ .num (.int 30)
    simp
  have hToken := (hAll Int test record).1 hClause "age!=30" List.mem_cons_self
  exact hToken rfl

end Reading

end Paging.Filter
