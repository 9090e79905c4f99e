import Paging.Proofs.Units

/-!
# The keys of compiled clauses

Each unit of filters assigns one key, its top key, and units may share it. A compiled clause has the
top keys of its units as keys, each once (`mem_keys_iff_of_mem_iff`), and every other assignment
replaces an earlier one. So the notes of replacements tell which units were assigned to a key that
was taken, and together with the entries of the clause they are as many as the units
(`compile_accounts_for_units`).
-/

namespace Paging.Filter

open Paging.Keyed

/-! ## Units in order -/

section Reading

variable {mode : Mode} {read : String → Filter} {tokens : List String}

/-- The units of two filters or more, in the order in which their keys are met. -/
def combinedUnits (mode : Mode) (read : String → Filter) (tokens : List String) :
    List (List Filter) :=
  ((groupsBy (keyOf mode read) tokens.eraseDups).filter (·.2.length ≠ 1)).map fun group =>
    group.2.map read

/-- The tokens that share their keys with no other, in the order of the list. -/
def aloneTokens (mode : Mode) (read : String → Filter) (tokens : List String) : List String :=
  tokens.eraseDups.filter fun token =>
    ∀ other ∈ tokens.eraseDups, keyOf mode read other = keyOf mode read token → other = token

/-- The combined units come first, and after them the tokens that are alone, in their own order. -/
theorem units_eq (mode : Mode) (read : String → Filter) (tokens : List String) :
    units mode read tokens =
      combinedUnits mode read tokens ++
        (aloneTokens mode read tokens).map fun token => [read token] := by
  have hAlone := @filter_groupsBy_alone _ _ _ _ (keyOf mode read) _ (nodup_eraseDups tokens)
  have hSingle : (aloneTokens mode read tokens).map (fun token => [read token]) =
      ((aloneTokens mode read tokens).map fun token => [token]).map (List.map read) := by
    rw [List.map_map]
    rfl
  rw [units, List.map_append, combinedUnits, hSingle, aloneTokens, ← hAlone, List.map_map]
  rfl

/-! ## Top keys -/

/-- The filters of a unit stand under one top key. -/
theorem topKey_singleton {unit : List Filter} (hMem : unit ∈ units mode read tokens)
    {filter : Filter} (hFilter : filter ∈ unit) : topKey mode [filter] = topKey mode unit := by
  obtain ⟨key, hUnit, -⟩ := exists_isUnit_of_mem hMem
  have hAlone : IsUnit mode key [filter] :=
    ⟨List.cons_ne_nil _ _, by simpa using hUnit.ofField filter hFilter⟩
  cases key with
  | field path => rw [hUnit.topKey_of_field, hAlone.topKey_of_field]
  | below relations =>
      obtain ⟨-, hNe, -⟩ := Key.segments_of_below (hUnit.ofField filter hFilter)
      obtain ⟨relation, relations, rfl⟩ := List.exists_cons_of_ne_nil hNe
      rw [hUnit.topKey_of_below, hAlone.topKey_of_below]

/-- The top keys of the units are those of the tokens. -/
theorem mem_topKeys_units_iff {key : String} :
    key ∈ (units mode read tokens).map (topKey mode) ↔
      ∃ token ∈ tokens, topKey mode [read token] = key := by
  rw [List.mem_map]
  constructor
  · intro h
    obtain ⟨unit, hMem, rfl⟩ := h
    obtain ⟨_, hUnit, -⟩ := exists_isUnit_of_mem hMem
    obtain ⟨filter, hFilter⟩ := List.exists_mem_of_ne_nil unit hUnit.nonempty
    obtain ⟨token, hToken, rfl⟩ := exists_token_of_mem_unit hMem hFilter
    exact ⟨token, hToken, topKey_singleton hMem hFilter⟩
  · intro h
    obtain ⟨token, hToken, rfl⟩ := h
    obtain ⟨unit, hMem, hFilter⟩ := exists_unit_of_mem hToken
    exact ⟨unit, hMem, (topKey_singleton hMem hFilter).symm⟩

/-- A clause that holds the entries of the last units has the top keys of the units. -/
theorem mem_keys_iff_of_mem_iff {clause : Clause}
    (hEntries : ∀ entry, entry ∈ clause ↔
      ∃ unit ∈ lastsBy (topKey mode) (units mode read tokens), entry ∈ unitClause mode unit)
    {key : String} :
    key ∈ clause.keys ↔ key ∈ (units mode read tokens).map (topKey mode) := by
  have hLasts : key ∈ (lastsBy (topKey mode) (units mode read tokens)).map (topKey mode) ↔
      key ∈ (units mode read tokens).map (topKey mode) := mem_keys_lastsBy
  rw [← hLasts, Table.keys, List.mem_map, List.mem_map]
  constructor
  · intro h
    obtain ⟨entry, hEntry, rfl⟩ := h
    obtain ⟨unit, hLast, hUnit⟩ := (hEntries entry).1 hEntry
    obtain ⟨node, hNode⟩ := unitClause_of_mem (mem_of_mem_lastsBy hLast)
    rw [hNode] at hUnit
    rw [List.mem_singleton.1 hUnit]
    exact ⟨unit, hLast, rfl⟩
  · intro h
    obtain ⟨unit, hLast, rfl⟩ := h
    obtain ⟨node, hNode⟩ := unitClause_of_mem (mem_of_mem_lastsBy hLast)
    exact ⟨_, (hEntries _).2 ⟨unit, hLast, hNode ▸ List.mem_cons_self⟩, rfl⟩

/-! ## Replacements -/

/-- Compiling gives a clause with each top key once, and a note for each top key that is met
again. -/
theorem exists_run_compile_eq (hRead : ∀ token ∈ tokens, parse token = .ok (read token)) :
    ∃ clause : Clause, (compile mode tokens).run =
        ⟨(repeats [] ((units mode read tokens).map (topKey mode))).map .keyReplaced, .ok clause⟩ ∧
      clause.keys.Nodup ∧
      ∀ key, key ∈ clause.keys ↔ key ∈ (units mode read tokens).map (topKey mode) := by
  obtain ⟨clause, hCompile, hSorted, hEntries⟩ := @exists_compile_eq_ok mode read tokens hRead
  refine ⟨clause, ?_, hSorted.nodup_keys, fun key => mem_keys_iff_of_mem_iff hEntries⟩
  rw [← hCompile, ← log_compile hRead]

/-- **Every replacement is accounted for.** Flat filters compile to a clause that has their fields
as keys, and nothing is replaced. Nested filters compile to a clause that has the top keys of the
units as keys; for each unit whose top key an earlier unit has a note names this key, so that the
notes and the keys are together as many as the units. -/
theorem compile_accounts_for_units (hRead : ∀ token ∈ tokens, parse token = .ok (read token)) :
    (∃ clause : Clause, (compile .flat tokens).run = ⟨[], .ok clause⟩ ∧ clause.keys.Nodup ∧
      ∀ key, key ∈ clause.keys ↔ ∃ token ∈ tokens, (read token).field = key) ∧
    ∃ (log : List Event) (clause : Clause), (compile .nested tokens).run = ⟨log, .ok clause⟩ ∧
      let units := combinedUnits .nested read tokens ++
        (aloneTokens .nested read tokens).map fun token => [read token]
      clause.keys.Nodup ∧ (∀ key, key ∈ clause.keys ↔ ∃ unit ∈ units, topKey .nested unit = key) ∧
      log = (units.zipIdx.filter fun entry =>
          topKey .nested entry.1 ∈ (units.take entry.2).map (topKey .nested)).map
        (fun entry => .keyReplaced (topKey .nested entry.1)) ∧
      log.length + clause.length = units.length := by
  constructor
  · obtain ⟨clause, hRun, hNodup, hKeys⟩ := @exists_run_compile_eq .flat read tokens hRead
    have hSilent : repeats [] ((units .flat read tokens).map (topKey .flat)) = [] :=
      repeats_eq_nil_iff.2 ⟨nodup_topKeys_flat, by simp⟩
    rw [hSilent] at hRun
    refine ⟨clause, hRun, hNodup, ?_⟩
    intro key
    rw [hKeys, mem_topKeys_units_iff]
    rfl
  · obtain ⟨clause, hRun, hNodup, hKeys⟩ := @exists_run_compile_eq .nested read tokens hRead
    refine ⟨_, clause, hRun, ?_⟩
    rw [← units_eq]
    refine ⟨hNodup, fun key => (hKeys key).trans List.mem_map, ?_, ?_⟩
    · rw [repeats_eq_filter, List.zipIdx_map, List.filter_map, List.map_map, List.map_map]
      simp [Function.comp_def]
    · have hDistinct : ∀ key, key ∈ clause.keys ↔
          key ∈ (units .nested read tokens).map (topKey .nested) ∧ key ∉ [] := by
        intro key
        rw [hKeys]
        simp
      simpa [Table.keys] using length_repeats_add hNodup hDistinct

end Reading

/-- A group below a relation comes before the deeper token that replaces it, whatever their order in
the list. -/
theorem compile_accounts_for_units_addr :
    ∃ clause : Clause,
      (compile .nested ["addr.geo.lat>>10", "addr.city==NY", "name==Ann", "addr.zip==1"]).run =
        ⟨[.keyReplaced "addr"], .ok clause⟩ ∧
      (∀ key, key ∈ clause.keys ↔ key = "addr" ∨ key = "name") ∧ clause.length = 2 := by
  let tokens := ["addr.geo.lat>>10", "addr.city==NY", "name==Ann", "addr.zip==1"]
  have hRead := parse_eq_readD (show ∀ token ∈ tokens, (parse token).toOption.isSome by decide)
  have hUnits : combinedUnits .nested readD tokens ++
      (aloneTokens .nested readD tokens).map (fun token => [readD token]) =
        [[⟨"addr.city", .eq, .str "NY"⟩, ⟨"addr.zip", .eq, .num (.int 1)⟩],
          [⟨"addr.geo.lat", .gt, .num (.int 10)⟩], [⟨"name", .eq, .str "Ann"⟩]] := by
    rfl
  obtain ⟨-, log, clause, hRun, -, hKeys, hLog, hCount⟩ := compile_accounts_for_units hRead
  rw [hUnits] at hKeys hLog hCount
  have hNoted : log = [.keyReplaced "addr"] := hLog
  rw [hNoted] at hRun hCount
  refine ⟨clause, hRun, ?_, ?_⟩
  · intro key
    have hTops : (segments "addr.city").head? = some "addr" ∧
        (segments "addr.geo.lat").head? = some "addr" ∧ (segments "name").head? = some "name" := by
      decide
    rw [hKeys]
    simp only [List.mem_cons, List.not_mem_nil, or_false, exists_eq_or_imp, exists_eq_left, topKey,
      List.headD_eq_head?_getD, hTops, Option.getD_some, or_self_left, @eq_comm _ key]
  · simp only [List.length_cons, List.length_nil] at hCount
    omega

end Paging.Filter
