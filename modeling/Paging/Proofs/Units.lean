import Paging.Proofs.UnitClauses

/-!
# Compiling unit by unit

The units of a list of tokens are its combined groups, in the order in which their keys are met, and
after them the tokens that are alone. Compiling the list assigns the entries of their clauses one
after the other to the empty clause (`compile_eq`). So the compiled clause holds the entry of the
last unit with each top key (`exists_compile_eq_ok`), and a replacement is noted for every other
unit (`log_compile`).
-/

namespace Paging.Filter

open Paging.Keyed

/-! ## Groups -/

theorem compileFlat_eq {read : String → Filter} {token : String} {rest : List String}
    (hRead : ∀ other ∈ token :: rest, parse other = .ok (read other)) :
    compileFlat (token :: rest) =
      .ok (.single (read token).field
        (.condition (mergedCondition (read token) (rest.map read)))) := by
  rw [compileFlat, Results.mapM_eq_ok hRead]
  rfl

theorem relations?_append (relations : List String) (name : String) (more : List String) :
    relations? relations.length (relations ++ name :: more) = some relations := by
  rw [relations?, if_pos (by simp), List.take_left]

/-- A token below the relations that its group expects is read as the clause of what follows
them; so is the first token, which sets them. -/
theorem parseBelow_eq {token name : String} {more : List String} {filter : Filter}
    {relations : List String} {expected : Option (List String)}
    (hParse : parse token = .ok filter)
    (hSegments : segments filter.field = relations ++ name :: more)
    (hExpected : expected = none ∨ expected = some relations) :
    parseBelow relations.length expected token =
      .ok (relations, .expand (segments filter.field) filter.condition relations.length) := by
  rw [parseBelow, hParse, Results.ok_bind, hSegments]
  simp only [relations?_append]
  rcases hExpected with rfl | rfl
  · rfl
  · simp only [↓reduceIte]
    rfl

/-- The first token says which relations the others are read below. -/
theorem compileBelow_cons {token : String} {level : Nat} {relations : List String} {clause : Clause}
    (hFirst : parseBelow level none token = .ok (relations, clause)) (rest : List String) :
    compileBelow level (token :: rest) = (do
      let clauses ← rest.mapM fun other => do
        return (← parseBelow level (some relations) other).2
      return (Clause.wrap? relations (.all (clause :: clauses))).getD []) := by
  rw [compileBelow, hFirst]
  rfl

theorem parseBelow_snd_eq {token name : String} {more : List String} {filter : Filter}
    {relations : List String} (hParse : parse token = .ok filter)
    (hSegments : segments filter.field = relations ++ name :: more) :
    (do return (← parseBelow relations.length (some relations) token).2) =
      (.ok (.expand (segments filter.field) filter.condition relations.length) :
        Except QueryError Clause) := by
  rw [parseBelow_eq hParse hSegments (.inr rfl)]
  rfl

theorem compileBelow_eq {read : String → Filter} {token : String} {rest : List String}
    {relations : List String}
    (hRead : ∀ other ∈ token :: rest, parse other = .ok (read other))
    (hSegments : ∀ other ∈ token :: rest,
      ∃ name more, segments (read other).field = relations ++ name :: more) :
    compileBelow relations.length (token :: rest) =
      .ok (clauseBelow relations ((token :: rest).map read)) := by
  obtain ⟨name, more, hName⟩ := hSegments token List.mem_cons_self
  have hRest : ∀ other ∈ rest,
      (do return (← parseBelow relations.length (some relations) other).2) =
        (.ok (.expand (segments (read other).field) (read other).condition relations.length) :
          Except QueryError Clause) := by
    intro other hMem
    have hLater := List.mem_cons_of_mem token hMem
    obtain ⟨otherName, otherMore, hOther⟩ := hSegments other hLater
    exact parseBelow_snd_eq (hRead other hLater) hOther
  rw [compileBelow_cons (parseBelow_eq (hRead token List.mem_cons_self) hName (.inl rfl)),
    Results.mapM_eq_ok hRest, Results.ok_bind, clauseBelow, List.map_map]
  rfl

theorem expand_append (relations : List String) (name : String) (leaf : Condition) :
    Clause.expand (relations ++ [name]) leaf relations.length =
      .single name (.condition leaf) := by
  rw [Clause.expand, List.drop_left]
  rfl

/-! ## Units -/

/-- The units of a list of tokens: groups of two or more, and after them tokens that are alone. -/
def units (mode : Mode) (read : String → Filter) (tokens : List String) : List (List Filter) :=
  let groups := groupsBy (keyOf mode read) tokens.eraseDups
  (groups.filter (·.2.length ≠ 1) ++ groups.filter (·.2.length = 1)).map fun group =>
    group.2.map read

section Compile

variable {mode : Mode} {read : String → Filter} {tokens : List String}

theorem ofTokens_eq (hRead : ∀ token ∈ tokens, parse token = .ok (read token)) :
    Groups.ofTokens mode tokens = .ok {
      simple := ((groupsBy (keyOf mode read) tokens).filter (·.2.length = 1)).flatMap (·.2)
      combined := ((groupsBy (keyOf mode read) tokens).filter (·.2.length ≠ 1)).map
        fun group => ⟨group.1.level, group.2⟩ } := by
  have hSimple : ∀ groups : List (Key × List String),
      (groups.flatMap fun group => if group.2.length = 1 then group.2 else []) =
        (groups.filter (·.2.length = 1)).flatMap (·.2) := by
    intro groups
    induction groups with
    | nil => rfl
    | cons group rest ih =>
        by_cases hOne : group.2.length = 1
        · simp [hOne, ih]
        · simp [hOne, ih]
  have hCombined : ∀ groups : List (Key × List String),
      (groups.filterMap fun group =>
        if group.2.length = 1 then none else some (⟨group.1.level, group.2⟩ : Combined)) =
        (groups.filter (·.2.length ≠ 1)).map fun group => ⟨group.1.level, group.2⟩ := by
    intro groups
    induction groups with
    | nil => rfl
    | cons group rest ih =>
        by_cases hOne : group.2.length = 1
        · simp [hOne, ih]
        · simp [hOne, ih]
  rw [Groups.ofTokens, byKey_eq hRead, Results.ok_bind]
  simp only [hSimple, hCombined]
  rfl

/-- A group of tokens that have one key compiles to the clause of the filters in it. -/
theorem compile_group {key : Key} {members : List String} (hMany : 1 < members.length)
    (hRead : ∀ token ∈ members, parse token = .ok (read token))
    (hKey : ∀ token ∈ members, keyOf mode read token = key) :
    Combined.compile mode ⟨key.level, members⟩ = .ok (unitClause mode (members.map read)) := by
  match members with
  | [] => simp at hMany
  | [_] => simp at hMany
  | token :: next :: rest =>
      have hFirst : Key.ofField mode (read token).field = key := hKey token List.mem_cons_self
      show (if mode = .nested ∧ 0 < key.level then compileBelow key.level (token :: next :: rest)
        else compileFlat (token :: next :: rest)) = _
      cases key with
      | field path =>
          obtain ⟨hPath, hDots⟩ := Key.field_of_field hFirst
          have hFlat : ¬(mode = .nested ∧ 0 < (Key.field path).level) := by
            intro h
            obtain ⟨hMode, hPos⟩ := h
            have hNone := hDots hMode
            rw [hPath] at hNone
            rw [Key.level] at hPos
            omega
          rw [if_neg hFlat, compileFlat_eq hRead, hPath, ← unitClause_of_field hFirst]
          rfl
      | below relations =>
          obtain ⟨hMode, hNe, -⟩ := Key.segments_of_below hFirst
          have hPos : 0 < (Key.below relations).level := List.length_pos_iff.2 hNe
          have hSegments : ∀ other ∈ token :: next :: rest,
              ∃ name more, segments (read other).field = relations ++ name :: more := by
            intro other hMem
            obtain ⟨-, -, name, hName⟩ := Key.segments_of_below (hKey other hMem)
            exact ⟨name, [], hName⟩
          rw [if_pos ⟨hMode, hPos⟩, Key.level, compileBelow_eq hRead hSegments, List.map_cons,
            List.map_cons, unitClause_below hFirst]

theorem addSimple_eq {token : String} (hRead : parse token = .ok (read token)) (clause : Clause) :
    addSimple mode clause token = liftM (clause.merge (unitClause mode [read token])) := by
  have hStep : addSimple mode clause token =
      if mode = .nested ∧ 1 < (segments (read token).field).length then
        liftM (clause.merge (.expand (segments (read token).field) (read token).condition 0))
      else liftM (clause.assign (read token).field (.condition (read token).condition)) := by
    rw [addSimple, hRead]
    rfl
  rw [hStep, length_segments]
  cases hKey : Key.ofField mode (read token).field with
  | field path =>
      obtain ⟨hPath, hDots⟩ := Key.field_of_field hKey
      have hFlat : ¬(mode = .nested ∧ 1 < dots (read token).field + 1) := by
        intro h
        obtain ⟨hMode, hPos⟩ := h
        have := hDots hMode
        omega
      rw [if_neg hFlat, unitClause_of_field hKey, Clause.merge_single, hPath]
      rfl
  | below relations =>
      obtain ⟨hMode, hNe, name, hSegments⟩ := Key.segments_of_below hKey
      have hPos : 1 < dots (read token).field + 1 := by
        rw [dots_eq_length hSegments]
        exact Nat.succ_lt_succ (List.length_pos_iff.2 hNe)
      rw [if_pos ⟨hMode, hPos⟩, unitClause_alone hKey]
      rfl

/-- A walk whose every step merges a clause is one merge. -/
theorem foldlM_merge {α : Type} {step : Clause → α → Outcome QueryError Clause}
    {clauseOf : α → Clause} {items : List α}
    (hStep : ∀ item ∈ items, ∀ clause, step clause item = liftM (clause.merge (clauseOf item)))
    (clause : Clause) :
    items.foldlM step clause = liftM (clause.merge (items.flatMap clauseOf)) := by
  induction items generalizing clause with
  | nil =>
      rw [List.flatMap_nil, Clause.merge_nil, liftM_pure]
      rfl
  | cons item rest ih =>
      have hRest := ih fun other hMem => hStep other (List.mem_cons_of_mem item hMem)
      rw [List.foldlM_cons, hStep item List.mem_cons_self, List.flatMap_cons, Clause.merge_append,
        liftM_bind]
      exact bind_congr fun next => hRest next

/-- Groups that compile are merged one after the other. -/
theorem compileCombined_of_compile {groups : List Combined} {clauseOf : Combined → Clause}
    (hCompile : ∀ group ∈ groups, group.compile mode = .ok (clauseOf group)) :
    compileCombined mode groups = liftM (Clause.merge [] (groups.flatMap clauseOf)) := by
  apply foldlM_merge
  intro group hMem clause
  rw [hCompile group hMem]
  rfl

theorem compileCombined_eq {groups : List (Key × List String)}
    (hGroup : ∀ group ∈ groups, 1 < group.2.length ∧ ∀ token ∈ group.2,
      parse token = .ok (read token) ∧ keyOf mode read token = group.1) :
    compileCombined mode (groups.map fun group => ⟨group.1.level, group.2⟩) =
      liftM (Clause.merge [] (groups.flatMap fun group => unitClause mode (group.2.map read))) := by
  have hCompile : ∀ group ∈ groups.map fun group => (⟨group.1.level, group.2⟩ : Combined),
      group.compile mode = .ok (unitClause mode (group.tokens.map read)) := by
    intro group hMem
    obtain ⟨keyed, hKeyed, rfl⟩ := List.mem_map.1 hMem
    obtain ⟨hMany, hTokens⟩ := hGroup keyed hKeyed
    exact compile_group hMany (fun token h => (hTokens token h).1) fun token h => (hTokens token h).2
  rw [compileCombined_of_compile hCompile, List.flatMap_map]

theorem foldlM_addSimple_eq {groups : List (Key × List String)}
    (hGroup : ∀ group ∈ groups, group.2.length = 1 ∧ ∀ token ∈ group.2,
      parse token = .ok (read token)) (clause : Clause) :
    (groups.flatMap (·.2)).foldlM (addSimple mode) clause =
      liftM (clause.merge (groups.flatMap fun group => unitClause mode (group.2.map read))) := by
  have hStep : ∀ token ∈ groups.flatMap (·.2), ∀ clause : Clause,
      addSimple mode clause token = liftM (clause.merge (unitClause mode [read token])) := by
    intro token hMem clause
    obtain ⟨group, hFilter, hToken⟩ := List.mem_flatMap.1 hMem
    exact addSimple_eq ((hGroup group hFilter).2 token hToken) clause
  rw [foldlM_merge hStep, List.flatMap_assoc]
  refine congrArg (fun entries => liftM (clause.merge entries)) ?_
  refine List.flatMap_congr fun group hMem => ?_
  obtain ⟨token, hToken⟩ := List.length_eq_one_iff.1 (hGroup group hMem).1
  simp [hToken]

/-- **Compiling is one merge**: of the clauses of all units, in order, into the empty clause. -/
theorem compile_eq (hRead : ∀ token ∈ tokens, parse token = .ok (read token)) :
    compile mode tokens =
      liftM (Clause.merge [] ((units mode read tokens).flatMap (unitClause mode))) := by
  have hDistinct : ∀ token ∈ tokens.eraseDups, parse token = .ok (read token) :=
    fun token hMem => hRead token (List.mem_eraseDups.1 hMem)
  let groups := groupsBy (keyOf mode read) tokens.eraseDups
  have hGroup : ∀ group ∈ groups, ∀ token ∈ group.2,
      parse token = .ok (read token) ∧ keyOf mode read token = group.1 := by
    intro group hGroup token hMem
    rw [(mem_groupsBy_iff.1 hGroup).2, List.mem_filter] at hMem
    exact ⟨hDistinct token hMem.1, by simpa using hMem.2⟩
  have hMany : ∀ group ∈ groups.filter (·.2.length ≠ 1), 1 < group.2.length ∧
      ∀ token ∈ group.2, parse token = .ok (read token) ∧ keyOf mode read token = group.1 := by
    intro group hFilter
    obtain ⟨hMem, hLength⟩ := List.mem_filter.1 hFilter
    have hPos := List.length_pos_iff.2 (ne_nil_of_mem_groupsBy hMem)
    have hNe : group.2.length ≠ 1 := by simpa using hLength
    exact ⟨by omega, hGroup group hMem⟩
  have hAlone : ∀ group ∈ groups.filter (·.2.length = 1), group.2.length = 1 ∧
      ∀ token ∈ group.2, parse token = .ok (read token) := by
    intro group hFilter
    obtain ⟨hMem, hLength⟩ := List.mem_filter.1 hFilter
    exact ⟨by simpa using hLength, fun token hToken => (hGroup group hMem token hToken).1⟩
  have hCompile : compile mode tokens = (do
      let clause ← compileCombined mode
        ((groups.filter (·.2.length ≠ 1)).map fun group => ⟨group.1.level, group.2⟩)
      ((groups.filter (·.2.length = 1)).flatMap (·.2)).foldlM (addSimple mode) clause) := by
    rw [compile, ofTokens_eq hDistinct]
    rfl
  -- The walk over the groups and the walk over the tokens that are alone merge the clauses of the
  -- two halves of the units.
  rw [hCompile, compileCombined_eq hMany, units, List.flatMap_map, List.flatMap_append,
    Clause.merge_append, liftM_bind]
  exact bind_congr fun clause => foldlM_addSimple_eq hAlone clause

theorem isUnit_of_mem_groupsBy {group : Key × List String}
    (hGroup : group ∈ groupsBy (keyOf mode read) tokens.eraseDups) :
    IsUnit mode group.1 (group.2.map read) := by
  have hMembers := (mem_groupsBy_iff.1 hGroup).2
  refine ⟨?_, ?_⟩
  · have hNe := ne_nil_of_mem_groupsBy hGroup
    simpa using hNe
  · intro filter hRead
    obtain ⟨token, hToken, rfl⟩ := List.mem_map.1 hRead
    rw [hMembers, List.mem_filter] at hToken
    exact of_decide_eq_true hToken.2

theorem exists_isUnit_of_mem {unit : List Filter} (hMem : unit ∈ units mode read tokens) :
    ∃ key, IsUnit mode key unit ∧
      unit = (tokens.eraseDups.filter fun token => keyOf mode read token = key).map read := by
  obtain ⟨group, hFilter, rfl⟩ := List.mem_map.1 hMem
  have hGroup : group ∈ groupsBy (keyOf mode read) tokens.eraseDups := by
    rcases List.mem_append.1 hFilter with h | h
    · exact (List.mem_filter.1 h).1
    · exact (List.mem_filter.1 h).1
  exact ⟨group.1, isUnit_of_mem_groupsBy hGroup, by rw [← (mem_groupsBy_iff.1 hGroup).2]⟩

/-- A unit holds all tokens with its key. -/
theorem unit_eq_filter {unit : List Filter} {filter : Filter}
    (hMem : unit ∈ units mode read tokens) (hFilter : filter ∈ unit) :
    unit = (tokens.eraseDups.map read).filter fun other =>
      Key.ofField mode other.field = Key.ofField mode filter.field := by
  obtain ⟨key, hUnit, hAll⟩ := exists_isUnit_of_mem hMem
  rw [hUnit.ofField filter hFilter, List.filter_map]
  exact hAll

theorem exists_token_of_mem_unit {unit : List Filter} {filter : Filter}
    (hUnit : unit ∈ units mode read tokens) (hMem : filter ∈ unit) :
    ∃ token ∈ tokens, read token = filter := by
  rw [unit_eq_filter hUnit hMem] at hMem
  obtain ⟨token, hToken, hEq⟩ := List.mem_map.1 (List.mem_filter.1 hMem).1
  exact ⟨token, List.mem_eraseDups.1 hToken, hEq⟩

/-- Every token has a unit. -/
theorem exists_unit_of_mem {token : String} (hMem : token ∈ tokens) :
    ∃ unit ∈ units mode read tokens, read token ∈ unit := by
  let group := (keyOf mode read token,
    tokens.eraseDups.filter fun other => keyOf mode read other = keyOf mode read token)
  have hDistinct : token ∈ tokens.eraseDups := List.mem_eraseDups.2 hMem
  have hGroup : group ∈ groupsBy (keyOf mode read) tokens.eraseDups :=
    mem_groupsBy_iff.2 ⟨List.mem_map_of_mem hDistinct, rfl⟩
  refine ⟨group.2.map read, List.mem_map.2 ⟨group, ?_, rfl⟩, List.mem_map_of_mem ?_⟩
  · by_cases hOne : group.2.length = 1
    · exact List.mem_append_right _ (List.mem_filter.2 ⟨hGroup, by simpa using hOne⟩)
    · exact List.mem_append_left _ (List.mem_filter.2 ⟨hGroup, by simpa using hOne⟩)
  · exact List.mem_filter.2 ⟨hDistinct, by simp⟩

theorem unitClause_of_mem {unit : List Filter} (hMem : unit ∈ units mode read tokens) :
    ∃ node, unitClause mode unit = [(topKey mode unit, node)] := by
  obtain ⟨key, hUnit, -⟩ := exists_isUnit_of_mem hMem
  exact hUnit.exists_unitClause_eq

/-- Compiling tokens that can be read succeeds, with the entry of the last unit under each key. -/
theorem exists_compile_eq_ok (hRead : ∀ token ∈ tokens, parse token = .ok (read token)) :
    ∃ clause, (compile mode tokens).run.value = .ok clause ∧ clause.Sorted ∧
      ∀ entry, entry ∈ clause ↔
        ∃ unit ∈ lastsBy (topKey mode) (units mode read tokens), entry ∈ unitClause mode unit := by
  refine ⟨Table.ofList ((units mode read tokens).flatMap (unitClause mode)), ?_,
    Table.sorted_ofList _, ?_⟩
  · rw [compile_eq hRead]
    show Except.ok (Clause.merge [] _).value = _
    rw [Clause.value_merge]
    rfl
  · intro entry
    rw [Table.mem_ofList_iff]
    exact mem_lastsBy_flatMap_iff fun unit hMem => unitClause_of_mem hMem

/-- A replacement is noted for every unit whose top key an earlier unit has. -/
theorem log_compile (hRead : ∀ token ∈ tokens, parse token = .ok (read token)) :
    (compile mode tokens).run.log =
      (repeats [] ((units mode read tokens).map (topKey mode))).map .keyReplaced := by
  rw [compile_eq hRead]
  show (Clause.merge [] _ >>= fun clause => pure (Except.ok clause)).log = _
  rw [Logged.bind_log, Clause.log_merge, Logged.pure_log, List.append_nil,
    map_fst_flatMap fun unit hMem => unitClause_of_mem hMem]
  rfl

/-- Nothing is noted exactly where the units differ in their top keys. -/
theorem log_compile_eq_nil_iff (hRead : ∀ token ∈ tokens, parse token = .ok (read token)) :
    (compile mode tokens).run.log = [] ↔ ((units mode read tokens).map (topKey mode)).Nodup := by
  rw [log_compile hRead, List.map_eq_nil_iff, repeats_eq_nil_iff]
  simp

/-- In flat mode the units differ in their top keys, since these are their fields. -/
theorem nodup_topKeys_flat : ((units .flat read tokens).map (topKey .flat)).Nodup := by
  let groups := groupsBy (keyOf .flat read) tokens.eraseDups
  let sorted := groups.filter (·.2.length ≠ 1) ++ groups.filter (·.2.length = 1)
  -- Sorting the groups by their sizes changes their order only, so that their keys still differ.
  have hPerm : sorted.Perm groups := by
    have hBoth :=
      List.filter_append_perm (fun group : Key × List String => group.2.length = 1) groups
    refine List.perm_append_comm.trans (List.Perm.trans ?_ hBoth)
    simp
  have hKeys : (sorted.map Prod.fst).Nodup :=
    (hPerm.map Prod.fst).nodup_iff.2 (nodup_keys_groupsBy _ _)
  have hFields : ((units .flat read tokens).map (topKey .flat)).map Key.field =
      sorted.map Prod.fst := by
    rw [units, List.map_map, List.map_map]
    refine List.map_congr_left fun group hMem => ?_
    exact (isUnit_of_mem_groupsBy (hPerm.mem_iff.1 hMem)).field_topKey
  rw [← hFields] at hKeys
  exact hKeys.of_map

/-- Compiling flat tokens gives the entries of all units, and notes nothing. -/
theorem exists_run_compile_flat_eq (hRead : ∀ token ∈ tokens, parse token = .ok (read token)) :
    ∃ clause, (compile .flat tokens).run = ⟨[], .ok clause⟩ ∧ clause.Sorted ∧
      ∀ entry, entry ∈ clause ↔
        ∃ unit ∈ units .flat read tokens, entry ∈ unitClause .flat unit := by
  obtain ⟨clause, hCompile, hSorted, hEntries⟩ := @exists_compile_eq_ok .flat read tokens hRead
  rw [lastsBy_eq_self nodup_topKeys_flat] at hEntries
  refine ⟨clause, ?_, hSorted, hEntries⟩
  rw [← hCompile, ← (log_compile_eq_nil_iff hRead).2 nodup_topKeys_flat]

end Compile

end Paging.Filter
