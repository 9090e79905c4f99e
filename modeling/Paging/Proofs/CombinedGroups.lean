import Mathlib.Data.List.Forall2
import Paging.Proofs.Malformed

/-!
# Groups below common relations

A combined group says how many relations its tokens have in front, and its first token says which
ones. In nested mode every token of it is checked against them: a list of groups compiles exactly if
all tokens lie below the relations of the first of their group, and else fails of the first token
that does not, group by group (`compileCombined_checks_tokens`). The groups may be any, also ones
that grouping never makes: tokens may go on for several segments below the relations, may lie below
other ones or below too few, and a group may have no token at all.

The steps are the same for one token (`parseBelow_eq` and the lemmas beside it here), for one group
(`Combined.exists_compile_of_admitted`, `Combined.compile_of_refuses`) and for the list.
-/

namespace Paging.Filter

open Paging.Keyed

/-! ## What a group asks of its tokens -/

namespace Combined

/-- The first token of the group lies below these relations. -/
def Below (group : Combined) (relations : List String) : Prop :=
  ∃ first filter, group.tokens.head? = some first ∧ parse first = .ok filter ∧
    (segments filter.field).take group.level = relations

/-- A token can be read, and its field goes on below the relations of the first token. -/
def Admits (group : Combined) (token : String) : Prop :=
  ∃ filter, parse token = .ok filter ∧ group.level < (segments filter.field).length ∧
    group.Below ((segments filter.field).take group.level)

/-- Every token is admitted. -/
def Admitted (group : Combined) : Prop := ∀ token ∈ group.tokens, group.Admits token

/-- The error for a token that is not admitted, given the tokens before it. -/
inductive Refuses (group : Combined) : List String → String → QueryError → Prop where
  | malformed {before : List String} {token : String} (hMalformed : Malformed token) :
      Refuses group before token (.invalidFilter token)
  /-- The first token says no relations if it has too few segments. -/
  | short {token : String} {filter : Filter} (hParse : parse token = .ok filter)
      (hShort : (segments filter.field).length ≤ group.level) :
      Refuses group [] token
        (.mismatchedPrefix (toString group.level ++ " relation segment(s)") filter.field)
  /-- A later token has too few segments, or lies below other relations. -/
  | elsewhere {first token : String} {more : List String} {firstFilter filter : Filter}
      (hFirst : parse first = .ok firstFilter) (hParse : parse token = .ok filter)
      (hNot : ¬group.Admits token) :
      Refuses group (first :: more) token
        (.mismatchedPrefix (".".intercalate ((segments firstFilter.field).take group.level))
          filter.field)

/-- The clause of a group: nothing if it has no token, else a chain of relations to a list with one
clause for each token, in the order of the tokens, that leads on to the token's condition. -/
inductive CompilesTo (group : Combined) : Clause → Prop where
  | empty (hNone : group.tokens = []) : CompilesTo group []
  | below {relations : List String} {siblings : List Clause} {clause : Clause}
      (hBelow : group.Below relations)
      (hSiblings : List.Forall₂ (fun token (sibling : Clause) =>
        ∃ filter, parse token = .ok filter ∧
          sibling.Leads ((segments filter.field).drop group.level) (.condition filter.condition))
        group.tokens siblings)
      (hLeads : clause.Leads relations (.relatedAll siblings)) : CompilesTo group clause

/-! ## One token -/

theorem parseBelow_of_malformed {token : String} (hMalformed : Malformed token) (level : Nat)
    (expected : Option (List String)) :
    parseBelow level expected token = .error (.invalidFilter token) := by
  rw [parseBelow, hMalformed.errors.1]
  rfl

theorem parseBelow_of_short {token : String} {filter : Filter} {level : Nat}
    (hParse : parse token = .ok filter) (hShort : (segments filter.field).length ≤ level) :
    parseBelow level none token =
      .error (.mismatchedPrefix (toString level ++ " relation segment(s)") filter.field) := by
  have hNone : relations? level (segments filter.field) = none := if_neg (by omega)
  rw [parseBelow, hParse, Results.ok_bind]
  simp only [hNone]
  rfl

theorem parseBelow_of_elsewhere {token : String} {filter : Filter} {level : Nat}
    {relations : List String} (hParse : parse token = .ok filter)
    (hNot : ¬(level < (segments filter.field).length ∧
      (segments filter.field).take level = relations)) :
    parseBelow level (some relations) token =
      .error (.mismatchedPrefix (".".intercalate relations) filter.field) := by
  rw [parseBelow, hParse, Results.ok_bind]
  by_cases hLong : level < (segments filter.field).length
  · have hSome : relations? level (segments filter.field) =
        some ((segments filter.field).take level) := if_pos hLong
    have hOther : (segments filter.field).take level ≠ relations := fun h => hNot ⟨hLong, h⟩
    simp only [hSome, if_neg hOther]
    rfl
  · have hNone : relations? level (segments filter.field) = none := if_neg hLong
    simp only [hNone]
    rfl

/-! ## One group -/

section Group

variable {group : Combined}

theorem parse_of_admits {token : String} (hAdmits : group.Admits token) :
    parse token = .ok (readD token) := by
  obtain ⟨filter, hParse, -⟩ := hAdmits
  rw [hParse, readD_eq hParse]

/-- Tokens that are admitted go on below the relations of the first one, which are as many as the
group says. -/
theorem exists_relations {first : String} {more : List String}
    (hHead : group.tokens.head? = some first)
    (hAdmits : ∀ token ∈ first :: more, group.Admits token) :
    ∃ relations, (segments (readD first).field).take group.level = relations ∧
      relations.length = group.level ∧
      ∀ token ∈ first :: more, ∃ name rest,
        segments (readD token).field = relations ++ name :: rest := by
  refine ⟨_, rfl, ?_, ?_⟩
  · obtain ⟨filter, hParse, hLong, -⟩ := hAdmits first List.mem_cons_self
    rw [readD_eq hParse, List.length_take]
    omega
  · intro token hMem
    obtain ⟨filter, hParse, hLong, other, otherFilter, hOther, hOtherParse, hSame⟩ :=
      hAdmits token hMem
    obtain rfl : first = other := Option.some.inj (hHead.symm.trans hOther)
    have hNe : (segments filter.field).drop group.level ≠ [] := by
      rw [Ne, List.drop_eq_nil_iff]
      omega
    obtain ⟨name, rest, hDrop⟩ := List.exists_cons_of_ne_nil hNe
    refine ⟨name, rest, ?_⟩
    rw [readD_eq hParse, readD_eq hOtherParse, hSame, ← hDrop, List.take_append_drop]

theorem compile_eq_compileBelow (hLevel : 0 < group.level) :
    group.compile .nested = compileBelow group.level group.tokens :=
  if_pos ⟨rfl, hLevel⟩

/-- A group whose tokens are all admitted compiles. -/
theorem exists_compile_of_admitted (hLevel : 0 < group.level) (hAdmitted : group.Admitted) :
    ∃ clause, group.compile .nested = .ok clause ∧ group.CompilesTo clause := by
  cases hTokens : group.tokens with
  | nil =>
      refine ⟨[], ?_, .empty hTokens⟩
      rw [compile_eq_compileBelow hLevel, hTokens]
      rfl
  | cons first rest =>
      rw [Admitted, hTokens] at hAdmitted
      have hHead : group.tokens.head? = some first := by rw [hTokens, List.head?_cons]
      have hRead : ∀ token ∈ first :: rest, parse token = .ok (readD token) :=
        fun token hMem => parse_of_admits (hAdmitted token hMem)
      obtain ⟨relations, hRelations, hLength, hSegments⟩ := exists_relations hHead hAdmitted
      have hNe : relations ≠ [] := List.length_pos_iff.1 (by omega)
      obtain ⟨clause, hWrap, hLeads⟩ := Clause.exists_leads_wrap? hNe
        (.all (((first :: rest).map readD).map fun filter =>
          .expand (segments filter.field) filter.condition relations.length))
      have hFirst := hRead first List.mem_cons_self
      refine ⟨clause, ?_, .below ⟨first, readD first, hHead, hFirst, hRelations⟩ ?_ hLeads⟩
      · rw [compile_eq_compileBelow hLevel, hTokens, ← hLength, compileBelow_eq hRead hSegments,
          clauseBelow, hWrap, Option.getD_some]
      · rw [hTokens, List.forall₂_map_right_iff, List.forall₂_map_right_iff, List.forall₂_same]
        intro token hMem
        obtain ⟨name, more, hToken⟩ := hSegments token hMem
        refine ⟨readD token, hRead token hMem, ?_⟩
        rw [← hLength, Clause.expand, hToken, List.drop_left]
        exact Clause.leads_ofPath (List.cons_ne_nil name more) _

/-- A token that is not admitted, behind tokens that are, is refused with an error. -/
theorem exists_refuses {before after : List String} {token : String}
    (hTokens : group.tokens = before ++ token :: after)
    (hBefore : ∀ other ∈ before, group.Admits other) (hNot : ¬group.Admits token) :
    ∃ error, group.Refuses before token error := by
  rcases read_or_malformed token with hParse | hMalformed
  · cases before with
    | nil =>
        have hHead : group.tokens.head? = some token := by rw [hTokens]; rfl
        refine ⟨_, .short hParse (Nat.not_lt.1 fun hLong => hNot ?_)⟩
        exact ⟨_, hParse, hLong, token, _, hHead, hParse, rfl⟩
    | cons first more =>
        have hFirst := parse_of_admits (hBefore first List.mem_cons_self)
        exact ⟨_, .elsewhere hFirst hParse hNot⟩
  · exact ⟨_, .malformed hMalformed⟩

theorem compileBelow_of_first {level : Nat} {token : String} {error : QueryError}
    (hError : parseBelow level none token = .error error) (after : List String) :
    compileBelow level (token :: after) = .error error := by
  rw [compileBelow, hError]
  rfl

theorem compileBelow_of_later {first token : String} {more : List String} {error : QueryError}
    (hHead : group.tokens.head? = some first)
    (hBefore : ∀ other ∈ first :: more, group.Admits other)
    (hError : parseBelow group.level (some ((segments (readD first).field).take group.level)) token =
      .error error) (after : List String) :
    compileBelow group.level (first :: more ++ token :: after) = .error error := by
  obtain ⟨relations, hRelations, hLength, hSegments⟩ := exists_relations hHead hBefore
  rw [hRelations, ← hLength] at hError
  have hMore : ∀ other ∈ more,
      (do return (← parseBelow relations.length (some relations) other).2) =
        (.ok (.expand (segments (readD other).field) (readD other).condition relations.length) :
          Except QueryError Clause) := by
    intro other hMem
    have hLater := List.mem_cons_of_mem first hMem
    obtain ⟨name, rest, hName⟩ := hSegments other hLater
    exact parseBelow_snd_eq (parse_of_admits (hBefore other hLater)) hName
  have hToken : (do return (← parseBelow relations.length (some relations) token).2) =
      (.error error : Except QueryError Clause) := by
    rw [hError]
    rfl
  obtain ⟨name, rest, hName⟩ := hSegments first List.mem_cons_self
  have hFirst := parse_of_admits (hBefore first List.mem_cons_self)
  rw [← hLength, List.cons_append, compileBelow_cons (parseBelow_eq hFirst hName (.inl rfl)),
    Results.mapM_eq_error (fun other hMem => ⟨_, hMore other hMem⟩) hToken after]
  rfl

/-- The error of a group is the one for its first token that is not admitted. -/
theorem compile_of_refuses {before after : List String} {token : String} {error : QueryError}
    (hLevel : 0 < group.level) (hTokens : group.tokens = before ++ token :: after)
    (hBefore : ∀ other ∈ before, group.Admits other) (hRefuses : group.Refuses before token error) :
    group.compile .nested = .error error := by
  have hHead : ∀ first more, before = first :: more → group.tokens.head? = some first := by
    intro first more hEq
    rw [hTokens, hEq]
    rfl
  rw [compile_eq_compileBelow hLevel, hTokens]
  cases hRefuses with
  | malformed hMalformed =>
      have hError := parseBelow_of_malformed hMalformed group.level
      cases before with
      | nil => exact compileBelow_of_first (hError none) after
      | cons first more => exact compileBelow_of_later (hHead first more rfl) hBefore (hError _) after
  | short hParse hShort => exact compileBelow_of_first (parseBelow_of_short hParse hShort) after
  | @elsewhere first _ more firstFilter filter hFirst hParse hNot =>
      have hFront := hHead first more rfl
      refine compileBelow_of_later hFront hBefore ?_ after
      rw [readD_eq hFirst]
      refine parseBelow_of_elsewhere hParse fun hBelow => hNot ?_
      exact ⟨filter, hParse, hBelow.1, first, firstFilter, hFront, hFirst, hBelow.2.symm⟩

end Group

end Combined

/-! ## Many groups -/

section Groups

variable {groups : List Combined}

/-- Groups that admit all their tokens compile to the clause that holds the last entry under each
key. -/
theorem exists_compileCombined_of_admitted (hLevels : ∀ group ∈ groups, 0 < group.level)
    (hAdmitted : ∀ group ∈ groups, group.Admitted) :
    ∃ clauses clause, List.Forall₂ Combined.CompilesTo groups clauses ∧
      (compileCombined .nested groups).run.value = .ok clause ∧ clause.Sorted ∧
      ∀ entry, entry ∈ clause ↔ entry ∈ lastsBy Prod.fst clauses.flatten := by
  let clauseOf := fun group : Combined => (group.compile .nested).toOption.getD []
  have hEach : ∀ group ∈ groups,
      group.compile .nested = .ok (clauseOf group) ∧ group.CompilesTo (clauseOf group) := by
    intro group hMem
    obtain ⟨clause, hOk, hClause⟩ :=
      Combined.exists_compile_of_admitted (hLevels group hMem) (hAdmitted group hMem)
    have hEq : clauseOf group = clause := by
      show (group.compile .nested).toOption.getD [] = clause
      rw [hOk]
      rfl
    rw [hEq]
    exact ⟨hOk, hClause⟩
  refine ⟨groups.map clauseOf, Table.ofList (groups.flatMap clauseOf), ?_, ?_,
    Table.sorted_ofList _, ?_⟩
  · rw [List.forall₂_map_right_iff, List.forall₂_same]
    exact fun group hMem => (hEach group hMem).2
  · rw [compileCombined_of_compile fun group hMem => (hEach group hMem).1]
    show Except.ok (Clause.merge [] _).value = _
    rw [Clause.value_merge]
    rfl
  · intro entry
    rw [Table.mem_ofList_iff, List.flatMap_def]

/-- The error of the groups is that of the first one that does not compile. -/
theorem compileCombined_of_error {earlier : List Combined} {group : Combined} {error : QueryError}
    {clause : Clause} (hEarlier : (compileCombined .nested earlier).run.value = .ok clause)
    (hError : group.compile .nested = .error error) (later : List Combined) :
    (compileCombined .nested (earlier ++ group :: later)).run.value = .error error := by
  rw [compileCombined, List.foldlM_append, ← compileCombined, Results.value_bind_of_eq_ok hEarlier,
    List.foldlM_cons, hError]
  rfl

/-- The groups hold a token that is refused, behind tokens and groups that are admitted. -/
def FirstRefused (groups : List Combined) (error : QueryError) : Prop :=
  ∃ earlier group later before token after, groups = earlier ++ group :: later ∧
    group.tokens = before ++ token :: after ∧ (∀ other ∈ earlier, other.Admitted) ∧
    (∀ other ∈ before, group.Admits other) ∧ group.Refuses before token error

theorem compileCombined_of_firstRefused {error : QueryError}
    (hLevels : ∀ group ∈ groups, 0 < group.level) (hRefused : FirstRefused groups error) :
    (compileCombined .nested groups).run.value = .error error := by
  obtain ⟨earlier, group, later, before, token, after, rfl, hTokens, hEarlier, hBefore, hRefuses⟩ :=
    hRefused
  have hEarlierLevels : ∀ other ∈ earlier, 0 < other.level :=
    fun other hMem => hLevels other (List.mem_append_left _ hMem)
  obtain ⟨-, clause, -, hOk, -⟩ := exists_compileCombined_of_admitted hEarlierLevels hEarlier
  have hError := Combined.compile_of_refuses (hLevels group (by simp)) hTokens hBefore hRefuses
  exact compileCombined_of_error hOk hError later

theorem admitted_or_exists_firstRefused (groups : List Combined) :
    (∀ group ∈ groups, group.Admitted) ∨ ∃ error, FirstRefused groups error := by
  rcases Results.forall_or_exists_first Combined.Admitted groups with
    hAll | ⟨group, earlier, later, hGroups, hEarlier, hGroup⟩
  · exact .inl hAll
  · rcases Results.forall_or_exists_first group.Admits group.tokens with
      hTokens | ⟨token, before, after, hTokens, hBefore, hToken⟩
    · exact absurd hTokens hGroup
    · obtain ⟨error, hRefuses⟩ := Combined.exists_refuses hTokens hBefore hToken
      exact .inr ⟨error, earlier, group, later, before, token, after, hGroups, hTokens, hEarlier,
        hBefore, hRefuses⟩

end Groups

/-- **Every token of a group is checked.** Groups below relations compile exactly if all their tokens
lie below the relations of the first token of their group; the result is the union of the clauses of
the groups, the entry of a later group in place of an earlier one. Otherwise the error is the one for
the first token that does not, group by group. -/
theorem compileCombined_checks_tokens (groups : List Combined)
    (hLevels : ∀ group ∈ groups, 0 < group.level) :
    ((∃ clause, (compileCombined .nested groups).run.value = .ok clause) ↔
      ∀ group ∈ groups, group.Admitted) ∧
    (∀ clause, (compileCombined .nested groups).run.value = .ok clause →
      ∃ clauses, List.Forall₂ Combined.CompilesTo groups clauses ∧ clause.Sorted ∧
        ∀ entry, entry ∈ clause ↔ entry ∈ lastsBy Prod.fst clauses.flatten) ∧
    ∀ error, (compileCombined .nested groups).run.value = .error error ↔
      FirstRefused groups error := by
  have hRefuse := fun error => @compileCombined_of_firstRefused groups error hLevels
  rcases admitted_or_exists_firstRefused groups with hAdmitted | ⟨error, hRefused⟩
  · obtain ⟨clauses, clause, hClauses, hOk, hSorted, hEntries⟩ :=
      exists_compileCombined_of_admitted hLevels hAdmitted
    refine ⟨iff_of_true ⟨clause, hOk⟩ hAdmitted, ?_, fun error => ⟨?_, hRefuse error⟩⟩
    · intro other hOther
      rw [hOk] at hOther
      cases hOther
      exact ⟨clauses, hClauses, hSorted, hEntries⟩
    · intro hError
      rw [hOk] at hError
      cases hError
  · have hError := hRefuse error hRefused
    have hFails : ∀ clause, (compileCombined .nested groups).run.value ≠ .ok clause := by
      intro clause hOk
      rw [hError] at hOk
      cases hOk
    have hNot : ¬∀ group ∈ groups, group.Admitted := by
      intro hAdmitted
      obtain ⟨-, clause, -, hOk, -⟩ := exists_compileCombined_of_admitted hLevels hAdmitted
      exact hFails clause hOk
    refine ⟨iff_of_false (fun h => h.elim hFails) hNot, ?_, fun other => ⟨?_, hRefuse other⟩⟩
    · intro clause hOk
      exact absurd hOk (hFails clause)
    · intro hOther
      rw [hError] at hOther
      cases hOther
      exact hRefused

/-- Tokens of one group may lie at different depths below its relation. A token below another
relation is refused, and it is the first one that is; the first token is refused if it names too few
relations. -/
theorem compileCombined_checks_tokens_addr :
    (∃ clause, (compileCombined .nested
      [⟨1, ["addr.city==NY", "addr.geo.lat>>1"]⟩, ⟨2, []⟩]).run.value = .ok clause) ∧
    (compileCombined .nested [⟨1, ["addr.city==NY", "addr.geo.lat>>1"]⟩,
      ⟨2, ["a.b.c==1", "a.x.c==2", "b==3", "c"]⟩]).run.value =
      .error (.mismatchedPrefix "a.b" "a.x.c") ∧
    (compileCombined .nested [⟨2, ["a.b==1", "a.b.c==2"]⟩]).run.value =
      .error (.mismatchedPrefix "2 relation segment(s)" "a.b") := by
  have hAddr : (⟨1, ["addr.city==NY", "addr.geo.lat>>1"]⟩ : Combined).Admitted := by
    intro token hMem
    simp only [List.mem_cons, List.not_mem_nil, or_false] at hMem
    rcases hMem with rfl | rfl
    · exact ⟨readD "addr.city==NY", rfl, by decide, "addr.city==NY", readD "addr.city==NY", rfl, rfl,
        rfl⟩
    · exact ⟨readD "addr.geo.lat>>1", rfl, by decide, "addr.city==NY", readD "addr.city==NY", rfl, rfl,
        by decide⟩
  have hOther : Combined.Refuses ⟨2, ["a.b.c==1", "a.x.c==2", "b==3", "c"]⟩ ["a.b.c==1"] "a.x.c==2"
      (.mismatchedPrefix "a.b" "a.x.c") := by
    refine @Combined.Refuses.elsewhere _ "a.b.c==1" "a.x.c==2" [] (readD "a.b.c==1")
      (readD "a.x.c==2") rfl rfl ?_
    rintro ⟨filter, hParse, -, first, firstFilter, hHead, hFirst, hSame⟩
    cases hHead
    rw [← readD_eq hParse, ← readD_eq hFirst] at hSame
    exact absurd hSame (by decide)
  have hShort : Combined.Refuses ⟨2, ["a.b==1", "a.b.c==2"]⟩ [] "a.b==1"
      (.mismatchedPrefix "2 relation segment(s)" "a.b") :=
    @Combined.Refuses.short _ "a.b==1" (readD "a.b==1") rfl (by decide)
  refine ⟨?_, ?_, ?_⟩
  · have hChecks := compileCombined_checks_tokens
      [⟨1, ["addr.city==NY", "addr.geo.lat>>1"]⟩, ⟨2, []⟩] (by decide)
    exact hChecks.1.2 (List.forall_mem_cons.2 ⟨hAddr, List.forall_mem_singleton.2 nofun⟩)
  · have hChecks := compileCombined_checks_tokens [⟨1, ["addr.city==NY", "addr.geo.lat>>1"]⟩,
      ⟨2, ["a.b.c==1", "a.x.c==2", "b==3", "c"]⟩] (by decide)
    refine (hChecks.2.2 _).2 ⟨[_], _, [], ["a.b.c==1"], "a.x.c==2", ["b==3", "c"], rfl, rfl,
      List.forall_mem_singleton.2 hAddr, List.forall_mem_singleton.2 ?_, hOther⟩
    exact ⟨readD "a.b.c==1", rfl, by decide, "a.b.c==1", readD "a.b.c==1", rfl, rfl, rfl⟩
  · have hChecks := compileCombined_checks_tokens [⟨2, ["a.b==1", "a.b.c==2"]⟩] (by decide)
    exact (hChecks.2.2 _).2 ⟨[], _, [], [], "a.b==1", ["a.b.c==2"], rfl, rfl, nofun, nofun, hShort⟩

end Paging.Filter
