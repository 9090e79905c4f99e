import Mathlib.Data.List.Induction
import Paging.Filter.Compile
import Paging.Proofs.Keyed
import Paging.Proofs.Results
import Paging.Proofs.TextPieces

/-!
# How tokens are grouped

`read` stands for what tokens say: every statement here is about tokens that can be read, and
assumes that `read` gives the filter of each of them. Grouping such tokens is grouping by key
(`byKey_eq`), and the groups differ in their keys. What the tokens of one group have in common
follows from the key (`segments_of_below`, `field_of_field`).
-/

namespace Paging.Filter

open Paging.Keyed

/-! ## Paths -/

theorem length_segments (path : String) : (segments path).length = dots path + 1 := by
  rw [segments, List.length_map, Text.length_pieces, dots]

theorem segments_ne_nil (path : String) : segments path ≠ [] := by
  intro hNil
  have hLength := length_segments path
  rw [hNil] at hLength
  simp at hLength

/-- A path without dots is its own and only segment. -/
theorem segments_of_dots_eq_zero {path : String} (hDots : dots path = 0) :
    segments path = [path] := by
  have hNot : '.' ∉ path.toList := List.count_eq_zero.1 hDots
  rw [segments, Text.pieces_of_not_mem hNot]
  simp

theorem dots_eq_length {path name : String} {relations : List String}
    (hSegments : segments path = relations ++ [name]) : dots path = relations.length := by
  have hLength := length_segments path
  rw [hSegments, List.length_append, List.length_singleton] at hLength
  omega

/-! ## Keys -/

namespace Key

theorem ofField_flat (path : String) : ofField .flat path = .field path := rfl

/-- In nested mode the dots decide which of the two kinds of key a field has. -/
theorem ofField_nested (path : String) :
    ofField .nested path =
      if dots path = 0 then .field path else .below (segments path).dropLast := by
  have hLength : (segments path).dropLast.length = dots path := by
    rw [List.length_dropLast, length_segments]
    omega
  unfold ofField
  cases hRelations : (segments path).dropLast with
  | nil =>
      rw [hRelations, List.length_nil] at hLength
      rw [if_pos hLength.symm]
  | cons relation relations =>
      rw [hRelations, List.length_cons] at hLength
      rw [if_neg (by omega)]

/-- A field that lies below no relation is its own key. -/
theorem ofField_of_undotted {mode : Mode} {path : String}
    (hDots : mode = .nested → dots path = 0) : ofField mode path = .field path := by
  cases mode with
  | flat => rfl
  | nested => rw [ofField_nested, if_pos (hDots rfl)]

/-- The level of a key is the number of dots of every field under it. -/
theorem level_ofField (mode : Mode) (path : String) : (ofField mode path).level = dots path := by
  cases mode with
  | flat => rfl
  | nested =>
      rw [ofField_nested]
      split
      · rfl
      · rw [level, List.length_dropLast, length_segments]
        omega

theorem field_of_field {mode : Mode} {path field : String}
    (hKey : ofField mode path = .field field) : path = field ∧ (mode = .nested → dots path = 0) := by
  cases mode with
  | flat =>
      rw [ofField_flat] at hKey
      exact ⟨Key.field.inj hKey, fun h => by cases h⟩
  | nested =>
      rw [ofField_nested] at hKey
      split at hKey
      · rename_i hDots
        exact ⟨Key.field.inj hKey, fun _ => hDots⟩
      · cases hKey

/-- The relations of a key stand before the last segment of every field under it. -/
theorem segments_of_below {mode : Mode} {path : String} {relations : List String}
    (hKey : ofField mode path = .below relations) :
    mode = .nested ∧ relations ≠ [] ∧ ∃ name, segments path = relations ++ [name] := by
  cases mode with
  | flat => cases hKey
  | nested =>
      rw [ofField_nested] at hKey
      split at hKey
      · cases hKey
      · rename_i hDots
        have hRelations : (segments path).dropLast = relations := Key.below.inj hKey
        refine ⟨rfl, ?_, (segments path).getLast (segments_ne_nil path), ?_⟩
        · intro hNil
          have hLength := length_segments path
          rw [hNil] at hRelations
          have hDrop : (segments path).dropLast.length = 0 := by rw [hRelations, List.length_nil]
          rw [List.length_dropLast] at hDrop
          omega
        · rw [← hRelations, List.dropLast_append_getLast]

end Key

/-! ## Groups -/

theorem parseField_of_parse {token : String} {filter : Filter}
    (hParse : parse token = .ok filter) : parseField token = .ok filter.field := by
  unfold parse at hParse
  unfold parseField
  cases hSplit : split? token with
  | error e => rw [hSplit] at hParse; cases hParse
  | ok parts =>
      rw [hSplit] at hParse
      obtain ⟨field, operator, value⟩ := parts
      cases hParse
      rfl

theorem exists_parse_of_parseField {token field : String} (hField : parseField token = .ok field) :
    ∃ filter, parse token = .ok filter := by
  unfold parseField at hField
  unfold parse
  cases hSplit : split? token with
  | error e => rw [hSplit] at hField; cases hField
  | ok parts => exact ⟨_, rfl⟩

namespace Groups

theorem addToken_of_mem {k : Key} {token : String} {members : Key → List String} {keys : List Key}
    (hNodup : keys.Nodup) (hMem : k ∈ keys) :
    addToken k token (keys.map fun key => (key, members key)) =
      keys.map fun key => (key, if key = k then members key ++ [token] else members key) := by
  induction keys with
  | nil => simp at hMem
  | cons first rest ih =>
      obtain ⟨hFirst, hRest⟩ := List.nodup_cons.1 hNodup
      rw [List.map_cons, addToken, List.map_cons]
      by_cases hEq : first = k
      · subst hEq
        rw [if_pos rfl, if_pos rfl]
        refine congrArg _ (List.map_congr_left fun key hKey => ?_)
        have hNe : key ≠ first := fun h => hFirst (h ▸ hKey)
        rw [if_neg hNe]
      · have hLater : k ∈ rest := (List.mem_cons.1 hMem).resolve_left (fun h => hEq h.symm)
        rw [if_neg hEq, if_neg hEq, ih hRest hLater]

theorem addToken_of_not_mem {k : Key} {token : String} {groups : List (Key × List String)}
    (hNot : k ∉ groups.map Prod.fst) : addToken k token groups = groups ++ [(k, [token])] := by
  induction groups with
  | nil => rfl
  | cons first rest ih =>
      rw [List.map_cons, List.mem_cons, not_or] at hNot
      rw [addToken, if_neg (fun h => hNot.1 h.symm), ih hNot.2, List.cons_append]

/-- Adding a token behind a list is grouping the longer list. -/
theorem addToken_groupsBy (key : String → Key) (tokens : List String) (token : String) :
    addToken (key token) token (groupsBy key tokens) = groupsBy key (tokens ++ [token]) := by
  by_cases hMem : key token ∈ tokens.map key
  · have hKeys : ((tokens ++ [token]).map key).eraseDups = (tokens.map key).eraseDups := by
      rw [List.map_append, List.map_singleton, eraseDups_append_singleton, if_pos hMem]
    rw [groupsBy, groupsBy, hKeys,
      addToken_of_mem (nodup_eraseDups _) (List.mem_eraseDups.2 hMem)]
    refine List.map_congr_left fun k hk => ?_
    by_cases hEq : k = key token
    · subst hEq
      simp
    · have hNe : ¬key token = k := fun h => hEq h.symm
      simp [hEq, hNe]
  · have hKeys : ((tokens ++ [token]).map key).eraseDups =
        (tokens.map key).eraseDups ++ [key token] := by
      rw [List.map_append, List.map_singleton, eraseDups_append_singleton, if_neg hMem]
    have hNew : key token ∉ (groupsBy key tokens).map Prod.fst := by
      intro h
      obtain ⟨group, hGroup, hKey⟩ := List.mem_map.1 h
      rw [← hKey] at hMem
      exact hMem (mem_groupsBy_iff.1 hGroup).1
    have hNone : tokens.filter (fun other => key other = key token) = [] := by
      rw [List.filter_eq_nil_iff]
      intro other hOther hEq
      exact hMem (List.mem_map.2 ⟨other, hOther, by simpa using hEq⟩)
    rw [addToken_of_not_mem hNew, groupsBy, groupsBy, hKeys, List.map_append]
    refine congrArg₂ _ (List.map_congr_left fun k hk => ?_) ?_
    · have hNe : ¬key token = k := by
        rintro rfl
        exact hMem (List.mem_eraseDups.1 hk)
      simp [hNe]
    · simp [hNone]

end Groups

/-! ## Tokens that can be read -/

/-- What a token says, where it can be read. -/
def readD (token : String) : Filter := (parse token).toOption.getD ⟨"", .eq, .null⟩

theorem readD_eq {token : String} {filter : Filter} (hParse : parse token = .ok filter) :
    readD token = filter := by
  rw [readD, hParse]
  rfl

theorem parse_eq_readD {tokens : List String}
    (hSome : ∀ token ∈ tokens, (parse token).toOption.isSome) :
    ∀ token ∈ tokens, parse token = .ok (readD token) := by
  intro token hMem
  have hToken := hSome token hMem
  unfold readD
  cases hParse : parse token with
  | error e =>
      rw [hParse] at hToken
      cases hToken
  | ok filter => rfl

/-- A list of tokens compiles only if each of them can be read. -/
theorem parse_eq_readD_of_compile {mode : Mode} {tokens : List String} {clause : Clause}
    (hOk : (compile mode tokens).run.value = .ok clause) :
    ∀ token ∈ tokens, parse token = .ok (readD token) := by
  obtain ⟨groups, hGroups, -⟩ := Results.value_bind_eq_ok_iff.1 hOk
  have hTokens : Groups.ofTokens mode tokens.eraseDups = .ok groups := hGroups
  obtain ⟨sorted, hKeys, -⟩ := Results.bind_eq_ok_iff.1 hTokens
  have hFields := Results.exists_of_foldlM_eq_ok hKeys
  apply parse_eq_readD
  intro token hMem
  obtain ⟨field, hField⟩ := hFields token (List.mem_eraseDups.2 hMem)
  obtain ⟨filter, hParse⟩ := exists_parse_of_parseField hField
  rw [hParse]
  rfl

section Reading

variable {read : String → Filter} {tokens : List String} {mode : Mode}

/-- The key of the field that a token is about. -/
def keyOf (mode : Mode) (read : String → Filter) (token : String) : Key :=
  .ofField mode (read token).field

/-- Tokens that can be read are grouped by the keys of their fields. -/
theorem byKey_eq (hRead : ∀ token ∈ tokens, parse token = .ok (read token)) :
    Groups.byKey mode tokens = .ok (groupsBy (keyOf mode read) tokens) := by
  induction tokens using List.reverseRecOn with
  | nil => rfl
  | append_singleton earlier token ih =>
      have hEarlier := ih fun other hMem => hRead other (List.mem_append_left _ hMem)
      have hField := parseField_of_parse (hRead token (by simp))
      rw [Groups.byKey, List.foldlM_append, ← Groups.byKey, hEarlier, Results.ok_bind,
        List.foldlM_cons, hField, ← Groups.addToken_groupsBy]
      rfl

end Reading

end Paging.Filter
