import Paging.Proofs.Units

/-!
# Malformed tokens

Compiling a list of tokens fails of the first token that cannot be read, and of nothing else
(`compile_fails_of_first_malformed`). That no group is refused for its prefixes has one reason: the
tokens of a group have one key, and a key is as good as the relations that a field is split into.
`Key.label` is the key as a text and a number, what stands before the last dot and how many dots
there are; whatever the segments of a field are, empty ones as well, equal labels are equal keys
(`Key.label_eq_iff`).
-/

namespace Paging.Filter

open Paging.Keyed

/-! ## Keys as texts -/

/-- The text before the last dot of a path, if it has a dot. -/
def parent? (path : String) : Option String :=
  (Text.cut? '.' path.toList.reverse).map fun (_, before) => String.ofList before.reverse

theorem segments_injective {path other : String} (hSame : segments path = segments other) :
    path = other := by
  have hPieces : Text.pieces '.' path.toList = Text.pieces '.' other.toList :=
    List.map_injective_iff.2 (fun _ _ => String.ofList_injective) hSame
  have hChars := congrArg ['.'].intercalate hPieces
  rw [Text.intercalate_pieces, Text.intercalate_pieces] at hChars
  exact String.toList_injective hChars

/-- A path ends in a name behind the segments of its parent. -/
theorem segments_of_parent {path parent : String} (hParent : parent? path = some parent) :
    ∃ name, segments path = segments parent ++ [name] := by
  obtain ⟨⟨last, before⟩, hCut, rfl⟩ := Option.map_eq_some_iff.1 hParent
  obtain ⟨hReverse, hNot⟩ := Text.cut?_eq_some_iff.1 hCut
  have hPath : path.toList = before.reverse ++ '.' :: last.reverse := by
    rw [← List.reverse_reverse path.toList, hReverse]
    simp
  have hName : Text.pieces '.' last.reverse = [last.reverse] :=
    Text.pieces_of_not_mem (by simpa using hNot)
  refine ⟨String.ofList last.reverse, ?_⟩
  rw [segments, hPath, Text.pieces_append, hName]
  simp [segments]

theorem dots_eq_zero_of_parent {path : String} (hParent : parent? path = none) : dots path = 0 := by
  rw [dots, List.count_eq_zero]
  intro hDot
  obtain ⟨last, before, hReverse, hNot⟩ :=
    List.eq_append_cons_of_mem (List.mem_reverse.2 hDot)
  have hCut := Text.cut?_eq_some_iff.2 ⟨hReverse, hNot⟩
  rw [parent?, hCut] at hParent
  cases hParent

theorem dots_of_parent {path parent : String} (hParent : parent? path = some parent) :
    dots path = dots parent + 1 := by
  obtain ⟨name, hSegments⟩ := segments_of_parent hParent
  rw [dots_eq_length hSegments, length_segments]

namespace Key

/-- The key of a field as a text and a number. -/
def label (mode : Mode) (path : String) : String × Nat :=
  match mode, parent? path with
  | .nested, some parent => (parent, dots path)
  | _, _ => (path, dots path)

theorem label_flat (path : String) : label .flat path = (path, dots path) := rfl

/-- The label and the key of a field below relations. -/
theorem nested_of_parent {path parent : String} (hParent : parent? path = some parent) :
    label .nested path = (parent, dots parent + 1) ∧
      ofField .nested path = .below (segments parent) := by
  have hDots := dots_of_parent hParent
  obtain ⟨name, hSegments⟩ := segments_of_parent hParent
  constructor
  · simp [label, hParent, hDots]
  · rw [ofField_nested, if_neg (by omega), hSegments, List.dropLast_concat]

/-- The label and the key of a field below no relation. -/
theorem nested_of_no_parent {path : String} (hParent : parent? path = none) :
    label .nested path = (path, 0) ∧ ofField .nested path = .field path := by
  have hDots := dots_eq_zero_of_parent hParent
  constructor
  · simp [label, hParent, hDots]
  · rw [ofField_nested, if_pos hDots]

/-- **Two views of a field agree**: fields have one key exactly if they have one label. -/
theorem label_eq_iff {mode : Mode} {path other : String} :
    label mode path = label mode other ↔ ofField mode path = ofField mode other := by
  cases mode with
  | flat =>
      rw [label_flat, label_flat, ofField_flat, ofField_flat, field.injEq]
      constructor
      · exact congrArg Prod.fst
      · intro hSame
        rw [hSame]
  | nested =>
      cases hPath : parent? path with
      | none =>
          obtain ⟨hLabel, hKey⟩ := nested_of_no_parent hPath
          cases hOther : parent? other with
          | none =>
              obtain ⟨hOtherLabel, hOtherKey⟩ := nested_of_no_parent hOther
              simp [hLabel, hKey, hOtherLabel, hOtherKey]
          | some parent =>
              obtain ⟨hOtherLabel, hOtherKey⟩ := nested_of_parent hOther
              simp [hLabel, hKey, hOtherLabel, hOtherKey]
      | some parent =>
          obtain ⟨hLabel, hKey⟩ := nested_of_parent hPath
          cases hOther : parent? other with
          | none =>
              obtain ⟨hOtherLabel, hOtherKey⟩ := nested_of_no_parent hOther
              simp [hLabel, hKey, hOtherLabel, hOtherKey]
          | some otherParent =>
              obtain ⟨hOtherLabel, hOtherKey⟩ := nested_of_parent hOther
              rw [hLabel, hKey, hOtherLabel, hOtherKey, below.injEq]
              constructor
              · intro hSame
                have hParents : parent = otherParent := congrArg Prod.fst hSame
                rw [hParents]
              · intro hSame
                rw [segments_injective hSame]

end Key

/-! ## Errors -/

/-- No filter is read from the token. -/
def Malformed (token : String) : Prop := ∀ filter, parse token ≠ .ok filter

theorem eq_invalidFilter_of_split? {token : String} {error : QueryError}
    (hError : split? token = .error error) : error = .invalidFilter token := by
  unfold split? at hError
  split at hError
  · dsimp only at hError
    split at hError
    · exact (Except.error.inj hError).symm
    · cases hError
  · exact (Except.error.inj hError).symm

/-- Reading the field of a malformed token fails as reading the token does. -/
theorem Malformed.errors {token : String} (hMalformed : Malformed token) :
    parse token = .error (.invalidFilter token) ∧
      parseField token = .error (.invalidFilter token) := by
  cases hSplit : split? token with
  | ok parts =>
      have hOk : ∃ filter, parse token = .ok filter := by
        rw [parse, hSplit]
        exact ⟨_, rfl⟩
      obtain ⟨filter, hFilter⟩ := hOk
      exact absurd hFilter (hMalformed filter)
  | error error =>
      rw [parse, parseField, hSplit, eq_invalidFilter_of_split? hSplit]
      exact ⟨rfl, rfl⟩

theorem read_or_malformed (token : String) :
    parse token = .ok (readD token) ∨ Malformed token := by
  unfold readD
  cases hParse : parse token with
  | ok filter => exact .inl rfl
  | error error =>
      refine .inr fun filter hFilter => ?_
      rw [hFilter] at hParse
      cases hParse

/-- A list either can be read or has a first malformed token. -/
theorem all_read_or_exists_first (tokens : List String) :
    (∀ token ∈ tokens, parse token = .ok (readD token)) ∨
      ∃ before token after, tokens = before ++ token :: after ∧
        (∀ earlier ∈ before, parse earlier = .ok (readD earlier)) ∧ Malformed token := by
  rcases Results.forall_or_exists_first (fun token => parse token = .ok (readD token)) tokens with
    hRead | ⟨token, before, after, hEq, hBefore, hNot⟩
  · exact .inl hRead
  · exact .inr ⟨before, token, after, hEq, hBefore, (read_or_malformed token).resolve_left hNot⟩

section Compile

variable {before : List String} {token : String} (mode : Mode) (after : List String)

/-- Grouping stops at the first malformed token. -/
theorem byKey_of_malformed (hBefore : ∀ earlier ∈ before, parse earlier = .ok (readD earlier))
    (hMalformed : Malformed token) :
    Groups.byKey mode (before ++ token :: after) = .error (.invalidFilter token) := by
  have hEarlier : Groups.byKey mode before = .ok (groupsBy (keyOf mode readD) before) :=
    byKey_eq hBefore
  rw [Groups.byKey] at hEarlier
  rw [Groups.byKey, List.foldlM_append, hEarlier, Results.ok_bind, List.foldlM_cons,
    hMalformed.errors.2]
  rfl

/-- So does compiling, before anything is noted. -/
theorem compile_of_malformed (hBefore : ∀ earlier ∈ before, parse earlier = .ok (readD earlier))
    (hMalformed : Malformed token) :
    (compile mode (before ++ token :: after)).run = ⟨[], .error (.invalidFilter token)⟩ := by
  have hNot : token ∉ before := fun hMem => hMalformed _ (hBefore token hMem)
  obtain ⟨rest, hDistinct⟩ := exists_eraseDups_eq hNot after
  have hGroups : Groups.ofTokens mode (before ++ token :: after).eraseDups =
      .error (.invalidFilter token) := by
    rw [Groups.ofTokens, hDistinct, byKey_of_malformed mode rest ?_ hMalformed]
    · rfl
    · intro earlier hMem
      exact hBefore earlier (List.mem_eraseDups.1 hMem)
  rw [compile, hGroups]
  rfl

end Compile

/-- **Compiling fails of malformed tokens only.** It fails exactly if some token cannot be read; the
error carries the first such token of the list, however tokens are repeated or grouped. No group is
refused for its prefixes, and a list that does not compile leaves no note. -/
theorem compile_fails_of_first_malformed (mode : Mode) (tokens : List String) :
    ((∃ error, (compile mode tokens).run.value = .error error) ↔
      ∃ token ∈ tokens, Malformed token) ∧
    (∀ error, (compile mode tokens).run.value = .error error →
      ∃ before token after, tokens = before ++ token :: after ∧
        (∀ earlier ∈ before, ∃ filter, parse earlier = .ok filter) ∧ Malformed token ∧
        error = .invalidFilter token) ∧
    (∀ expected found,
      (compile mode tokens).run.value ≠ .error (.mismatchedPrefix expected found)) ∧
    ∀ error, (compile mode tokens).run.value = .error error →
      (compile mode tokens).run.log = [] := by
  rcases all_read_or_exists_first tokens with hRead | ⟨before, token, after, rfl, hBefore, hToken⟩
  · obtain ⟨clause, hOk, -⟩ := @exists_compile_eq_ok mode readD tokens hRead
    have hNone : ¬∃ token ∈ tokens, Malformed token := by
      intro h
      obtain ⟨token, hMem, hToken⟩ := h
      exact hToken _ (hRead token hMem)
    rw [hOk]
    exact ⟨iff_of_false nofun hNone, nofun, nofun, nofun⟩
  · have hRun := compile_of_malformed mode after hBefore hToken
    rw [hRun]
    refine ⟨iff_of_true ⟨_, rfl⟩ ⟨token, by simp, hToken⟩, ?_, nofun, fun _ _ => rfl⟩
    intro error hError
    refine ⟨before, token, after, rfl, ?_, hToken, (Except.error.inj hError).symm⟩
    intro earlier hMem
    exact ⟨_, hBefore earlier hMem⟩

/-- Of two malformed tokens the first one is reported, though the last token belongs to a group that
begins before it. -/
example : (compile .nested ["a.b==1", "x", "y", "x", "a.c==2"]).run =
    ⟨[], .error (.invalidFilter "x")⟩ := by
  rfl

end Paging.Filter
