import Paging.Proofs.Keyed
import Paging.Proofs.Results
import Paging.Sort

/-!
# What sort tokens spell

A token spells an entry of an order if it is the field, an equals sign and a word for the direction
(`Spells`). Tokens are read as what they spell (`parse_eq_ok_iff`), and a list of tokens as what its
distinct tokens spell, one by one (`parseAll_eq_ok_iff`). A list that holds a token which spells
nothing is refused for the first such token, however often tokens are repeated
(`parseAll_of_isFirstWithout`).
-/

namespace Paging.Sort

/-- The token is the field, an equals sign and a word for the direction. The word is in one letter
case throughout; the direction is that word in lower case. -/
structure Spells (token : String) (spec : Spec) : Prop where
  field_ne_empty : spec.field ≠ ""
  equals_not_mem : '=' ∉ spec.field.toList
  exists_word : ∃ word ∈ directionWords,
    token = spec.field ++ "=" ++ word ∧ spec.direction.word.toList = word.toList.map Char.toLower

/-- The token is an entry of an order. -/
def IsToken (token : String) : Prop := ∃ spec, Spells token spec

namespace Direction

theorem toList_word_injective : Function.Injective fun direction : Direction =>
    direction.word.toList := by
  intro a b hSame
  cases a with
  | asc =>
      cases b with
      | asc => rfl
      | desc => exact absurd hSame (by decide)
  | desc =>
      cases b with
      | asc => exact absurd hSame (by decide)
      | desc => rfl

theorem toList_word_of_ofWord? {word : String} {direction : Direction}
    (hSome : ofWord? word = some direction) :
    direction.word.toList = word.toList.map Char.toLower := by
  have hWord := (ofWord?_isSome_iff word).1 (Option.isSome_of_mem hSome)
  simp only [directionWords, List.mem_cons, List.not_mem_nil, or_false] at hWord
  rcases hWord with rfl | rfl | rfl | rfl <;> cases hSome <;> decide

/-- A word names the direction that it is in lower case, if it is one of the known words. -/
theorem ofWord?_eq_some_iff {word : String} {direction : Direction} :
    ofWord? word = some direction ↔
      word ∈ directionWords ∧ direction.word.toList = word.toList.map Char.toLower := by
  constructor
  · intro hSome
    exact ⟨(ofWord?_isSome_iff word).1 (Option.isSome_of_mem hSome), toList_word_of_ofWord? hSome⟩
  · intro h
    obtain ⟨hWord, hLower⟩ := h
    obtain ⟨other, hOther⟩ := Option.isSome_iff_exists.1 ((ofWord?_isSome_iff word).2 hWord)
    have hSame := (toList_word_of_ofWord? hOther).trans hLower.symm
    rw [hOther, toList_word_injective hSame]

end Direction

theorem parse_eq_ok_iff {token : String} {spec : Spec} :
    parse token = .ok spec ↔ Spells token spec := by
  constructor
  · intro hOk
    unfold parse at hOk
    split at hOk
    · cases hOk
    · rename_i field word hCut
      obtain ⟨hToken, hEquals⟩ := Text.cut?_eq_some_iff.1 hCut
      split at hOk
      · cases hOk
      · rename_i hField
        split at hOk
        · rename_i direction hDirection
          cases hOk
          obtain ⟨hWord, hLower⟩ := Direction.ofWord?_eq_some_iff.1 hDirection
          have hSpelled : token = String.ofList field ++ "=" ++ String.ofList word := by
            apply String.toList_injective
            simpa using hToken
          exact ⟨by simpa using hField, by simpa using hEquals, _, hWord, hSpelled, hLower⟩
        · cases hOk
  · intro hSpells
    obtain ⟨word, hWord, rfl, hLower⟩ := hSpells.exists_word
    have hCut : Text.cut? '=' (spec.field ++ "=" ++ word).toList =
        some (spec.field.toList, word.toList) :=
      Text.cut?_eq_some_iff.2 ⟨by simp, hSpells.equals_not_mem⟩
    have hDirection := Direction.ofWord?_eq_some_iff.2 ⟨hWord, hLower⟩
    rw [parse, hCut]
    simp [hSpells.field_ne_empty, hDirection]

theorem parse_of_not_isToken {token : String} (hNot : ¬IsToken token) :
    parse token = .error (.invalidSort token) := by
  cases hParse : parse token with
  | ok spec => exact absurd ⟨spec, parse_eq_ok_iff.1 hParse⟩ hNot
  | error error =>
      unfold parse at hParse
      split at hParse
      · exact hParse.symm
      · split at hParse
        · exact hParse.symm
        · split at hParse
          · cases hParse
          · exact hParse.symm

/-- Tokens that all spell something are read as what the distinct ones spell. -/
theorem parseAll_eq_ok_iff {tokens : List String} {specs : List Spec} :
    parseAll tokens = .ok specs ↔ List.Forall₂ Spells tokens.eraseDups specs :=
  Results.mapM_eq_ok_iff fun _ _ => parse_eq_ok_iff

theorem exists_parseAll_eq_ok {tokens : List String} (hTokens : ∀ token ∈ tokens, IsToken token) :
    ∃ specs, parseAll tokens = .ok specs := by
  refine Results.exists_mapM_eq_ok fun token hMem => ?_
  obtain ⟨spec, hSpells⟩ := hTokens token (List.mem_eraseDups.1 hMem)
  exact ⟨spec, parse_eq_ok_iff.2 hSpells⟩

/-- Dropping copies does not change which token that spells nothing is the first. -/
theorem parseAll_of_isFirstWithout {tokens : List String} {token : String}
    (hFirst : Results.IsFirstWithout IsToken tokens token) :
    parseAll tokens = .error (.invalidSort token) := by
  obtain ⟨before, after, rfl, hBefore, hNot⟩ := hFirst
  have hNew : token ∉ before := fun hMem => hNot (hBefore token hMem)
  obtain ⟨rest, hDistinct⟩ := Keyed.exists_eraseDups_eq hNew after
  rw [parseAll, hDistinct]
  refine Results.mapM_eq_error (fun other hMem => ?_) (parse_of_not_isToken hNot) rest
  obtain ⟨spec, hSpells⟩ := hBefore other (List.mem_eraseDups.1 hMem)
  exact ⟨spec, parse_eq_ok_iff.2 hSpells⟩

end Paging.Sort
