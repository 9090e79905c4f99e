import Paging.Json.Document
import Paging.Json.Printer

/-!
# Strings of JSON texts can be read back

A character of a string is written in one of three ways (`escapeChar_cases`), and each of them is a
part of a string that stands for the character again. So a string is one token, whatever characters
it holds (`take?_quoted`).
-/

namespace Paging.Json.Token

/-! ## Strings -/

/-- A character is written as a letter behind a backslash, as four digits, or as itself. -/
theorem escapeChar_cases (c : Char) :
    (∃ letter, escapeChar c = ['\\', letter] ∧ letter ≠ 'u' ∧ escaped? letter = some c) ∨
    (c.toNat < 0x20 ∧ escapeChar c = ['\\', 'u', '0', '0', Text.Hex.lower (c.toNat / 16),
      Text.Hex.lower (c.toNat % 16)]) ∨
    (c ≠ '"' ∧ c ≠ '\\' ∧ ¬c.toNat < 0x20 ∧ escapeChar c = [c]) := by
  unfold escapeChar
  split
  · rename_i hEq
    exact .inl ⟨'"', rfl, by decide, by rw [hEq]; rfl⟩
  · rename_i hQuote
    split
    · rename_i hEq
      exact .inl ⟨'\\', rfl, by decide, by rw [hEq]; rfl⟩
    · rename_i hBackslash
      split
      · rename_i hEq
        exact .inl ⟨'b', rfl, by decide, by rw [hEq]; rfl⟩
      · split
        · rename_i hEq
          exact .inl ⟨'t', rfl, by decide, by rw [hEq]; rfl⟩
        · split
          · rename_i hEq
            exact .inl ⟨'n', rfl, by decide, by rw [hEq]; rfl⟩
          · split
            · rename_i hEq
              exact .inl ⟨'f', rfl, by decide, by rw [hEq]; rfl⟩
            · split
              · rename_i hEq
                exact .inl ⟨'r', rfl, by decide, by rw [hEq]; rfl⟩
              · split
                · rename_i hControl
                  exact .inr (.inl ⟨hControl, rfl⟩)
                · rename_i hPrintable
                  exact .inr (.inr ⟨hQuote, hBackslash, hPrintable, rfl⟩)

section Pieces

variable {rest after : List Char} {pieces : List Piece}

theorem takeString?_letter {letter c : Char} (hNe : letter ≠ 'u')
    (hLetter : escaped? letter = some c) (hRest : takeString? rest = some (pieces, after)) :
    takeString? ('\\' :: letter :: rest) = some (.char c :: pieces, after) := by
  rw [takeString?, hLetter, hRest]
  · rfl
  · intro _ _ _ _ _ hEq
    exact absurd hEq hNe

theorem takeString?_digits {code : Nat} (hCode : code < 0x20)
    (hRest : takeString? rest = some (pieces, after)) :
    takeString? ('\\' :: 'u' :: '0' :: '0' :: Text.Hex.lower (code / 16) ::
      Text.Hex.lower (code % 16) :: rest) = some (.unit code :: pieces, after) := by
  have hHigh := Text.Hex.value?_lower (show code / 16 < 16 by omega)
  have hLow := Text.Hex.value?_lower (show code % 16 < 16 by omega)
  have hZero : Text.Hex.value? '0' = some 0 := by decide
  have hUnit : codeUnit? '0' '0' (Text.Hex.lower (code / 16)) (Text.Hex.lower (code % 16)) =
      some code := by
    rw [codeUnit?, hZero, hHigh, hLow]
    show some (((0 * 16 + 0) * 16 + code / 16) * 16 + code % 16) = some code
    rw [show ((0 * 16 + 0) * 16 + code / 16) * 16 + code % 16 = code by omega]
  rw [takeString?, hUnit, hRest]
  rfl

theorem takeString?_plain {c : Char} (hQuote : c ≠ '"') (hBackslash : c ≠ '\\')
    (hPrintable : ¬c.toNat < 0x20) (hRest : takeString? rest = some (pieces, after)) :
    takeString? (c :: rest) = some (.char c :: pieces, after) := by
  have hNot : ¬(c = '\\' ∨ c.toNat < 0x20) := not_or.2 ⟨hBackslash, hPrintable⟩
  rw [takeString?, if_neg hNot, hRest]
  · rfl
  · exact hQuote
  · intro _ _ _ _ _ hEq
    exact absurd hEq hBackslash
  · intro _ _ hEq
    exact absurd hEq hBackslash

theorem characters?_unit {c : Char} (hControl : c.toNat < 0x20) (pieces : List Piece) :
    characters? (.unit c.toNat :: pieces) = (characters? pieces).map (c :: ·) := by
  have hHigh : isHighSurrogate c.toNat = false := by
    simp only [isHighSurrogate, Bool.and_eq_false_iff, decide_eq_false_iff_not]
    omega
  have hLow : isLowSurrogate c.toNat = false := by
    simp only [isLowSurrogate, Bool.and_eq_false_iff, decide_eq_false_iff_not]
    omega
  have hChar : Char.ofNat c.toNat = c := Char.ofNat_toNat c
  cases pieces with
  | nil => simp [characters?, hHigh, hLow, hChar]
  | cons piece more =>
      cases piece with
      | char other => simp [characters?, hHigh, hLow, hChar]
      | unit code => simp [characters?, hHigh, hLow, hChar]

/-- However a character is written, it is read as one part, which stands for it. -/
theorem exists_takeString?_escapeChar (c : Char)
    (hRest : takeString? rest = some (pieces, after)) :
    ∃ piece, takeString? (escapeChar c ++ rest) = some (piece :: pieces, after) ∧
      characters? (piece :: pieces) = (characters? pieces).map (c :: ·) := by
  rcases escapeChar_cases c with hLetter | hControl | hPlain
  · obtain ⟨letter, hEscape, hNe, hLetter⟩ := hLetter
    rw [hEscape]
    exact ⟨.char c, takeString?_letter hNe hLetter hRest, rfl⟩
  · obtain ⟨hControl, hEscape⟩ := hControl
    rw [hEscape]
    exact ⟨.unit c.toNat, takeString?_digits hControl hRest, characters?_unit hControl pieces⟩
  · obtain ⟨hQuote, hBackslash, hPrintable, hEscape⟩ := hPlain
    rw [hEscape]
    exact ⟨.char c, takeString?_plain hQuote hBackslash hPrintable hRest, rfl⟩

end Pieces

theorem exists_takeString?_flatMap (text rest : List Char) :
    ∃ pieces, takeString? (text.flatMap escapeChar ++ '"' :: rest) = some (pieces, rest) ∧
      characters? pieces = some text := by
  induction text with
  | nil => exact ⟨[], rfl, rfl⟩
  | cons c more ih =>
      obtain ⟨pieces, hTake, hCharacters⟩ := ih
      obtain ⟨piece, hPiece, hChar⟩ := exists_takeString?_escapeChar c hTake
      refine ⟨piece :: pieces, ?_, ?_⟩
      · rw [List.flatMap_cons, List.append_assoc, hPiece]
      · rw [hChar, hCharacters]
        rfl

/-- Every string is one token. -/
theorem take?_quoted (text : String) (rest : List Char) :
    take? (quoted text ++ rest) = some (.str (some text), rest) := by
  obtain ⟨pieces, hTake, hCharacters⟩ := exists_takeString?_flatMap text.toList rest
  have hQuoted : quoted text ++ rest = '"' :: (text.toList.flatMap escapeChar ++ '"' :: rest) := by
    simp [quoted]
  rw [hQuoted, take?, hTake]
  show some (Token.str ((characters? pieces).map String.ofList), rest) = _
  rw [hCharacters, Option.map_some, String.ofList_toList]

end Paging.Json.Token
