import Paging.Proofs.TextPieces
import Paging.Proofs.Utf8
import Paging.Text.Form

/-!
# Form-urlencoded text can be read back

What is written holds no separators, so that reading cuts it where writing joined it. Names and
values may hold any characters: they are written octet by octet.

Main results: every list of pairs is read back from its notation (`decode_encode`), and a query
string that is continued with an ampersand reads as the pairs of both parts (`decode_append`).
-/

namespace Paging.Text.Form

/-! ## Names and values -/

theorem ne_of_isPlain {c other : Char} (hPlain : isPlain c = true)
    (hOther : isPlain other = false) : c ≠ other := by
  intro hEq
  rw [hEq, hOther] at hPlain
  cases hPlain

theorem isPlain_upper {n : Nat} (hLt : n < 16) : isPlain (Hex.upper n) = true := by
  have hAll : ∀ m : Fin 16, isPlain (Hex.upper m) = true := by decide
  exact hAll ⟨n, hLt⟩

theorem octets_escapeOctet {octet : Nat} (hLt : octet < 0x100) (rest : List Char) :
    octets (escapeOctet octet ++ rest) = octet :: octets rest := by
  have hHigh := Hex.value?_upper (show octet / 16 < 16 by omega)
  have hLow := Hex.value?_upper (show octet % 16 < 16 by omega)
  show octets ('%' :: Hex.upper (octet / 16) :: Hex.upper (octet % 16) :: rest) = _
  rw [octets, hHigh, hLow]
  dsimp only
  rw [show octet / 16 * 16 + octet % 16 = octet by omega]

theorem octets_cons {c : Char} (hNe : c ≠ '%') (rest : List Char) :
    octets (c :: rest) = (if c = '+' then [0x20] else Utf8.encodeChar c) ++ octets rest := by
  rw [octets]
  intro a b more hEq
  exact absurd hEq hNe

theorem octets_flatMap_escapeOctet {codes : List Nat} (hLt : ∀ octet ∈ codes, octet < 0x100)
    (rest : List Char) : octets (codes.flatMap escapeOctet ++ rest) = codes ++ octets rest := by
  induction codes with
  | nil => rfl
  | cons octet more ih =>
      have hMore := ih fun other hMem => hLt other (List.mem_cons_of_mem octet hMem)
      rw [List.flatMap_cons, List.append_assoc, octets_escapeOctet (hLt octet List.mem_cons_self),
        hMore, List.cons_append]

theorem octets_encodeChar (c : Char) (rest : List Char) :
    octets (encodeChar c ++ rest) = Utf8.encodeChar c ++ octets rest := by
  unfold encodeChar
  by_cases hPlain : isPlain c = true
  · have hPercent := ne_of_isPlain hPlain (show isPlain '%' = false by decide)
    have hPlus := ne_of_isPlain hPlain (show isPlain '+' = false by decide)
    rw [if_pos hPlain, List.singleton_append, octets_cons hPercent, if_neg hPlus]
  · rw [if_neg hPlain]
    by_cases hSpace : c = ' '
    · rw [if_pos hSpace, List.singleton_append, octets_cons (by decide), if_pos rfl, hSpace]
      rfl
    · rw [if_neg hSpace]
      exact octets_flatMap_escapeOctet (fun octet hMem => Utf8.lt_of_mem_encodeChar hMem) rest

theorem octets_encodeText (text : List Char) : octets (encodeText text) = Utf8.encode text := by
  induction text with
  | nil => rfl
  | cons c rest ih =>
      have hText : encodeText (c :: rest) = encodeChar c ++ encodeText rest := List.flatMap_cons
      rw [hText, octets_encodeChar, ih]
      exact List.flatMap_cons.symm

/-- Every name or value is read back. -/
theorem decodeText_encodeText (text : List Char) : decodeText (encodeText text) = text := by
  rw [decodeText, octets_encodeText, Utf8.decode_encode]

/-- Characters that have to be written differently do not stand in what is written, except for those
by which others are written. -/
theorem not_mem_encodeText {c : Char} (hPlain : isPlain c = false) (hPlus : c ≠ '+')
    (hPercent : c ≠ '%') (text : List Char) : c ∉ encodeText text := by
  intro hMem
  obtain ⟨source, -, hChar⟩ := List.mem_flatMap.1 hMem
  unfold encodeChar at hChar
  split at hChar
  · rename_i hSource
    rw [List.mem_singleton] at hChar
    exact ne_of_isPlain hSource hPlain hChar.symm
  · split at hChar
    · exact hPlus (List.mem_singleton.1 hChar)
    · obtain ⟨octet, hOctet, hEscape⟩ := List.mem_flatMap.1 hChar
      have hLt := Utf8.lt_of_mem_encodeChar hOctet
      simp only [escapeOctet, List.mem_cons, List.not_mem_nil, or_false] at hEscape
      rcases hEscape with hEq | hEq | hEq
      · exact hPercent hEq
      · exact ne_of_isPlain (isPlain_upper (show octet / 16 < 16 by omega)) hPlain hEq.symm
      · exact ne_of_isPlain (isPlain_upper (show octet % 16 < 16 by omega)) hPlain hEq.symm

/-! ## Pairs -/

theorem decodePair_encodePair (pair : String × String) : decodePair (encodePair pair) = pair := by
  have hEquals : '=' ∉ encodeText pair.1.toList :=
    not_mem_encodeText (by decide) (by decide) (by decide) _
  rw [decodePair, encodePair, cut_append hEquals]
  dsimp only
  rw [decodeText_encodeText, decodeText_encodeText, String.ofList_toList, String.ofList_toList]

/-- A query string that is continued reads as the pairs of both parts. -/
theorem decode_append (before after : List Char) :
    decode (before ++ '&' :: after) = decode before ++ decode after := by
  rw [decode, pieces_append, List.filter_append, List.map_append]
  rfl

theorem not_mem_encodePair {c : Char} (hPlain : isPlain c = false) (hPlus : c ≠ '+')
    (hPercent : c ≠ '%') (hEquals : c ≠ '=') (pair : String × String) : c ∉ encodePair pair := by
  intro hMem
  rcases List.mem_append.1 hMem with hName | hRest
  · exact not_mem_encodeText hPlain hPlus hPercent _ hName
  · rcases List.mem_cons.1 hRest with hEq | hValue
    · exact hEquals hEq
    · exact not_mem_encodeText hPlain hPlus hPercent _ hValue

theorem decode_encodePair (pair : String × String) : decode (encodePair pair) = [pair] := by
  have hAmpersand : '&' ∉ encodePair pair :=
    not_mem_encodePair (by decide) (by decide) (by decide) (by decide) pair
  have hNonempty : [encodePair pair].filter (!·.isEmpty) = [encodePair pair] := by
    simp [encodePair]
  rw [decode, pieces_of_not_mem hAmpersand, hNonempty, List.map_singleton, decodePair_encodePair]

theorem encode_cons_cons (pair next : String × String) (rest : List (String × String)) :
    encode (pair :: next :: rest) = encodePair pair ++ '&' :: encode (next :: rest) := by
  simp [encode]

/-- What is written for pairs holds the characters of names and values, and the two separators. -/
theorem not_mem_encode {c : Char} (hPlain : isPlain c = false) (hPlus : c ≠ '+')
    (hPercent : c ≠ '%') (hEquals : c ≠ '=') (hAmpersand : c ≠ '&')
    (pairs : List (String × String)) : c ∉ encode pairs := by
  induction pairs with
  | nil => exact List.not_mem_nil
  | cons pair rest ih =>
      have hPair := not_mem_encodePair hPlain hPlus hPercent hEquals pair
      cases rest with
      | nil => simpa [encode] using hPair
      | cons next more =>
          rw [encode_cons_cons, List.mem_append, List.mem_cons, not_or, not_or]
          exact ⟨hPair, hAmpersand, ih⟩

/-- **Every list of pairs is read back.** -/
theorem decode_encode (pairs : List (String × String)) : decode (encode pairs) = pairs := by
  induction pairs with
  | nil => rfl
  | cons pair rest ih =>
      cases rest with
      | nil =>
          have hEncode : encode [pair] = encodePair pair := by simp [encode]
          rw [hEncode, decode_encodePair]
      | cons next more =>
          rw [encode_cons_cons, decode_append, decode_encodePair, ih, List.singleton_append]

end Paging.Text.Form
