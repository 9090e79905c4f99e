import Paging.Text.Utf8

/-!
# UTF-8 can be read back

The octets of a character, with whatever comes behind them, are read as that character and the rest
(`decodeFrom_encodeChar`). So every text is what its octets stand for.
-/

namespace Paging.Text.Utf8

/-- Codes of characters are neither surrogates nor past the last plane. -/
theorem toNat_valid (c : Char) :
    c.toNat < 0xD800 ∨ 0xDFFF < c.toNat ∧ c.toNat < 0x110000 := c.valid

/-- Characters have at most four octets, and octets are below 256. -/
theorem lt_of_mem_encodeChar {c : Char} {octet : Nat} (hMem : octet ∈ encodeChar c) :
    octet < 0x100 := by
  have hValid := toNat_valid c
  unfold encodeChar at hMem
  dsimp only at hMem
  split at hMem
  · rw [List.mem_singleton] at hMem
    omega
  · split at hMem
    · simp only [List.mem_cons, List.not_mem_nil, or_false] at hMem
      omega
    · split at hMem
      · simp only [List.mem_cons, List.not_mem_nil, or_false] at hMem
        omega
      · simp only [List.mem_cons, List.not_mem_nil, or_false] at hMem
        omega

theorem encodeChar_of_lt {c : Char} (hLow : c.toNat < 0x80) : encodeChar c = [c.toNat] := by
  unfold encodeChar
  dsimp only
  rw [if_pos hLow]

/-- The octets of a character that has several are past those of single ones. -/
theorem le_of_mem_encodeChar {c : Char} {octet : Nat} (hHigh : 0x80 ≤ c.toNat)
    (hMem : octet ∈ encodeChar c) : 0x80 ≤ octet := by
  unfold encodeChar at hMem
  dsimp only at hMem
  rw [if_neg (Nat.not_lt.2 hHigh)] at hMem
  split at hMem
  · simp only [List.mem_cons, List.not_mem_nil, or_false] at hMem
    omega
  · split at hMem
    · simp only [List.mem_cons, List.not_mem_nil, or_false] at hMem
      omega
    · simp only [List.mem_cons, List.not_mem_nil, or_false] at hMem
      omega

theorem encodeChar_ne_nil (c : Char) : encodeChar c ≠ [] := by
  unfold encodeChar
  dsimp only
  split
  · exact List.cons_ne_nil _ _
  · split
    · exact List.cons_ne_nil _ _
    · split <;> exact List.cons_ne_nil _ _

theorem encode_cons (c : Char) (rest : List Char) :
    encode (c :: rest) = encodeChar c ++ encode rest := List.flatMap_cons

theorem encode_append (before after : List Char) :
    encode (before ++ after) = encode before ++ encode after := List.flatMap_append

/-! ## One octet -/

theorem decodeFrom_whole {octet : Nat} {c : Char} (hStart : start octet = .whole c)
    (rest : List Nat) : decodeFrom none (octet :: rest) = c :: decodeFrom none rest := by
  simp only [decodeFrom, first, hStart]
  rfl

theorem decodeFrom_longer {octet : Nat} {pending : Pending} (hStart : start octet = .longer pending)
    (rest : List Nat) : decodeFrom none (octet :: rest) = decodeFrom (some pending) rest := by
  simp only [decodeFrom, first, hStart]
  rfl

section Resume

variable {code low high octet : Nat}

/-- An octet in range that is owed last completes the character. -/
theorem decodeFrom_last (hLow : low ≤ octet) (hHigh : octet ≤ high) (rest : List Nat) :
    decodeFrom (some ⟨code, 1, low, high⟩) (octet :: rest) =
      Char.ofNat (code * 0x40 + (octet - 0x80)) :: decodeFrom none rest := by
  have hResume : resume ⟨code, 1, low, high⟩ octet =
      ([Char.ofNat (code * 0x40 + (octet - 0x80))], none) := by
    rw [resume, if_pos ⟨hLow, hHigh⟩]
    rfl
  simp only [decodeFrom, hResume]
  rfl

/-- An octet in range that is not owed last is six bits more. -/
theorem decodeFrom_more {owed : Nat} (hLow : low ≤ octet) (hHigh : octet ≤ high)
    (rest : List Nat) :
    decodeFrom (some ⟨code, owed + 2, low, high⟩) (octet :: rest) =
      decodeFrom (some ⟨code * 0x40 + (octet - 0x80), owed + 1, 0x80, 0xBF⟩) rest := by
  have hResume : resume ⟨code, owed + 2, low, high⟩ octet =
      ([], some ⟨code * 0x40 + (octet - 0x80), owed + 1, 0x80, 0xBF⟩) := by
    rw [resume, if_pos ⟨hLow, hHigh⟩]
    dsimp only
    rw [if_neg (by omega)]
    rfl
  simp only [decodeFrom, hResume]
  rfl

end Resume

/-! ## The first octet of a character -/

theorem start_two {code : Nat} (hLow : 0x80 ≤ code) (hHigh : code < 0x800) :
    start (0xC0 + code / 0x40) = .longer ⟨code / 0x40, 1, 0x80, 0xBF⟩ := by
  rw [start, if_neg (by omega), if_neg (by omega), if_pos (by omega), Nat.add_sub_cancel_left]

/-- The second octet is in the range that the first one of three leaves open. -/
theorem start_three {code : Nat} (hLow : 0x800 ≤ code) (hHigh : code < 0x10000)
    (hValid : code < 0xD800 ∨ 0xDFFF < code) :
    ∃ low high, start (0xE0 + code / 0x1000) = .longer ⟨code / 0x1000, 2, low, high⟩ ∧
      low ≤ 0x80 + code / 0x40 % 0x40 ∧ 0x80 + code / 0x40 % 0x40 ≤ high := by
  by_cases hZero : code / 0x1000 = 0
  · refine ⟨0xA0, 0xBF, ?_, by omega, by omega⟩
    rw [hZero]
    rfl
  · by_cases hSurrogate : code / 0x1000 = 0xD
    · refine ⟨0x80, 0x9F, ?_, by omega, by omega⟩
      rw [hSurrogate]
      rfl
    · refine ⟨0x80, 0xBF, ?_, by omega, by omega⟩
      rw [start, if_neg (by omega), if_neg (by omega), if_neg (by omega), if_neg (by omega),
        if_neg (by omega), if_pos (by omega), Nat.add_sub_cancel_left]

/-- The second octet is in the range that the first one of four leaves open. -/
theorem start_four {code : Nat} (hLow : 0x10000 ≤ code) (hHigh : code < 0x110000) :
    ∃ low high, start (0xF0 + code / 0x40000) = .longer ⟨code / 0x40000, 3, low, high⟩ ∧
      low ≤ 0x80 + code / 0x1000 % 0x40 ∧ 0x80 + code / 0x1000 % 0x40 ≤ high := by
  by_cases hZero : code / 0x40000 = 0
  · refine ⟨0x90, 0xBF, ?_, by omega, by omega⟩
    rw [hZero]
    rfl
  · by_cases hLast : code / 0x40000 = 4
    · refine ⟨0x80, 0x8F, ?_, by omega, by omega⟩
      rw [hLast]
      rfl
    · refine ⟨0x80, 0xBF, ?_, by omega, by omega⟩
      rw [start, if_neg (by omega), if_neg (by omega), if_neg (by omega), if_neg (by omega),
        if_neg (by omega), if_neg (by omega), if_neg (by omega), if_pos (by omega),
        Nat.add_sub_cancel_left]

/-! ## Characters and texts -/

theorem decodeFrom_encodeChar (c : Char) (rest : List Nat) :
    decodeFrom none (encodeChar c ++ rest) = c :: decodeFrom none rest := by
  have hValid := toNat_valid c
  have hChar : Char.ofNat c.toNat = c := Char.ofNat_toNat c
  unfold encodeChar
  dsimp only
  by_cases hOne : c.toNat < 0x80
  · rw [if_pos hOne, List.singleton_append]
    apply decodeFrom_whole
    rw [start, if_pos hOne, hChar]
  · rw [if_neg hOne]
    by_cases hTwo : c.toNat < 0x800
    · have hStart := start_two (Nat.le_of_not_lt hOne) hTwo
      have hCode : c.toNat / 0x40 * 0x40 + (0x80 + c.toNat % 0x40 - 0x80) = c.toNat := by omega
      rw [if_pos hTwo, List.cons_append, decodeFrom_longer hStart, List.singleton_append,
        decodeFrom_last (by omega) (by omega), hCode, hChar]
    · rw [if_neg hTwo]
      -- From three octets on the first one narrows the range of the second.
      by_cases hThree : c.toNat < 0x10000
      · obtain ⟨low, high, hStart, hLow, hHigh⟩ :=
          start_three (Nat.le_of_not_lt hTwo) hThree (hValid.imp_right And.left)
        have hCode : (c.toNat / 0x1000 * 0x40 + (0x80 + c.toNat / 0x40 % 0x40 - 0x80)) * 0x40 +
            (0x80 + c.toNat % 0x40 - 0x80) = c.toNat := by omega
        rw [if_pos hThree, List.cons_append, decodeFrom_longer hStart, List.cons_append,
          decodeFrom_more hLow hHigh, List.singleton_append,
          decodeFrom_last (by omega) (by omega), hCode, hChar]
      · have hMax : c.toNat < 0x110000 := by omega
        obtain ⟨low, high, hStart, hLow, hHigh⟩ := start_four (Nat.le_of_not_lt hThree) hMax
        have hCode : ((c.toNat / 0x40000 * 0x40 + (0x80 + c.toNat / 0x1000 % 0x40 - 0x80)) * 0x40 +
            (0x80 + c.toNat / 0x40 % 0x40 - 0x80)) * 0x40 + (0x80 + c.toNat % 0x40 - 0x80) =
              c.toNat := by omega
        rw [if_neg hThree, List.cons_append, decodeFrom_longer hStart, List.cons_append,
          decodeFrom_more hLow hHigh, List.cons_append, decodeFrom_more (by omega) (by omega),
          List.singleton_append, decodeFrom_last (by omega) (by omega), hCode, hChar]

/-- **Every text is read back** from its octets. -/
theorem decode_encode (text : List Char) : decode (encode text) = text := by
  unfold decode
  induction text with
  | nil => rfl
  | cons c rest ih =>
      rw [encode_cons, decodeFrom_encodeChar, ih]

end Paging.Text.Utf8
