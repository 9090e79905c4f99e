import Mathlib.Data.List.TakeWhile
import Paging.Json.Printer
import Paging.Numeral

/-!
# Numerals can be read back

Digits are taken up to where a number ends (`takeDigits_append`), and an integer in decimal is one
numeral of a JSON text (`takeJson?_intChars`), with no zero at the front that would end it early
(`toDigits_head`).
-/

namespace Paging.Numeral

/-- A text that a number in front of it does not go on into. -/
def EndsNumber (rest : List Char) : Prop :=
  ∀ c ∈ rest.head?, ¬c.isDigit ∧ c ≠ '.' ∧ c ≠ 'e' ∧ c ≠ 'E'

theorem endsNumber_nil : EndsNumber [] := nofun

/-- Digits are taken up to the first character that is none. -/
theorem takeDigits_append_of_head? {digits rest : List Char} (hDigits : ∀ c ∈ digits, c.isDigit)
    (hRest : ∀ c ∈ rest.head?, ¬c.isDigit) : takeDigits (digits ++ rest) = (digits, rest) := by
  rw [takeDigits, List.takeWhile_append_of_pos hDigits, List.dropWhile_append_of_pos hDigits]
  cases rest with
  | nil => simp
  | cons c more =>
      have hStop : ¬c.isDigit := hRest c rfl
      simp [hStop]

theorem takeDigits_append {digits rest : List Char} (hDigits : ∀ c ∈ digits, c.isDigit)
    (hRest : EndsNumber rest) : takeDigits (digits ++ rest) = (digits, rest) :=
  takeDigits_append_of_head? hDigits fun c hMem => (hRest c hMem).1

/-- A digit is no sign. -/
theorem takeSign_of_isDigit (plus : Bool) {c : Char} (hDigit : c.isDigit) (rest : List Char) :
    takeSign plus (c :: rest) = (false, c :: rest) := by
  unfold takeSign
  split
  case h_1 hEq =>
    cases hEq
    cases hDigit
  case h_2 hEq =>
    cases hEq
    cases hDigit
  case h_3 => rfl

theorem takeExponent_of_endsNumber {rest : List Char} (hRest : EndsNumber rest) :
    takeExponent rest = (none, rest) := by
  cases rest with
  | nil => rfl
  | cons c more =>
      obtain ⟨-, -, hLower, hUpper⟩ := hRest c rfl
      simp [takeExponent, hLower, hUpper]

/-! ## Integers in decimal -/

theorem isDigit_of_mem_toDigits {n : Nat} {c : Char} (hMem : c ∈ Nat.toDigits 10 n) : c.isDigit :=
  Nat.isDigit_of_mem_toDigits (by decide) (by decide) hMem

theorem ofDigits_toDigits (n : Nat) : ofDigits (Nat.toDigits 10 n) = n :=
  Nat.ofDigitChars_ten_toDigits

/-- Only zero is written with a zero at the front. -/
theorem toDigits_head {n : Nat} {rest : List Char} (hEq : Nat.toDigits 10 n = '0' :: rest) :
    rest = [] := by
  induction n using Nat.strongRecOn generalizing rest with
  | ind n ih =>
      rcases Nat.lt_or_ge n 10 with hLt | hGe
      · rw [Nat.toDigits_of_lt_base hLt] at hEq
        exact (List.cons.inj hEq).2.symm
      · rw [Nat.toDigits_of_base_le (by decide) hGe] at hEq
        obtain ⟨c, more, hCons⟩ := List.exists_cons_of_ne_nil (@Nat.toDigits_ne_nil (n / 10) 10)
        rw [hCons, List.cons_append] at hEq
        rw [(List.cons.inj hEq).1] at hCons
        rw [ih (n / 10) (by omega) hCons] at hCons
        have hTens : n / 10 = Nat.ofDigitChars 10 ['0'] 0 := by
          rw [← hCons, Nat.ofDigitChars_ten_toDigits]
        have hZero : Nat.ofDigitChars 10 ['0'] 0 = 0 := by
          decide
        omega

/-- A character with which a number may begin. -/
def IsStart (c : Char) : Prop := c = '-' ∨ c.isDigit

theorem IsStart.ne {c other : Char} (hStart : IsStart c) (hMinus : other ≠ '-')
    (hDigit : ¬other.isDigit) : c ≠ other := by
  rintro rfl
  rcases hStart with h | h
  · exact hMinus h
  · exact hDigit h

theorem exists_intChars_eq (n : Int) : ∃ c more, Json.intChars n = c :: more ∧ IsStart c := by
  unfold Json.intChars
  split
  · exact ⟨'-', _, rfl, .inl rfl⟩
  · obtain ⟨c, more, hCons⟩ := List.exists_cons_of_ne_nil (@Nat.toDigits_ne_nil n.natAbs 10)
    have hMem : c ∈ Nat.toDigits 10 n.natAbs := by
      rw [hCons]
      exact List.mem_cons_self
    exact ⟨c, more, hCons, .inr (isDigit_of_mem_toDigits hMem)⟩

/-- The numeral that an integer is written as. -/
def ofInt (n : Int) : Numeral := ⟨decide (n < 0), Nat.toDigits 10 n.natAbs, [], none⟩

/-- An integer is one numeral. -/
theorem takeJson?_intChars (n : Int) {rest : List Char} (hRest : EndsNumber rest) :
    takeJson? (Json.intChars n ++ rest) = some (ofInt n, rest) := by
  obtain ⟨c, more, hCons⟩ := List.exists_cons_of_ne_nil (@Nat.toDigits_ne_nil n.natAbs 10)
  have hDigits : ∀ d ∈ c :: more, d.isDigit := by
    rw [← hCons]
    exact fun d hMem => isDigit_of_mem_toDigits hMem
  have hSign : takeSign false (Json.intChars n ++ rest) = (decide (n < 0), c :: more ++ rest) := by
    unfold Json.intChars
    rw [hCons]
    split
    case isTrue hNeg => simp [takeSign, hNeg]
    case isFalse hNonneg =>
      simp [takeSign_of_isDigit false (hDigits c List.mem_cons_self), hNonneg]
  have hTaken : takeDigits (c :: more ++ rest) = (c :: more, rest) := takeDigits_append hDigits hRest
  -- The rest starts with no point, so that there is no fraction in either case.
  have hPoint : ∀ after, rest ≠ '.' :: after := by
    rintro after rfl
    exact (hRest '.' rfl).2.1 rfl
  unfold takeJson?
  rw [hSign]
  dsimp only
  split
  case h_1 after hZero =>
    obtain ⟨rfl, rfl⟩ := List.cons.inj hZero
    obtain rfl := toDigits_head hCons
    rw [if_neg (by simp)]
    split
    case h_1 hEq => exact absurd hEq (hPoint _)
    case h_2 => simp [takeExponent_of_endsNumber hRest, ofInt, hCons]
  case h_2 =>
    rw [hTaken, if_neg (by simp)]
    split
    case h_1 hEq => exact absurd hEq (hPoint _)
    case h_2 => simp [takeExponent_of_endsNumber hRest, ofInt, hCons]

end Paging.Numeral
