import Mathlib.Tactic.FieldSimp
import Paging.Proofs.Numerals
import Paging.Proofs.Rounding

/-!
# Decimal numbers in the values of filters

Two grammars say which texts are numbers. An integer is a sign perhaps and one digit or more
(`Spells`). A decimal number may also have a point and an exponent, and needs a digit on one side of
the point only (`IsDecimal`). The readers, which take a text apart from the front, accept just these
texts and find their parts (`readInt?_eq_some_iff`, `readDecimal?_eq_some_iff`); the number that the
parts denote is rounded to the nearest double (`value?_eq_some_iff`).
-/

namespace Paging

open Paging.Double

namespace Filter

/-- A text is an integer: a sign perhaps, and one digit or more. -/
def Spells (text : List Char) (n : Int) : Prop :=
  ∃ sign ∈ [[], ['+'], ['-']], ∃ digits, text = sign ++ digits ∧ digits ≠ [] ∧
    (∀ c ∈ digits, c.isDigit) ∧ n = signed (sign = ['-']) (Numeral.ofDigits digits)

/-- A text is a fraction part: nothing, or a point and digits perhaps. -/
inductive HasFraction : List Char → List Char → Prop where
  | none : HasFraction [] []
  | point {digits : List Char} (hDigits : ∀ c ∈ digits, c.isDigit) :
      HasFraction ('.' :: digits) digits

/-- A text is an exponent part: nothing, or the letter and an integer. -/
inductive HasExponent : List Char → Option Int → Prop where
  | none : HasExponent [] none
  | some {letter : Char} {text : List Char} {n : Int} (hLetter : letter = 'e' ∨ letter = 'E')
      (hSpells : Spells text n) : HasExponent (letter :: text) (some n)

/-- A text is a decimal number with the given parts: a sign perhaps, digits with a point perhaps (at
least one digit in all), and an exponent perhaps. -/
def IsDecimal (text : List Char) (numeral : Numeral) : Prop :=
  ∃ sign ∈ [[], ['+'], ['-']], ∃ fraction exponent,
    text = sign ++ (numeral.whole ++ (fraction ++ exponent)) ∧
    numeral.negative = decide (sign = ['-']) ∧ (∀ c ∈ numeral.whole, c.isDigit) ∧
    HasFraction fraction numeral.fraction ∧ HasExponent exponent numeral.exponent ∧
    numeral.digits ≠ []

/-! ## Signs and digits -/

/-- A sign in front is taken off, unless another one follows. -/
theorem takeSign_append {sign rest : List Char} (hSign : sign ∈ [[], ['+'], ['-']])
    (hRest : ∀ c ∈ rest.head?, c ≠ '+' ∧ c ≠ '-') :
    Numeral.takeSign true (sign ++ rest) = (decide (sign = ['-']), rest) := by
  simp only [List.mem_cons, List.not_mem_nil, or_false] at hSign
  rcases hSign with rfl | rfl | rfl
  · unfold Numeral.takeSign
    split
    case h_1 hEq =>
      rw [List.nil_append] at hEq
      exact absurd rfl (hRest '-' (by rw [hEq]; rfl)).2
    case h_2 hEq =>
      rw [List.nil_append] at hEq
      exact absurd rfl (hRest '+' (by rw [hEq]; rfl)).1
    case h_3 => rfl
  · rfl
  · rfl

/-- What is taken off is a sign. -/
theorem exists_takeSign_eq (text : List Char) :
    ∃ sign ∈ [[], ['+'], ['-']], ∃ rest, text = sign ++ rest ∧
      Numeral.takeSign true text = (decide (sign = ['-']), rest) := by
  unfold Numeral.takeSign
  split
  case h_1 rest => exact ⟨['-'], by decide, rest, rfl, rfl⟩
  case h_2 rest => exact ⟨['+'], by decide, rest, rfl, rfl⟩
  case h_3 => exact ⟨[], by decide, text, rfl, rfl⟩

/-- A digit is no sign. -/
theorem ne_sign_of_isDigit {c : Char} (hDigit : c.isDigit) : c ≠ '+' ∧ c ≠ '-' := by
  constructor <;> rintro rfl <;> cases hDigit

theorem head?_ne_sign {digits : List Char} (hDigits : ∀ c ∈ digits, c.isDigit) :
    ∀ c ∈ digits.head?, c ≠ '+' ∧ c ≠ '-' :=
  fun c hMem => ne_sign_of_isDigit (hDigits c (List.mem_of_mem_head? hMem))

theorem takeDigits_of_isDigit {digits : List Char} (hDigits : ∀ c ∈ digits, c.isDigit) :
    Numeral.takeDigits digits = (digits, []) := by
  simpa using Numeral.takeDigits_append hDigits Numeral.endsNumber_nil

/-- What is taken off the front of a text are digits. -/
theorem exists_takeDigits_eq (text : List Char) :
    ∃ digits rest, text = digits ++ rest ∧ (∀ c ∈ digits, c.isDigit) ∧
      Numeral.takeDigits text = (digits, rest) :=
  ⟨_, _, List.takeWhile_append_dropWhile.symm, fun _ hMem => List.mem_takeWhile_imp hMem, rfl⟩

/-! ## Integers -/

/-- **The reader of integers accepts just the integers.** -/
theorem readInt?_eq_some_iff {text : List Char} {n : Int} :
    Numeral.readInt? text = some n ↔ Spells text n := by
  constructor
  · intro hRead
    obtain ⟨sign, hSign, digits, hText, hTaken⟩ := exists_takeSign_eq text
    simp only [Numeral.readInt?, hTaken] at hRead
    split at hRead
    case isTrue => cases hRead
    case isFalse hDigits =>
      simp only [Bool.or_eq_true, not_or, List.isEmpty_iff, Bool.not_eq_true', Bool.not_eq_false,
        List.all_eq_true] at hDigits
      refine ⟨sign, hSign, digits, hText, hDigits.1, hDigits.2, ?_⟩
      rw [← Option.some.inj hRead, signed]
  · rintro ⟨sign, hSign, digits, rfl, hNe, hDigits, rfl⟩
    have hAll : digits.all Char.isDigit := List.all_eq_true.2 hDigits
    simp [Numeral.readInt?, takeSign_append hSign (head?_ne_sign hDigits), hNe, hAll, signed]

/-- Some character of an integer is a digit. -/
theorem Spells.exists_isDigit {text : List Char} {n : Int} (hSpells : Spells text n) :
    ∃ c ∈ text, c.isDigit := by
  obtain ⟨sign, -, digits, rfl, hNe, hDigits, -⟩ := hSpells
  obtain ⟨first, rest, rfl⟩ := List.exists_cons_of_ne_nil hNe
  exact ⟨first, List.mem_append_right sign List.mem_cons_self, hDigits first List.mem_cons_self⟩

/-- The text that an integer is written as spells it. -/
theorem spells_intChars (n : Int) : Spells (Json.intChars n) n := by
  have hDigits : ∀ c ∈ Nat.toDigits 10 n.natAbs, c.isDigit :=
    fun c hMem => Numeral.isDigit_of_mem_toDigits hMem
  have hSigned : signed (decide (n < 0)) n.natAbs = n := signed_natAbs n
  unfold Json.intChars
  split
  case isTrue hNeg =>
    refine ⟨['-'], by decide, Nat.toDigits 10 n.natAbs, rfl, Nat.toDigits_ne_nil, hDigits, ?_⟩
    rw [Numeral.ofDigits_toDigits]
    simpa [hNeg] using hSigned.symm
  case isFalse hNonneg =>
    refine ⟨[], by decide, Nat.toDigits 10 n.natAbs, rfl, Nat.toDigits_ne_nil, hDigits, ?_⟩
    rw [Numeral.ofDigits_toDigits]
    simpa [hNonneg] using hSigned.symm

/-! ## Decimal numbers -/

theorem HasExponent.head? {text : List Char} {exponent : Option Int}
    (hExponent : HasExponent text exponent) : ∀ c ∈ text.head?, c = 'e' ∨ c = 'E' := by
  cases hExponent with
  | none => exact nofun
  | some hLetter hSpells =>
      intro c hMem
      cases hMem
      exact hLetter

/-- The reader of exponents takes just the exponent parts to their end. -/
theorem takeExponent_eq_iff {text : List Char} {exponent : Option Int} :
    Numeral.takeExponent text = (exponent, []) ↔ HasExponent text exponent := by
  constructor
  · intro hTaken
    unfold Numeral.takeExponent at hTaken
    split at hTaken
    case h_1 letter rest =>
      obtain ⟨sign, hSign, unsigned, hUnsigned, hSignTaken⟩ := exists_takeSign_eq rest
      obtain ⟨digits, after, hDigitsText, hDigits, hDigitsTaken⟩ := exists_takeDigits_eq unsigned
      simp only [hSignTaken, hDigitsTaken] at hTaken
      split at hTaken
      case isTrue hLetter =>
        split at hTaken
        case isTrue => cases hTaken
        case isFalse hNe =>
          obtain ⟨hSome, rfl⟩ := Prod.mk.inj hTaken
          rw [List.append_nil] at hDigitsText
          rw [← hSome, hUnsigned, hDigitsText]
          exact .some hLetter ⟨sign, hSign, digits, rfl, by simpa using hNe, hDigits, rfl⟩
      case isFalse => cases hTaken
    case h_2 =>
      cases hTaken
      exact .none
  · intro hExponent
    cases hExponent with
    | none => rfl
    | @some letter text n hLetter hSpells =>
        obtain ⟨sign, hSign, digits, rfl, hNe, hDigits, rfl⟩ := hSpells
        simp [Numeral.takeExponent, hLetter, takeSign_append hSign (head?_ne_sign hDigits),
          takeDigits_of_isDigit hDigits, hNe, signed]

theorem HasFraction.head? {fraction digits : List Char} (hFraction : HasFraction fraction digits) :
    ∀ c ∈ fraction.head?, c = '.' := by
  cases hFraction with
  | none => exact nofun
  | point hDigits =>
      intro c hMem
      cases hMem
      rfl

theorem HasFraction.eq_nil_of_eq_nil {fraction digits : List Char}
    (hFraction : HasFraction fraction digits) (hNil : fraction = []) : digits = [] := by
  cases hFraction with
  | none => rfl
  | point hDigits => cases hNil

theorem HasFraction.isDigit {fraction digits : List Char} (hFraction : HasFraction fraction digits)
    {c : Char} (hMem : c ∈ digits) : c ∈ fraction ∧ c.isDigit := by
  cases hFraction with
  | none => cases hMem
  | point hDigits => exact ⟨List.mem_cons_of_mem _ hMem, hDigits c hMem⟩

/-- The first character of two texts in a row. -/
theorem forall_head?_append {p : Char → Prop} {first rest : List Char}
    (hFirst : ∀ c ∈ first.head?, p c) (hRest : first = [] → ∀ c ∈ rest.head?, p c) :
    ∀ c ∈ (first ++ rest).head?, p c := by
  cases first with
  | nil => exact hRest rfl
  | cons c more => exact hFirst

/-- A fraction part at the front, and the rest. -/
def takeFraction (text : List Char) : List Char × List Char :=
  match text with
  | '.' :: rest => Numeral.takeDigits rest
  | _ => ([], text)

theorem takeFraction_append {fraction digits rest : List Char}
    (hFraction : HasFraction fraction digits) (hRest : ∀ c ∈ rest.head?, ¬c.isDigit ∧ c ≠ '.') :
    takeFraction (fraction ++ rest) = (digits, rest) := by
  cases hFraction with
  | none =>
      rw [List.nil_append]
      unfold takeFraction
      split
      case h_1 more => exact absurd rfl (hRest '.' rfl).2
      case h_2 => rfl
  | point hDigits =>
      exact Numeral.takeDigits_append_of_head? hDigits fun c hMem => (hRest c hMem).1

/-- What is taken off is a fraction part. -/
theorem exists_takeFraction_eq (text : List Char) :
    ∃ fraction digits rest, text = fraction ++ rest ∧ HasFraction fraction digits ∧
      takeFraction text = (digits, rest) := by
  unfold takeFraction
  split
  case h_1 afterPoint =>
    obtain ⟨digits, rest, hText, hDigits, hTaken⟩ := exists_takeDigits_eq afterPoint
    refine ⟨'.' :: digits, digits, rest, ?_, .point hDigits, hTaken⟩
    rw [hText, List.cons_append]
  case h_2 => exact ⟨[], [], text, rfl, .none, rfl⟩

theorem readDecimal?_eq (text : List Char) :
    Numeral.readDecimal? text =
      let (negative, unsigned) := Numeral.takeSign true text
      let (whole, afterWhole) := Numeral.takeDigits unsigned
      let (fraction, afterFraction) := takeFraction afterWhole
      let (exponent, rest) := Numeral.takeExponent afterFraction
      if rest.isEmpty && !(whole.isEmpty && fraction.isEmpty) then
        some ⟨negative, whole, fraction, exponent⟩
      else none :=
  rfl

/-- **The reader of decimal numbers accepts just the decimal numbers, and finds their parts.** -/
theorem readDecimal?_eq_some_iff {text : List Char} {numeral : Numeral} :
    Numeral.readDecimal? text = some numeral ↔ IsDecimal text numeral := by
  rw [readDecimal?_eq]
  constructor
  · intro hRead
    obtain ⟨sign, hSign, unsigned, hText, hSignTaken⟩ := exists_takeSign_eq text
    obtain ⟨whole, afterWhole, hUnsigned, hWhole, hWholeTaken⟩ := exists_takeDigits_eq unsigned
    obtain ⟨fraction, digits, afterFraction, hAfterWhole, hFraction, hFractionTaken⟩ :=
      exists_takeFraction_eq afterWhole
    simp only [hSignTaken, hWholeTaken, hFractionTaken] at hRead
    split at hRead
    case isTrue hEnd =>
      rw [Bool.and_eq_true, List.isEmpty_iff] at hEnd
      rw [← Option.some.inj hRead]
      refine ⟨sign, hSign, fraction, afterFraction, ?_, rfl, hWhole, hFraction, ?_, ?_⟩
      · rw [hText, hUnsigned, hAfterWhole]
      · rw [← takeExponent_eq_iff, ← hEnd.1]
      · simpa [Numeral.digits, imp_iff_not_or] using hEnd.2
    case isFalse => cases hRead
  · rintro ⟨sign, hSign, fraction, exponent, rfl, hNegative, hWhole, hFraction, hExponent, hNe⟩
    have hAfterFraction : ∀ c ∈ exponent.head?, ¬c.isDigit ∧ c ≠ '.' := by
      intro c hMem
      rcases hExponent.head? c hMem with rfl | rfl <;> decide
    have hAfterWhole : ∀ c ∈ (fraction ++ exponent).head?, ¬c.isDigit := by
      refine forall_head?_append ?_ fun _ c hMem => (hAfterFraction c hMem).1
      intro c hMem
      rw [hFraction.head? c hMem]
      decide
    -- No sign follows the sign, since there is a digit or the point first.
    have hUnsigned : ∀ c ∈ (numeral.whole ++ (fraction ++ exponent)).head?, c ≠ '+' ∧ c ≠ '-' := by
      refine forall_head?_append (head?_ne_sign hWhole) fun hNoWhole => ?_
      refine forall_head?_append ?_ fun hNoPoint => ?_
      · intro c hMem
        rw [hFraction.head? c hMem]
        decide
      · refine absurd ?_ hNe
        rw [Numeral.digits, hNoWhole, hFraction.eq_nil_of_eq_nil hNoPoint, List.append_nil]
    have hTaken : Numeral.takeExponent exponent = (numeral.exponent, []) :=
      takeExponent_eq_iff.2 hExponent
    have hDigits : (numeral.whole.isEmpty && numeral.fraction.isEmpty) = false := by
      simpa [Numeral.digits, Bool.and_eq_false_iff] using hNe
    rw [takeSign_append hSign hUnsigned]
    dsimp only
    rw [Numeral.takeDigits_append_of_head? hWhole hAfterWhole]
    dsimp only
    rw [takeFraction_append hFraction hAfterFraction]
    dsimp only
    rw [hTaken]
    simp [hDigits, ← hNegative]

/-- Some character of a decimal number is a digit. -/
theorem IsDecimal.exists_isDigit {text : List Char} {numeral : Numeral}
    (hDecimal : IsDecimal text numeral) : ∃ c ∈ text, c.isDigit := by
  obtain ⟨sign, -, fraction, exponent, rfl, -, hWhole, hFraction, -, hNe⟩ := hDecimal
  obtain ⟨c, hMem⟩ := List.exists_mem_of_ne_nil _ hNe
  rcases List.mem_append.1 hMem with hMem | hMem
  · exact ⟨c, by simp [hMem], hWhole c hMem⟩
  · obtain ⟨hIn, hDigit⟩ := hFraction.isDigit hMem
    exact ⟨c, by simp [hIn], hDigit⟩

end Filter

namespace Numeral

/-! ## What a decimal number denotes -/

/-- The number that a numeral denotes, without its sign. -/
def magnitude (numeral : Numeral) : ℚ :=
  (ofDigits numeral.whole + ofDigits numeral.fraction / 10 ^ numeral.fraction.length) *
    10 ^ numeral.exponent.getD 0

theorem ofDigits_append (first rest : List Char) :
    ofDigits (first ++ rest) = ofDigits first * 10 ^ rest.length + ofDigits rest := by
  rw [ofDigits, Nat.ofDigitChars_append, Nat.ofDigitChars_eq_ofDigitChars_zero, mul_comm]
  rfl

theorem magnitude_eq (numeral : Numeral) :
    numeral.magnitude = ofDigits numeral.digits *
      10 ^ (numeral.exponent.getD 0 - numeral.fraction.length : Int) := by
  rw [magnitude, digits, ofDigits_append, zpow_sub₀ (by norm_num), zpow_natCast]
  push_cast
  field_simp

/-- **A numeral is rounded to the nearest double.** -/
theorem value?_eq_some_iff {numeral : Numeral} {x : Double} :
    numeral.value? = some x ↔ Rounds numeral.negative numeral.magnitude x := by
  rw [value?, ofDecimal?_eq_some_iff, magnitude_eq]

end Numeral

end Paging
