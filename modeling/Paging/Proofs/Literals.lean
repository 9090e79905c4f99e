import Paging.Filter.Literal
import Paging.Proofs.DecimalTexts

/-!
# What the value of a filter stands for

`Denotes` says what a text stands for other than itself: a truth value or null by its word, an
integer of 64 bits by its digits, or else the double that a decimal number is rounded to. A word has
no digit and each kind of number has one, so no text stands for two values, and the rule that tries
one kind after the other finds the one there is (`literal_eq_iff`). A text that stands for nothing
is kept as it is.
-/

namespace Paging.Filter

open Paging.Double

/-- Integers of 64 bits with a sign. -/
def IsWordInt (n : Int) : Prop := Number.minInt ≤ n ∧ n ≤ Number.maxInt

instance (n : Int) : Decidable (IsWordInt n) := inferInstanceAs (Decidable (_ ∧ _))

/-- The value that a text stands for: by a word in any letter case, as an integer of 64 bits, or as
another decimal number by the finite double that it is rounded to. -/
inductive Denotes (text : List Char) : Json → Prop where
  | true (hWord : Text.sameWord text ['t', 'r', 'u', 'e']) : Denotes text (.bool true)
  | false (hWord : Text.sameWord text ['f', 'a', 'l', 's', 'e']) : Denotes text (.bool false)
  | null (hWord : Text.sameWord text ['n', 'u', 'l', 'l']) : Denotes text .null
  | int {n : Int} (hSpells : Spells text n) (hRange : IsWordInt n) : Denotes text (.num (.int n))
  | float {numeral : Numeral} {x : Double} (hOther : ∀ n, Spells text n → ¬IsWordInt n)
      (hDecimal : IsDecimal text numeral)
      (hRounds : Rounds numeral.negative numeral.magnitude x) : Denotes text (.num (.float x))

/-! ## Words -/

theorem toLower_of_isDigit {c : Char} (hDigit : c.isDigit) : c.toLower = c := by
  have hUpper : ¬(c.val ≥ 'A'.val ∧ c.val ≤ 'Z'.val) := by
    simp only [Char.isDigit, Bool.and_eq_true, decide_eq_true_eq] at hDigit
    intro h
    exact absurd (UInt32.le_trans h.1 hDigit.2) (by decide)
  unfold Char.toLower
  rw [dif_neg hUpper]

/-- A text with a digit is none of the words that stand for other literals. -/
theorem sameWord_of_isDigit {text word : List Char} (hDigits : ∃ c ∈ text, c.isDigit)
    (hWord : (word.map Char.toLower).any Char.isDigit = false) :
    Text.sameWord text word = false := by
  obtain ⟨c, hMem, hDigit⟩ := hDigits
  rw [Text.sameWord, beq_eq_false_iff_ne]
  intro hSame
  have hLower : c.toLower ∈ text.map Char.toLower := List.mem_map_of_mem hMem
  rw [hSame, toLower_of_isDigit hDigit] at hLower
  exact List.any_eq_false.1 hWord c hLower hDigit

/-- A text is no other word than the one that it is. -/
theorem sameWord_of_sameWord {text word other : List Char} (hSame : Text.sameWord text word)
    (hApart : Text.sameWord word other = false) : Text.sameWord text other = false := by
  unfold Text.sameWord at *
  rwa [eq_of_beq hSame]

/-! ## Numbers -/

theorem integer?_eq_some_iff {text : List Char} {n : Int} :
    integer? text = some n ↔ Spells text n ∧ IsWordInt n := by
  rw [← readInt?_eq_some_iff]
  unfold integer? IsWordInt
  cases Numeral.readInt? text with
  | none => simp
  | some size =>
      simp only [Option.bind_eq_bind, Option.bind_some, Option.ite_none_right_eq_some,
        Option.some.injEq]
      constructor
      · rintro ⟨hRange, rfl⟩
        exact ⟨rfl, hRange⟩
      · rintro ⟨rfl, hRange⟩
        exact ⟨hRange, rfl⟩

theorem integer?_eq_none_iff {text : List Char} :
    integer? text = none ↔ ∀ n, Spells text n → ¬IsWordInt n := by
  rw [Option.eq_none_iff_forall_ne_some]
  constructor
  · intro hNone n hSpells hRange
    exact hNone n (integer?_eq_some_iff.2 ⟨hSpells, hRange⟩)
  · intro hOther n hSome
    obtain ⟨hSpells, hRange⟩ := integer?_eq_some_iff.1 hSome
    exact hOther n hSpells hRange

theorem double?_eq_some_iff {text : List Char} {x : Double} :
    double? text = some x ↔
      ∃ numeral, IsDecimal text numeral ∧ Rounds numeral.negative numeral.magnitude x := by
  simp only [double?, Option.bind_eq_bind, Option.bind_eq_some_iff, readDecimal?_eq_some_iff,
    Numeral.value?_eq_some_iff]

/-- The number that a text is read as is the one that it denotes. -/
theorem number?_eq_some_iff {text : List Char} {n : Number} :
    number? text = some n ↔ Denotes text (.num n) := by
  constructor
  · intro hSome
    unfold number? at hSome
    cases hInteger : integer? text with
    | some size =>
        obtain ⟨hSpells, hRange⟩ := integer?_eq_some_iff.1 hInteger
        rw [hInteger] at hSome
        cases hSome
        exact .int hSpells hRange
    | none =>
        rw [hInteger] at hSome
        obtain ⟨x, hDouble, rfl⟩ := Option.map_eq_some_iff.1 hSome
        obtain ⟨numeral, hDecimal, hRounds⟩ := double?_eq_some_iff.1 hDouble
        exact .float (integer?_eq_none_iff.1 hInteger) hDecimal hRounds
  · intro hDenotes
    cases hDenotes with
    | int hSpells hRange => rw [number?, integer?_eq_some_iff.2 ⟨hSpells, hRange⟩]
    | float hOther hDecimal hRounds =>
        rw [number?, integer?_eq_none_iff.2 hOther,
          double?_eq_some_iff.2 ⟨_, hDecimal, hRounds⟩]
        rfl

/-- Some character of a number is a digit. -/
theorem Denotes.exists_isDigit {text : List Char} {n : Number} (hDenotes : Denotes text (.num n)) :
    ∃ c ∈ text, c.isDigit := by
  cases hDenotes with
  | int hSpells hRange => exact hSpells.exists_isDigit
  | float hOther hDecimal hRounds => exact hDecimal.exists_isDigit

/-- A word is no number. -/
theorem number?_of_sameWord {text word : List Char} (hSame : Text.sameWord text word)
    (hWord : (word.map Char.toLower).any Char.isDigit = false) : number? text = none := by
  rw [Option.eq_none_iff_forall_ne_some]
  intro n hSome
  rw [sameWord_of_isDigit (number?_eq_some_iff.1 hSome).exists_isDigit hWord] at hSame
  cases hSame

/-! ## Literals -/

theorem literal_of_number? {text : List Char} {n : Number} (hSome : number? text = some n) :
    literal text = .num n := by
  have hDigits : ∃ c ∈ text, c.isDigit := (number?_eq_some_iff.1 hSome).exists_isDigit
  rw [literal, sameWord_of_isDigit hDigits (by decide), sameWord_of_isDigit hDigits (by decide),
    hSome]
  rfl

/-- The rule finds what a text denotes. -/
theorem literal_of_denotes {text : List Char} {value : Json} (hDenotes : Denotes text value) :
    literal text = value := by
  cases hDenotes with
  | true hWord => rw [literal, if_pos hWord]
  | false hWord =>
      have hNotTrue : Text.sameWord text ['t', 'r', 'u', 'e'] = false :=
        sameWord_of_sameWord hWord (by decide)
      simp [literal, hNotTrue, hWord]
  | null hWord =>
      have hNotTrue : Text.sameWord text ['t', 'r', 'u', 'e'] = false :=
        sameWord_of_sameWord hWord (by decide)
      have hNotFalse : Text.sameWord text ['f', 'a', 'l', 's', 'e'] = false :=
        sameWord_of_sameWord hWord (by decide)
      have hNotNumber : number? text = none := number?_of_sameWord hWord (by decide)
      simp [literal, hNotTrue, hNotFalse, hNotNumber, hWord]
  | int hSpells hRange => exact literal_of_number? (number?_eq_some_iff.2 (.int hSpells hRange))
  | float hOther hDecimal hRounds =>
      exact literal_of_number? (number?_eq_some_iff.2 (.float hOther hDecimal hRounds))

theorem Denotes.denotes_literal {text : List Char} {value : Json} (hDenotes : Denotes text value) :
    Denotes text (literal text) := by
  rw [literal_of_denotes hDenotes]
  exact hDenotes

/-- It makes up no other value than the text itself. -/
theorem denotes_literal_or (text : List Char) :
    Denotes text (literal text) ∨ literal text = .str (String.ofList text) := by
  by_cases hTrue : Text.sameWord text ['t', 'r', 'u', 'e']
  · exact .inl (Denotes.true hTrue).denotes_literal
  by_cases hFalse : Text.sameWord text ['f', 'a', 'l', 's', 'e']
  · exact .inl (Denotes.false hFalse).denotes_literal
  by_cases hNull : Text.sameWord text ['n', 'u', 'l', 'l']
  · exact .inl (Denotes.null hNull).denotes_literal
  cases hNumber : number? text with
  | some n => exact .inl (number?_eq_some_iff.1 hNumber).denotes_literal
  | none =>
      right
      simp [literal, hTrue, hFalse, hNull, hNumber]

/-- **The values of filters are classified.** Every text is read as what it denotes, and as itself if
it denotes nothing; and an integer of 64 bits is read back from its own text. -/
theorem literal_eq_iff :
    (∀ text value, literal text = value ↔
      Denotes text value ∨
        (value = .str (String.ofList text) ∧ ∀ other, ¬Denotes text other)) ∧
    ∀ n, IsWordInt n → literal (Json.intChars n) = .num (.int n) := by
  constructor
  · intro text value
    constructor
    · rintro rfl
      rcases denotes_literal_or text with hDenotes | hText
      · exact .inl hDenotes
      · refine .inr ⟨hText, ?_⟩
        intro other hDenotes
        rw [← literal_of_denotes hDenotes, hText] at hDenotes
        cases hDenotes
    · rintro (hDenotes | ⟨rfl, hNone⟩)
      · exact literal_of_denotes hDenotes
      · exact (denotes_literal_or text).resolve_left (hNone _)
  · intro n hRange
    exact literal_of_denotes (.int (spells_intChars n) hRange)

/-- The least and the greatest integer of 64 bits, and a number with a fraction. -/
theorem literal_eq_iff_numbers :
    literal (Json.intChars (-9223372036854775808)) = .num (.int (-9223372036854775808)) ∧
      literal (Json.intChars 9223372036854775807) = .num (.int 9223372036854775807) ∧
      literal ['-', '3', '.', '5'] =
        .num (.float ⟨true, 7881299347898368, -51, by decide⟩) := by
  have hInteger : integer? ['-', '3', '.', '5'] = none := by
    decide
  have hRead : Numeral.readDecimal? ['-', '3', '.', '5'] = some ⟨true, ['3'], ['5'], none⟩ := by
    decide
  let x : Double := ⟨true, 7881299347898368, -51, by decide⟩
  have hMagnitude : Numeral.magnitude ⟨true, ['3'], ['5'], none⟩ = x.magnitude := by
    have hThree : Numeral.ofDigits ['3'] = 3 := by decide
    have hFive : Numeral.ofDigits ['5'] = 5 := by decide
    norm_num [Numeral.magnitude, hThree, hFive, magnitude, x]
  refine ⟨literal_eq_iff.2 _ (by decide), literal_eq_iff.2 _ (by decide), ?_⟩
  refine (literal_eq_iff.1 _ _).2 (.inl (.float ?_ (readDecimal?_eq_some_iff.1 hRead) ?_))
  · exact integer?_eq_none_iff.1 hInteger
  · rw [hMagnitude]
    exact x.rounds_magnitude

end Paging.Filter
