import Paging.Double.Decimal
import Paging.Proofs.NearestDoubles

/-!
# Rounding fractions, decimals and integers

The rule for fractions finds the binade that a fraction lies in (`binade_bounds`), and with it the
unit and the count that measure the fraction (`exists_measure`). The rule for decimals leaves the
greatest and the least ones to their count of digits and hands the rest to the rule for fractions.
So both give the nearest double, and they give none exactly from `limit` on
(`ofRatio?_eq_some_iff`, `ofDecimal?_eq_some_iff`).

An integer that is a double is rounded to this double (`exists_ofRatio?_eq`), and a run of digits is
read as the integer that it denotes, however long it is (`ofDecimal?_eq`).
-/

namespace Paging.Double

/-! ## Measuring a fraction -/

theorem scaled_pos (num : Nat) {den : Nat} (hDen : 0 < den) (exponent : Int) :
    0 < (scaled num den exponent).2 := by
  unfold scaled
  split
  · exact Nat.mul_pos hDen (Nat.pow_pos two_pos)
  · exact hDen

theorem scaled_div (num den : Nat) (exponent : Int) :
    ((scaled num den exponent).1 / (scaled num den exponent).2 : ℚ) =
      num / den / 2 ^ exponent := by
  unfold scaled
  split
  case isTrue hNonneg =>
    obtain ⟨shift, rfl⟩ := Int.eq_ofNat_of_zero_le hNonneg
    simp [div_div]
  case isFalse hNeg =>
    obtain ⟨shift, hShift⟩ := Int.eq_ofNat_of_zero_le (a := -exponent) (by omega)
    obtain rfl : exponent = -shift := by omega
    simp [div_eq_mul_inv, mul_right_comm]

/-- A scaled fraction is at least one if the fraction is at least the power of two. -/
theorem scaled_le_iff (num : Nat) {den : Nat} (hDen : 0 < den) (exponent : Int) :
    (scaled num den exponent).2 ≤ (scaled num den exponent).1 ↔
      (2 ^ exponent : ℚ) ≤ num / den := by
  have hPos : (0 : ℚ) < (scaled num den exponent).2 := by
    exact_mod_cast scaled_pos num hDen exponent
  rw [← one_mul (2 ^ exponent : ℚ), ← le_div_iff₀ (by positivity), ← scaled_div, le_div_iff₀ hPos,
    one_mul, Nat.cast_le]

theorem log2_bounds {n : Nat} (hNe : n ≠ 0) :
    (2 ^ (n.log2 : Int) : ℚ) ≤ n ∧ (n : ℚ) < 2 ^ (n.log2 + 1 : Int) := by
  have hLe : 2 ^ n.log2 ≤ n := Nat.log2_self_le hNe
  have hLt : n < 2 ^ (n.log2 + 1) := Nat.lt_log2_self
  exact ⟨by exact_mod_cast hLe, by exact_mod_cast hLt⟩

/-- The leading bits of a fraction give its binade, or the one above it. -/
theorem div_log2_bounds {num den : Nat} (hNum : num ≠ 0) (hDen : 0 < den) :
    (2 ^ ((num.log2 : Int) - den.log2 - 1) : ℚ) ≤ num / den ∧
      (num / den : ℚ) < 2 ^ ((num.log2 : Int) - den.log2 + 1) := by
  obtain ⟨hNumLe, hNumLt⟩ := log2_bounds hNum
  obtain ⟨hDenLe, hDenLt⟩ := log2_bounds hDen.ne'
  have hPos : (0 : ℚ) < den := by exact_mod_cast hDen
  constructor
  · rw [le_div_iff₀ hPos]
    calc (2 ^ ((num.log2 : Int) - den.log2 - 1) * den : ℚ)
        ≤ 2 ^ ((num.log2 : Int) - den.log2 - 1) * 2 ^ (den.log2 + 1 : Int) :=
          mul_le_mul_of_nonneg_left hDenLt.le (by positivity)
      _ = 2 ^ (num.log2 : Int) := by
        rw [← zpow_add₀ two_ne_zero]
        congr 1
        omega
      _ ≤ num := hNumLe
  · rw [div_lt_iff₀ hPos]
    calc (num : ℚ) < 2 ^ (num.log2 + 1 : Int) := hNumLt
      _ = 2 ^ ((num.log2 : Int) - den.log2 + 1) * 2 ^ (den.log2 : Int) := by
        rw [← zpow_add₀ two_ne_zero]
        congr 1
        omega
      _ ≤ 2 ^ ((num.log2 : Int) - den.log2 + 1) * den :=
        mul_le_mul_of_nonneg_left hDenLe (by positivity)

/-- The binade of a fraction is the one that it lies in. -/
theorem binade_bounds {num den : Nat} (hNum : num ≠ 0) (hDen : 0 < den) :
    (2 ^ binade num den : ℚ) ≤ num / den ∧ (num / den : ℚ) < 2 ^ (binade num den + 1) := by
  obtain ⟨hLower, hUpper⟩ := div_log2_bounds hNum hDen
  unfold binade
  dsimp only
  split_ifs with hLe
  · exact ⟨(scaled_le_iff num hDen _).1 hLe, hUpper⟩
  · rw [scaled_le_iff num hDen, not_le] at hLe
    rw [sub_add_cancel]
    exact ⟨hLower, hLe⟩

section NearestEven

variable (num : Nat) {den : Nat} (hDen : 0 < den)

include hDen

theorem div_eq_add_rest : (num / den : ℚ) = (num / den : Nat) + (num % den : Nat) / den := by
  have hPos : (0 : ℚ) < den := by exact_mod_cast hDen
  have hNat : (num / den) * den + num % den = num := Nat.div_add_mod' num den
  rw [div_eq_iff hPos.ne', add_mul, div_mul_cancel₀ _ hPos.ne']
  exact_mod_cast hNat.symm

theorem rest_lt_half_iff (rest : Nat) : (rest / den : ℚ) < 1 / 2 ↔ 2 * rest < den := by
  have hPos : (0 : ℚ) < den := by exact_mod_cast hDen
  rw [div_lt_iff₀ hPos, ← @Nat.cast_lt ℚ]
  push_cast
  constructor <;> intro h <;> linarith

theorem rest_eq_half_iff (rest : Nat) : (rest / den : ℚ) = 1 / 2 ↔ 2 * rest = den := by
  have hPos : (0 : ℚ) < den := by exact_mod_cast hDen
  rw [div_eq_iff hPos.ne', ← @Nat.cast_inj ℚ]
  push_cast
  constructor <;> intro h <;> linarith

/-- The nearest whole number is at most a half away, and even if it is a half. -/
theorem nearestEven_bounds :
    |(nearestEven num den : ℚ) - num / den| ≤ 1 / 2 ∧
      (|(nearestEven num den : ℚ) - num / den| = 1 / 2 → nearestEven num den % 2 = 0) := by
  have hLess := rest_lt_half_iff hDen (num % den)
  have hSame := rest_eq_half_iff hDen (num % den)
  have hNonneg : (0 : ℚ) ≤ (num % den : Nat) / den := by positivity
  have hBelow : ((num % den : Nat) / den : ℚ) < 1 := by
    rw [div_lt_one (by exact_mod_cast hDen)]
    exact_mod_cast Nat.mod_lt num hDen
  rw [div_eq_add_rest num hDen]
  generalize ((num % den : Nat) / den : ℚ) = rest at hLess hSame hNonneg hBelow ⊢
  by_cases hDown : 2 * (num % den) < den ∨ (2 * (num % den) = den ∧ num / den % 2 = 0)
  · have hDist : |((num / den : Nat) : ℚ) - ((num / den : Nat) + rest)| = rest := by
      rw [sub_add_cancel_left, abs_neg, abs_of_nonneg hNonneg]
    rw [show nearestEven num den = num / den from if_pos hDown, hDist]
    rw [← hLess, ← hSame] at hDown
    rcases hDown with hLt | ⟨hEq, hEven⟩
    · exact ⟨hLt.le, fun hEq => absurd hEq hLt.ne⟩
    · exact ⟨hEq.le, fun _ => hEven⟩
  · have hDist : |((num / den + 1 : Nat) : ℚ) - ((num / den : Nat) + rest)| = 1 - rest := by
      rw [Nat.cast_succ, add_sub_add_left_eq_sub, abs_of_pos (by linarith)]
    rw [show nearestEven num den = num / den + 1 from if_neg hDown, hDist]
    rw [← hLess, ← hSame] at hDown
    obtain ⟨hGe, hOdd⟩ := not_or.1 hDown
    refine ⟨by linarith, ?_⟩
    intro hHalf
    have hNotEven : num / den % 2 ≠ 0 := fun hEven => hOdd ⟨by linarith, hEven⟩
    omega

end NearestEven

/-- What is at most half the least unit is measured as zero. -/
theorem Measure.of_small {q : ℚ} (hNonneg : 0 ≤ q) (hSmall : q ≤ 2 ^ (-1075 : Int)) :
    Measure q (-1074) 0 := by
  have hHalf : (2 ^ (-1075 : Int) : ℚ) = 1 / 2 * 2 ^ (-1074 : Int) := by
    rw [show (-1075 : Int) = -1074 - 1 by rfl, zpow_sub_one₀ two_ne_zero]
    ring
  have hPos : (0 : ℚ) < 2 ^ (-1074 : Int) := by positivity
  refine ⟨le_rfl, hNonneg, ?_, .inl rfl, ?_, fun _ => rfl⟩
  · calc q ≤ 1 / 2 * 2 ^ (-1074 : Int) := hSmall.trans hHalf.le
      _ < 2 ^ 53 * 2 ^ (-1074 : Int) := mul_lt_mul_of_pos_right (by norm_num) hPos
  · rw [Nat.cast_zero, zero_sub, abs_neg, abs_of_nonneg (by positivity), div_le_iff₀ hPos, ← hHalf]
    exact hSmall

/-- The rounding rule measures the fraction. -/
theorem exists_measure (num : Nat) {den : Nat} (hDen : 0 < den) :
    ∃ unit count, Measure (num / den) unit count ∧
      ∀ negative, ofRatio? negative num den = ofCount? negative unit count := by
  rcases eq_or_ne num 0 with rfl | hNum
  · have hZero : ((0 : Nat) / den : ℚ) = 0 := by simp
    exact ⟨-1074, 0, .of_small hZero.ge (hZero.trans_le (by positivity)), fun negative => rfl⟩
  obtain ⟨hLower, hUpper⟩ := binade_bounds hNum hDen
  let unit := max (binade num den - 52) (-1074)
  obtain ⟨hNear, hEven⟩ :=
    nearestEven_bounds (scaled num den unit).1 (scaled_pos num hDen unit)
  rw [scaled_div] at hNear hEven
  refine ⟨unit, _, ⟨le_max_right _ _, by positivity, ?_, ?_, hNear, hEven⟩, ?_⟩
  · calc (num / den : ℚ) < 2 ^ (binade num den + 1) := hUpper
      _ ≤ 2 ^ (53 + unit) := zpow_le_zpow_right₀ one_le_two (by omega)
      _ = 2 ^ 53 * 2 ^ unit := by rw [zpow_add₀ two_ne_zero]; rfl
  · rcases max_choice (binade num den - 52) (-1074) with hUnit | hUnit
    · right
      calc (2 ^ 52 * 2 ^ unit : ℚ) = 2 ^ (52 + unit) := by rw [zpow_add₀ two_ne_zero]; rfl
        _ = 2 ^ binade num den := by
          congr 1
          omega
        _ ≤ num / den := hLower
    · exact .inl hUnit
  · intro negative
    rw [ofRatio?, if_neg hNum]
    rfl

/-- **A fraction is rounded to the nearest double.** -/
theorem ofRatio?_eq_some_iff {negative : Bool} {num den : Nat} (hDen : 0 < den) {x : Double} :
    ofRatio? negative num den = some x ↔ Rounds negative (num / den) x := by
  obtain ⟨unit, count, hMeasure, hRule⟩ := exists_measure num hDen
  rw [hRule, ofCount?_eq_some_iff hMeasure]

/-- A fraction is rounded to none exactly from the limit on. -/
theorem ofRatio?_eq_none_iff_limit_le (negative : Bool) {num den : Nat} (hDen : 0 < den) :
    ofRatio? negative num den = none ↔ (limit : ℚ) ≤ num / den := by
  obtain ⟨unit, count, hMeasure, hRule⟩ := exists_measure num hDen
  rw [hRule]
  rcases le_or_gt (limit : ℚ) (num / den) with hLe | hLt
  · exact iff_of_true (ofCount?_of_limit_le hMeasure negative hLe) hLe
  · obtain ⟨x, hSome, -⟩ := exists_ofCount? hMeasure negative hLt
    rw [hSome]
    exact iff_of_false (Option.some_ne_none x) (not_le.2 hLt)

/-! ## Decimals -/

theorem pow_le_of_lt_digitCount {n places : Nat} (hMany : places < digitCount n) :
    10 ^ places ≤ n := by
  rcases Nat.eq_zero_or_pos places with rfl | hPos
  · by_contra hLt
    have hZero : n = 0 := by omega
    simp [hZero, digitCount] at hMany
  · have hNe : n ≠ 0 := by
      rintro rfl
      simp [digitCount] at hMany
    rw [digitCount, if_neg hNe] at hMany
    rwa [← not_lt, ← Nat.length_toDigits_le_iff (by decide) hPos, not_le]

theorem digitCount_ne_zero {n : Nat} (hNe : n ≠ 0) : digitCount n ≠ 0 := by
  simp [digitCount, hNe]

theorem lt_pow_digitCount (n : Nat) : n < 10 ^ digitCount n := by
  unfold digitCount
  split_ifs with hZero
  · simp [hZero]
  · have hPos : 0 < (Nat.toDigits 10 n).length := List.length_pos_iff.2 Nat.toDigits_ne_nil
    exact (Nat.length_toDigits_le_iff (by decide) hPos).1 le_rfl

/-- A decimal lies below the power of ten that its count of digits gives. -/
theorem decimal_lt (digits : Nat) (power : Int) :
    (digits * 10 ^ power : ℚ) < 10 ^ (digitCount digits + power) := by
  rw [zpow_add₀ (by norm_num), zpow_natCast]
  exact mul_lt_mul_of_pos_right (by exact_mod_cast lt_pow_digitCount digits) (by positivity)

/-- It is at least the power of ten before that one. -/
theorem pow_le_decimal {digits places : Nat} (hMany : places < digitCount digits) (power : Int) :
    (10 ^ (places + power) : ℚ) ≤ digits * 10 ^ power := by
  rw [zpow_add₀ (by norm_num), zpow_natCast]
  exact mul_le_mul_of_nonneg_right (by exact_mod_cast pow_le_of_lt_digitCount hMany)
    (by positivity)

theorem limit_le_pow : limit ≤ 10 ^ 310 := by
  calc limit ≤ 2 ^ 1024 := Nat.sub_le _ _
    _ = 2 * (2 ^ 93) ^ 11 := by rw [← pow_mul, ← pow_succ']
    _ ≤ 10 ^ 2 * (10 ^ 28) ^ 11 :=
      Nat.mul_le_mul (by norm_num) (Nat.pow_le_pow_left (by norm_num) 11)
    _ = 10 ^ 310 := by rw [← pow_mul, ← pow_add]

theorem pow_le_half_unit : (10 ^ (-331 : Int) : ℚ) ≤ 2 ^ (-1075 : Int) := by
  have hNat : 2 ^ 1075 ≤ 10 ^ 331 := by
    calc 2 ^ 1075 = 2 ^ 52 * (2 ^ 93) ^ 11 := by rw [← pow_mul, ← pow_add]
      _ ≤ 10 ^ 23 * (10 ^ 28) ^ 11 :=
        Nat.mul_le_mul (by norm_num) (Nat.pow_le_pow_left (by norm_num) 11)
      _ = 10 ^ 331 := by rw [← pow_mul, ← pow_add]
  have hRat : (2 ^ 1075 : ℚ) ≤ 10 ^ 331 := by
    exact_mod_cast hNat
  rw [zpow_neg, zpow_neg, zpow_ofNat, zpow_ofNat]
  exact inv_anti₀ (by positivity) hRat

/-- **A decimal is rounded to the nearest double.** -/
theorem ofDecimal?_eq_some_iff {negative : Bool} {digits : Nat} {power : Int} {x : Double} :
    ofDecimal? negative digits power = some x ↔ Rounds negative (digits * 10 ^ power) x := by
  have hZero : Measure (digits * 10 ^ power) (-1074) 0 →
      (some (zero negative) = some x ↔ Rounds negative (digits * 10 ^ power) x) :=
    fun hMeasure => ofCount?_eq_some_iff hMeasure
  unfold ofDecimal?
  dsimp only
  split_ifs with hTiny hHuge hWhole
  · refine hZero (.of_small (by positivity) ?_)
    rcases hTiny with rfl | hTop
    · simp
    · calc (digits * 10 ^ power : ℚ) ≤ 10 ^ (digitCount digits + power) :=
            (decimal_lt digits power).le
        _ ≤ 10 ^ (-331 : Int) := zpow_le_zpow_right₀ (by norm_num) (by omega)
        _ ≤ 2 ^ (-1075 : Int) := pow_le_half_unit
  · have hAbove : (limit : ℚ) ≤ digits * 10 ^ power := by
      have hSome : digitCount digits ≠ 0 := digitCount_ne_zero (not_or.1 hTiny).1
      calc (limit : ℚ) ≤ 10 ^ 310 := by exact_mod_cast limit_le_pow
        _ = 10 ^ (310 : Int) := (zpow_ofNat _ _).symm
        _ ≤ 10 ^ ((digitCount digits - 1 : Nat) + power) :=
          zpow_le_zpow_right₀ (by norm_num) (by omega)
        _ ≤ digits * 10 ^ power := pow_le_decimal (by omega) power
    constructor
    · intro hNone
      cases hNone
    · intro hRounds
      exact absurd hRounds.lt_limit (not_lt.2 hAbove)
  · obtain ⟨places, rfl⟩ := Int.eq_ofNat_of_zero_le hWhole
    rw [ofRatio?_eq_some_iff one_pos]
    simp
  · obtain ⟨places, hPlaces⟩ := Int.eq_ofNat_of_zero_le (a := -power) (by omega)
    obtain rfl : power = -places := by omega
    rw [Nat.pow_eq, ofRatio?_eq_some_iff (by positivity)]
    simp [div_eq_mul_inv]

/-! ## Integers -/

/-- An integer that some double is equal to. -/
def IsDouble (n : Int) : Prop := ∃ x : Double, x.toRat = n

/-- A natural number with a sign. -/
def signed (negative : Bool) (n : Nat) : Int := if negative then -n else n

theorem signed_natAbs (n : Int) : signed (decide (n < 0)) n.natAbs = n := by
  simp only [signed, decide_eq_true_eq]
  split <;> omega

theorem sign_mul_natCast (negative : Bool) (n : Nat) : sign negative * n = signed negative n := by
  cases negative <;> simp [sign, signed]

/-- **An integer that is a double is rounded to itself.** -/
theorem exists_ofRatio?_eq (negative : Bool) {n : Nat} {x : Double} (hEq : |x.toRat| = n) :
    ∃ y, ofRatio? negative n 1 = some y ∧ y.toRat = signed negative n := by
  let y : Double := ⟨negative, x.significand, x.exponent, x.canonical⟩
  have hMagnitude : y.magnitude = n := by
    rw [← hEq, abs_toRat]
    rfl
  refine ⟨y, ?_, ?_⟩
  · rw [ofRatio?_eq_some_iff one_pos, Nat.cast_one, div_one, ← hMagnitude]
    exact y.rounds_magnitude
  · rw [toRat_eq, hMagnitude, ← sign_mul_natCast]

/-- **Only integers from `limit` on are too great to be rounded.** -/
theorem ofRatio?_eq_none_iff (negative : Bool) (n : Nat) :
    ofRatio? negative n 1 = none ↔ limit ≤ n := by
  rw [ofRatio?_eq_none_iff_limit_le negative one_pos, Nat.cast_one, div_one, Nat.cast_le]

/-- Digits without a power of ten are rounded as the integer that they denote. -/
theorem ofDecimal?_eq (negative : Bool) (n : Nat) :
    ofDecimal? negative n 0 = ofRatio? negative n 1 := by
  apply Option.ext
  intro x
  rw [ofDecimal?_eq_some_iff, ofRatio?_eq_some_iff one_pos, Nat.cast_one, div_one, zpow_zero,
    mul_one]

end Paging.Double
