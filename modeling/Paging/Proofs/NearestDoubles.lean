import Mathlib.Algebra.Order.Field.Power
import Mathlib.Data.Rat.Cast.Order
import Mathlib.Tactic.Linarith
import Mathlib.Tactic.NormNum
import Mathlib.Tactic.Positivity
import Mathlib.Tactic.Ring
import Paging.Double.Basic

/-!
# The nearest double

A double is a rational number (`toRat`), and a number is rounded to the double nearest to it, of two
equally near the one with the even significand (`Nearest`); its sign is kept where it is rounded to
zero, and none is found from `limit` on (`Rounds`).

To round a number is to measure it in units of two to some exponent, so that a significand of 53
bits counts them, and to take the whole number of units that is nearest (`Measure`). No double is
nearer than that (`Measure.dist_le`): where its exponent is not below that of the unit, it is a
whole number of units itself, and where it is below, the double lies below the least significand of
53 bits, which the number does not. So the double of the count is the one that the number is rounded
to (`ofCount?_eq_some_iff`).
-/

namespace Paging.Double

/-- The number that a double is. -/
def toRat (x : Double) : ℚ := (if x.negative then -1 else 1) * (x.significand * 2 ^ x.exponent)

/-- The number that a double is, without its sign. -/
def magnitude (x : Double) : ℚ := x.significand * 2 ^ x.exponent

/-- The factor that a sign stands for. -/
def sign (negative : Bool) : ℚ := if negative then -1 else 1

theorem toRat_eq (x : Double) : x.toRat = sign x.negative * x.magnitude := rfl

theorem magnitude_nonneg (x : Double) : 0 ≤ x.magnitude := by
  unfold magnitude
  positivity

theorem abs_sign_mul (negative : Bool) (q : ℚ) : |sign negative * q| = |q| := by
  cases negative <;> simp [sign]

theorem abs_toRat (x : Double) : |x.toRat| = x.magnitude := by
  rw [toRat_eq, abs_sign_mul, abs_of_nonneg x.magnitude_nonneg]

/-- A double lies as far from a number of its own sign as its magnitude does. -/
theorem abs_toRat_sub (x : Double) (q : ℚ) :
    |x.toRat - sign x.negative * q| = |x.magnitude - q| := by
  rw [toRat_eq, ← mul_sub, abs_sign_mul]

/-- From a number of the other sign it lies away by both magnitudes. -/
theorem abs_toRat_sub_of_ne {x : Double} {negative : Bool} (hNe : x.negative ≠ negative) {q : ℚ}
    (hNonneg : 0 ≤ q) : |x.toRat - sign negative * q| = x.magnitude + q := by
  have hSign : sign negative = -sign x.negative := by
    revert hNe
    cases negative <;> cases x.negative <;> simp [sign]
  have hSum : x.toRat - sign negative * q = sign x.negative * (x.magnitude + q) := by
    rw [toRat_eq, hSign]
    ring
  rw [hSum, abs_sign_mul, abs_of_nonneg (add_nonneg x.magnitude_nonneg hNonneg)]

section Canonical

variable {m m' : Nat} {e e' : Int} (hLeft : Canonical m e) (hRight : Canonical m' e')
  (hEq : (m * 2 ^ e : ℚ) = m' * 2 ^ e')

include hLeft hRight hEq

/-- A greater exponent would stand beside a full significand, so that the other one overflows. -/
theorem Canonical.exponent_le : e' ≤ e := by
  by_contra hLt
  obtain ⟨shift, hShift⟩ := Int.eq_ofNat_of_zero_le (a := e' - (e + 1)) (by omega)
  obtain rfl : e' = e + (shift + 1) := by omega
  have hNat : m = m' * 2 ^ (shift + 1) := by
    rw [zpow_add₀ two_ne_zero, mul_left_comm, mul_comm, mul_right_inj' (by positivity)] at hEq
    exact_mod_cast hEq
  obtain ⟨hOverflow, hLeast, -⟩ := hLeft
  have hFull : 2 ^ 52 ≤ m' := hRight.2.2.2.resolve_right (by omega)
  have hLarge : 2 ^ 53 ≤ m := by
    rw [hNat, pow_succ 2 52]
    exact Nat.mul_le_mul hFull (Nat.le_self_pow (by omega) 2)
  exact absurd hOverflow (not_lt.2 hLarge)

/-- A number has one canonical representation. -/
theorem Canonical.unique : m = m' ∧ e = e' := by
  have hExponent : e = e' :=
    le_antisymm (exponent_le hRight hLeft hEq.symm) (exponent_le hLeft hRight hEq)
  subst hExponent
  have hSignificand : (m : ℚ) = m' := mul_right_cancel₀ (by positivity) hEq
  exact ⟨by exact_mod_cast hSignificand, rfl⟩

end Canonical

theorem eq_of_magnitude_eq {x y : Double} (hNegative : x.negative = y.negative)
    (hMagnitude : x.magnitude = y.magnitude) : x = y := by
  obtain ⟨negative, m, e, hX⟩ := x
  obtain ⟨negative', m', e', hY⟩ := y
  obtain ⟨rfl, rfl⟩ := hX.unique hY hMagnitude
  obtain rfl : negative = negative' := hNegative
  rfl

/-! ## What it is to round -/

/-- The least magnitude that is rounded to no finite double: halfway between the greatest double and
the power of two above it. -/
def limit : Nat := 2 ^ 1024 - 2 ^ 970

theorem limit_eq : limit = (2 ^ 54 - 1) * 2 ^ 970 := by
  rw [limit, show 1024 = 54 + 970 by rfl, pow_add, Nat.sub_mul, one_mul]

theorem limit_cast : (limit : ℚ) = (2 ^ 54 - 1) * 2 ^ (970 : Int) := by
  have hFactor : ((2 ^ 54 - 1 : Nat) : ℚ) = 2 ^ 54 - 1 := by norm_num
  rw [limit_eq, Nat.cast_mul, hFactor, Nat.cast_pow, Nat.cast_ofNat, zpow_ofNat]

/-- No double is nearer to a number, and if another one is equally near, then this one has the even
significand. -/
structure Nearest (x : Double) (v : ℚ) : Prop where
  le : ∀ y : Double, |x.toRat - v| ≤ |y.toRat - v|
  even : ∀ y : Double, |y.toRat - v| = |x.toRat - v| → y.toRat ≠ x.toRat → x.significand % 2 = 0

/-- A number given by sign and magnitude is rounded to a finite double. -/
structure Rounds (negative : Bool) (q : ℚ) (x : Double) : Prop where
  negative_eq : x.negative = negative
  lt_limit : q < limit
  nearest : x.Nearest (sign negative * q)

/-- The magnitude of a double is itself no magnitude that overflows. -/
theorem magnitude_lt_limit (x : Double) : x.magnitude < limit := by
  obtain ⟨hLt, -, hGreatest, -⟩ := x.canonical
  have hSignificand : (x.significand : ℚ) ≤ 2 ^ 53 - 1 := by
    have hNat : x.significand + 1 ≤ 2 ^ 53 := hLt
    have hCast : (x.significand + 1 : ℚ) ≤ 2 ^ 53 := by exact_mod_cast hNat
    linarith
  calc x.magnitude ≤ (2 ^ 53 - 1) * 2 ^ (971 : Int) :=
        mul_le_mul hSignificand (zpow_le_zpow_right₀ one_le_two hGreatest) (by positivity)
          (by norm_num)
    _ = (2 ^ 54 - 2) * 2 ^ (970 : Int) := by
      rw [show (971 : Int) = 970 + 1 by rfl, zpow_add_one₀ two_ne_zero]
      ring
    _ < (2 ^ 54 - 1) * 2 ^ (970 : Int) := mul_lt_mul_of_pos_right (by norm_num) (by positivity)
    _ = limit := limit_cast.symm

/-- A double is what its own number is rounded to. -/
theorem rounds_magnitude (x : Double) : Rounds x.negative x.magnitude x := by
  have hSelf : |x.toRat - sign x.negative * x.magnitude| = 0 := by
    rw [toRat_eq, sub_self, abs_zero]
  refine ⟨rfl, x.magnitude_lt_limit, ?_, ?_⟩
  · intro y
    rw [hSelf]
    exact abs_nonneg _
  · intro y hEq hNe
    rw [hSelf, abs_eq_zero, sub_eq_zero] at hEq
    exact absurd hEq hNe

/-! ## Measuring in units -/

/-- A magnitude is measured in units of `2 ^ unit`: a significand of 53 bits counts them, unless the
unit is the least one, and `count` is the whole number nearest to the measure, of two the even
one. -/
structure Measure (q : ℚ) (unit : Int) (count : Nat) : Prop where
  unit_ge : -1074 ≤ unit
  nonneg : 0 ≤ q
  lt : q < 2 ^ 53 * 2 ^ unit
  full : unit = -1074 ∨ 2 ^ 52 * 2 ^ unit ≤ q
  near : |count - q / 2 ^ unit| ≤ 1 / 2
  even : |count - q / 2 ^ unit| = 1 / 2 → count % 2 = 0

theorem dist_units_eq (q : ℚ) (unit : Int) (i : Nat) :
    |(i * 2 ^ unit : ℚ) - q| = |i - q / 2 ^ unit| * 2 ^ unit := by
  have hPos : (0 : ℚ) < 2 ^ unit := by positivity
  rw [← abs_of_pos hPos, ← abs_mul, abs_of_pos hPos, sub_mul, div_mul_cancel₀ _ hPos.ne']

/-- A significand whose exponent is not below that of the unit is a whole number of units. -/
theorem exists_units (m : Nat) {unit e : Int} (hLe : unit ≤ e) :
    ∃ shift : Nat, (m * 2 ^ e : ℚ) = (m * 2 ^ shift : Nat) * 2 ^ unit := by
  obtain ⟨shift, hShift⟩ := Int.eq_ofNat_of_zero_le (sub_nonneg.2 hLe)
  obtain rfl : e = unit + shift := by omega
  refine ⟨shift, ?_⟩
  rw [zpow_add₀ two_ne_zero, zpow_natCast]
  push_cast
  ring

namespace Measure

variable {q : ℚ} {unit : Int} {count : Nat} (h : Measure q unit count)

include h

/-- Another whole number of units is at least half a unit away. -/
theorem half_le {i : Nat} (hNe : i ≠ count) : 1 / 2 ≤ |(i : ℚ) - q / 2 ^ unit| := by
  have hApart : (1 : ℚ) ≤ |(i : ℚ) - count| := by
    have hInt : (1 : Int) ≤ |(i : Int) - count| := Int.one_le_abs (by omega)
    exact_mod_cast hInt
  have hTriangle := abs_sub_le (i : ℚ) (q / 2 ^ unit) count
  rw [abs_sub_comm (q / 2 ^ unit)] at hTriangle
  linarith [h.near]

theorem dist_le_units (i : Nat) : |(count * 2 ^ unit : ℚ) - q| ≤ |(i * 2 ^ unit : ℚ) - q| := by
  rcases eq_or_ne i count with rfl | hNe
  · exact le_rfl
  · rw [dist_units_eq, dist_units_eq]
    exact mul_le_mul_of_nonneg_right (h.near.trans (h.half_le hNe)) (by positivity)

/-- If another whole number of units is equally near, then it is the odd one. -/
theorem odd_units {i : Nat} (hNe : i ≠ count)
    (hEq : |(i * 2 ^ unit : ℚ) - q| = |(count * 2 ^ unit : ℚ) - q|) :
    count % 2 = 0 ∧ i % 2 = 1 := by
  rw [dist_units_eq, dist_units_eq, mul_left_inj' (by positivity)] at hEq
  have hHalf : |(count : ℚ) - q / 2 ^ unit| = 1 / 2 := le_antisymm h.near (hEq ▸ h.half_le hNe)
  have hEven : count % 2 = 0 := h.even hHalf
  have hApart : |(i : ℚ) - count| ≤ 1 := by
    have hTriangle := abs_sub_le (i : ℚ) (q / 2 ^ unit) count
    rw [abs_sub_comm (q / 2 ^ unit)] at hTriangle
    linarith
  have hInt : |(i : Int) - count| ≤ 1 := by
    exact_mod_cast hApart
  rw [abs_le] at hInt
  exact ⟨hEven, by omega⟩

/-- A significand with a smaller exponent is farther away. -/
theorem dist_lt_of_lt {m : Nat} {e : Int} (hSignificand : m < 2 ^ 53) (hLeast : -1074 ≤ e)
    (hLt : e < unit) : |(count * 2 ^ unit : ℚ) - q| < |(m * 2 ^ e : ℚ) - q| := by
  have hFull : (2 ^ 52 * 2 ^ unit : ℚ) ≤ q := h.full.resolve_left (by omega)
  have hBelow : (m * 2 ^ e : ℚ) < 2 ^ 52 * 2 ^ unit := by
    have hUnit : (2 ^ e : ℚ) ≤ 2 ^ (unit - 1) := zpow_le_zpow_right₀ one_le_two (by omega)
    calc (m * 2 ^ e : ℚ) < 2 ^ 53 * 2 ^ e :=
          mul_lt_mul_of_pos_right (by exact_mod_cast hSignificand) (by positivity)
      _ ≤ 2 ^ 53 * 2 ^ (unit - 1) := mul_le_mul_of_nonneg_left hUnit (by positivity)
      _ = 2 ^ 52 * 2 ^ unit := by
          rw [zpow_sub_one₀ two_ne_zero]
          ring
  have hLeastFull : |(count * 2 ^ unit : ℚ) - q| ≤ |(2 ^ 52 * 2 ^ unit : ℚ) - q| := by
    have hUnits := h.dist_le_units (2 ^ 52)
    rwa [Nat.cast_pow, Nat.cast_ofNat] at hUnits
  calc |(count * 2 ^ unit : ℚ) - q| ≤ |(2 ^ 52 * 2 ^ unit : ℚ) - q| := hLeastFull
    _ = q - 2 ^ 52 * 2 ^ unit := by rw [abs_sub_comm, abs_of_nonneg (sub_nonneg.2 hFull)]
    _ < q - m * 2 ^ e := by linarith
    _ = |(m * 2 ^ e : ℚ) - q| := by
      rw [abs_sub_comm, abs_of_nonneg (sub_nonneg.2 (hBelow.le.trans hFull))]

/-- **No double is nearer than the nearest whole number of units.** -/
theorem dist_le (x : Double) : |(count * 2 ^ unit : ℚ) - q| ≤ |x.magnitude - q| := by
  rcases lt_or_ge x.exponent unit with hLt | hLe
  · exact (h.dist_lt_of_lt x.canonical.1 x.canonical.2.1 hLt).le
  · obtain ⟨shift, hUnits⟩ := exists_units x.significand hLe
    rw [magnitude, hUnits]
    exact h.dist_le_units _

/-- A double that is equally near has an odd significand, and the number of units is even. -/
theorem odd_of_dist_eq {x : Double} (hNe : x.magnitude ≠ count * 2 ^ unit)
    (hEq : |x.magnitude - q| = |(count * 2 ^ unit : ℚ) - q|) :
    count % 2 = 0 ∧ x.significand % 2 = 1 := by
  rcases lt_or_ge x.exponent unit with hLt | hLe
  · exact absurd hEq (h.dist_lt_of_lt x.canonical.1 x.canonical.2.1 hLt).ne'
  · obtain ⟨shift, hUnits⟩ := exists_units x.significand hLe
    rw [magnitude, hUnits] at hNe hEq
    obtain ⟨hEven, hOdd⟩ := h.odd_units (fun hSame => hNe (by rw [hSame])) hEq
    exact ⟨hEven, (Nat.odd_iff.1 (Nat.odd_mul.1 (Nat.odd_iff.2 hOdd)).1)⟩

theorem count_le : count ≤ 2 ^ 53 := by
  have hLt : q / 2 ^ unit < 2 ^ 53 := (div_lt_iff₀ (by positivity)).2 h.lt
  have hNear := (abs_le.1 h.near).2
  have hCast : (count : ℚ) < 2 ^ 53 + 1 := by linarith
  have hNat : count < 2 ^ 53 + 1 := by
    exact_mod_cast hCast
  omega

theorem le_count (hUnit : unit ≠ -1074) : 2 ^ 52 ≤ count := by
  have hLe : 2 ^ 52 ≤ q / 2 ^ unit := (le_div_iff₀ (by positivity)).2 (h.full.resolve_left hUnit)
  have hNear := (abs_le.1 h.near).1
  have hCast : (2 ^ 52 : ℚ) < count + 1 := by linarith
  have hNat : 2 ^ 52 < count + 1 := by
    exact_mod_cast hCast
  omega

/-- The count overflows from the number on that is halfway between the last two counts. -/
theorem count_eq_iff : count = 2 ^ 53 ↔ 2 ^ 53 - 1 / 2 ≤ q / 2 ^ unit := by
  have hNear := abs_le.1 h.near
  constructor
  · rintro rfl
    have hLast : ((2 ^ 53 : Nat) : ℚ) = 2 ^ 53 := by rw [Nat.cast_pow, Nat.cast_ofNat]
    rw [hLast] at hNear
    linarith
  · intro hLe
    by_contra hNe
    have hCount : count + 1 ≤ 2 ^ 53 := by
      have hLast := h.count_le
      omega
    have hCast : (count + 1 : ℚ) ≤ 2 ^ 53 := by exact_mod_cast hCount
    -- The number is halfway between the count and the one above it, so that the count is even.
    have hHalf : (count : ℚ) - q / 2 ^ unit = -(1 / 2) := by linarith
    have hEven : count % 2 = 0 := by
      refine h.even ?_
      rw [hHalf]
      norm_num
    have hLast : 2 ^ 53 < (count + 2 : ℚ) := by linarith
    have hNat : 2 ^ 53 < count + 2 := by exact_mod_cast hLast
    omega

/-- The magnitudes from `limit` on are those that overflow. -/
theorem limit_le_iff : limit ≤ q ↔ 971 < unit ∨ (unit = 971 ∧ count = 2 ^ 53) := by
  rcases lt_trichotomy unit 971 with hSmall | rfl | hLarge
  · have hUnit : (2 ^ unit : ℚ) ≤ 2 ^ (970 : Int) := zpow_le_zpow_right₀ one_le_two (by omega)
    have hBelow : q < limit := by
      calc q < 2 ^ 53 * 2 ^ unit := h.lt
        _ ≤ 2 ^ 53 * 2 ^ (970 : Int) := mul_le_mul_of_nonneg_left hUnit (by positivity)
        _ ≤ (2 ^ 54 - 1) * 2 ^ (970 : Int) :=
          mul_le_mul_of_nonneg_right (by norm_num) (by positivity)
        _ = limit := limit_cast.symm
    exact iff_of_false (not_le.2 hBelow) (by omega)
  · have hHalf : (limit : ℚ) = (2 ^ 53 - 1 / 2) * 2 ^ (971 : Int) := by
      rw [limit_cast, show (971 : Int) = 970 + 1 by rfl, zpow_add_one₀ two_ne_zero]
      ring
    rw [hHalf, ← le_div_iff₀ (by positivity), ← h.count_eq_iff]
    simp
  · have hUnit : (2 ^ (972 : Int) : ℚ) ≤ 2 ^ unit := zpow_le_zpow_right₀ one_le_two (by omega)
    have hAbove : limit ≤ q := by
      calc (limit : ℚ) = (2 ^ 54 - 1) * 2 ^ (970 : Int) := limit_cast
        _ ≤ 2 ^ 54 * 2 ^ (970 : Int) := mul_le_mul_of_nonneg_right (by norm_num) (by positivity)
        _ = 2 ^ 52 * 2 ^ (972 : Int) := by
          rw [show (972 : Int) = 970 + 2 by rfl, zpow_add₀ two_ne_zero]
          ring
        _ ≤ 2 ^ 52 * 2 ^ unit := mul_le_mul_of_nonneg_left hUnit (by positivity)
        _ ≤ q := h.full.resolve_left (by omega)
    exact iff_of_true hAbove (.inl hLarge)

end Measure

/-! ## The double of a count -/

/-- The double of a number of units. A count that overflows the significand is a power of two. -/
def ofCount? (negative : Bool) (unit : Int) (count : Nat) : Option Double :=
  if count < 2 ^ 53 then ofParts? negative count unit else ofParts? negative (2 ^ 52) (unit + 1)

/-- No double has an exponent beyond the greatest one. -/
theorem ofParts?_of_lt (negative : Bool) (m : Nat) {e : Int} (hLt : 971 < e) :
    ofParts? negative m e = none := by
  apply dif_neg
  intro hCanonical
  exact absurd hCanonical.2.2.1 (not_le.2 hLt)

/-- A double stands for a number of units, and its significand is even if that number is. -/
structure StandsFor (x : Double) (negative : Bool) (unit : Int) (count : Nat) : Prop where
  negative_eq : x.negative = negative
  magnitude_eq : x.magnitude = count * 2 ^ unit
  even : count % 2 = 0 → x.significand % 2 = 0

section Counts

variable {q : ℚ} {unit : Int} {count : Nat} (h : Measure q unit count)

include h

/-- A count below the limit stands for a double. -/
theorem exists_ofCount? (negative : Bool) (hLt : q < limit) :
    ∃ x, ofCount? negative unit count = some x ∧ StandsFor x negative unit count := by
  have hUnit : unit ≤ 971 ∧ (unit = 971 → count < 2 ^ 53) := by
    have hNot := mt h.limit_le_iff.2 (not_le.2 hLt)
    have hCount := h.count_le
    omega
  unfold ofCount?
  split_ifs with hCount
  · have hCanonical : Canonical count unit := by
      refine ⟨hCount, h.unit_ge, hUnit.1, ?_⟩
      by_cases hLeast : unit = -1074
      · exact .inr hLeast
      · exact .inl (h.le_count hLeast)
    exact ⟨⟨negative, count, unit, hCanonical⟩, dif_pos hCanonical, rfl, rfl, id⟩
  · have hEq : count = 2 ^ 53 := le_antisymm h.count_le (not_lt.1 hCount)
    have hCanonical : Canonical (2 ^ 52) (unit + 1) := by
      have hLeast := h.unit_ge
      exact ⟨by decide, by omega, by omega, .inl le_rfl⟩
    have hEven : 2 ^ 52 % 2 = 0 := by decide
    refine ⟨⟨negative, 2 ^ 52, unit + 1, hCanonical⟩, dif_pos hCanonical, rfl, ?_, fun _ => hEven⟩
    rw [magnitude, hEq, zpow_add_one₀ two_ne_zero, Nat.cast_pow, Nat.cast_pow]
    ring

/-- From the limit on there is none. -/
theorem ofCount?_of_limit_le (negative : Bool) (hLe : limit ≤ q) :
    ofCount? negative unit count = none := by
  have hUnit := h.limit_le_iff.1 hLe
  unfold ofCount?
  split_ifs with hCount
  · apply ofParts?_of_lt
    omega
  · apply ofParts?_of_lt
    omega

variable {negative : Bool} {x : Double}

/-- A double that stands for the nearest count is the nearest double. -/
theorem StandsFor.nearest (hStands : StandsFor x negative unit count) :
    x.Nearest (sign negative * q) := by
  obtain ⟨rfl, hMagnitude, hEven⟩ := hStands
  have hZero : |(0 : ℚ) - q| = q := by rw [zero_sub, abs_neg, abs_of_nonneg h.nonneg]
  have hDist : |x.toRat - sign x.negative * q| = |(count * 2 ^ unit : ℚ) - q| := by
    rw [abs_toRat_sub, hMagnitude]
  have hNearZero : |(count * 2 ^ unit : ℚ) - q| ≤ q := by
    have hLe := h.dist_le (zero false)
    rwa [magnitude, show ((zero false).significand : ℚ) = 0 from rfl, zero_mul, hZero] at hLe
  constructor
  · intro y
    rw [hDist]
    by_cases hSign : y.negative = x.negative
    · rw [← hSign, abs_toRat_sub]
      exact h.dist_le y
    · rw [abs_toRat_sub_of_ne hSign h.nonneg]
      linarith [y.magnitude_nonneg]
  · intro y hEq hNe
    rw [hDist] at hEq
    refine hEven ?_
    by_cases hSign : y.negative = x.negative
    · rw [← hSign, abs_toRat_sub] at hEq
      refine (h.odd_of_dist_eq ?_ hEq).1
      intro hSame
      exact hNe (by rw [toRat_eq, toRat_eq, hSign, hSame, hMagnitude])
    · -- Then the other double is zero, since zero is as near as any number of the other sign.
      rw [abs_toRat_sub_of_ne hSign h.nonneg] at hEq
      have hY : y.magnitude = 0 := by linarith [y.magnitude_nonneg]
      refine (h.odd_of_dist_eq (x := y) ?_ ?_).1
      · intro hSame
        exact hNe (by rw [toRat_eq, toRat_eq, hMagnitude, ← hSame, hY, mul_zero, mul_zero])
      · rw [← hEq, hY, hZero, zero_add]

/-- There is no other nearest double of that sign. -/
theorem StandsFor.eq_of_nearest (hStands : StandsFor x negative unit count) {y : Double}
    (hSign : y.negative = negative) (hNearest : y.Nearest (sign negative * q)) : y = x := by
  have hX := hStands.nearest h
  obtain ⟨rfl, hMagnitude, -⟩ := hStands
  have hDist : |y.magnitude - q| = |(count * 2 ^ unit : ℚ) - q| := by
    have hEq := le_antisymm (hNearest.le x) (hX.le y)
    rwa [← hSign, abs_toRat_sub, hSign, abs_toRat_sub, hMagnitude] at hEq
  by_contra hNe
  have hOther : y.magnitude ≠ x.magnitude := fun hSame => hNe (eq_of_magnitude_eq hSign hSame)
  have hOdd : y.significand % 2 = 1 := (h.odd_of_dist_eq (hMagnitude ▸ hOther) hDist).2
  have hEven : y.significand % 2 = 0 := by
    refine hNearest.even x (le_antisymm (hX.le y) (hNearest.le x)) ?_
    intro hSame
    exact hOther (by rw [← abs_toRat, ← hSame, abs_toRat])
  omega

/-- **The double of the nearest count is what the number is rounded to.** -/
theorem ofCount?_eq_some_iff :
    ofCount? negative unit count = some x ↔ Rounds negative q x := by
  rcases le_or_gt (limit : ℚ) q with hLe | hLt
  · rw [ofCount?_of_limit_le h negative hLe]
    constructor
    · intro hNone
      cases hNone
    · intro hRounds
      exact absurd hRounds.lt_limit (not_lt.2 hLe)
  · obtain ⟨y, hSome, hStands⟩ := exists_ofCount? h negative hLt
    rw [hSome, Option.some_inj]
    constructor
    · rintro rfl
      exact ⟨hStands.negative_eq, hLt, hStands.nearest h⟩
    · intro hRounds
      exact (hStands.eq_of_nearest h hRounds.negative_eq hRounds.nearest).symm

end Counts

end Paging.Double
