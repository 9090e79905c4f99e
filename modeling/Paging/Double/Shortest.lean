import Paging.Double.Decimal

/-!
# The shortest decimal that reads back

Every real number in an interval around a positive double rounds to it; the ends belong to the
interval when the significand is even. `shortest` looks for the least count of digits with which
some decimal lies in the interval. With each count it is enough to look at the two neighbours of the
double on the grid of that many digits: if any point of the grid lies in the interval, then so does
one of them. Of two hits the nearer is taken, and `Tie` says which one is taken if they are equally
near.

Seventeen digits always suffice.
-/

namespace Paging.Double

/-- The choice between two decimals that are equally near. -/
inductive Tie where
  /-- The one with the even last digit. -/
  | toEven
  /-- The greater one. -/
  | away
deriving DecidableEq

/-- The number `digits * 10 ^ power`. -/
structure Decimal where
  digits : Nat
  power : Int
deriving DecidableEq

/-- Compares `n * 10 ^ power` with `m * 2 ^ exponent`. -/
def compareScaled (n : Nat) (power : Int) (m : Nat) (exponent : Int) : Ordering :=
  compare (n * Nat.pow 10 power.toNat * Nat.pow 2 (-exponent).toNat)
    (m * Nat.pow 2 exponent.toNat * Nat.pow 10 (-power).toNat)

/-- The ends of the rounding interval, in units of a quarter of the significand's last bit. Below a
power of two the doubles lie twice as dense, except at the bottom of the range. -/
def quarters (x : Double) : Nat × Nat :=
  let below := if x.significand = Nat.pow 2 52 ∧ x.exponent ≠ -1074 then 1 else 2
  (4 * x.significand - below, 4 * x.significand + 2)

/-- Whether `n * 10 ^ power` rounds to the magnitude of `x`. -/
def readsBack (x : Double) (n : Nat) (power : Int) : Bool :=
  let (low, high) := x.quarters
  let atLow := compareScaled n power low (x.exponent - 2)
  let atHigh := compareScaled n power high (x.exponent - 2)
  if x.significand % 2 = 0 then atLow.isGE && atHigh.isLE else atLow.isGT && atHigh.isLT

/-- The magnitude of `x` as a fraction. -/
def fraction (x : Double) : Nat × Nat := scaled x.significand 1 (-x.exponent)

/-- The greatest `k` with `10 ^ k ≤ num / den`, for positive `num` and `den`. -/
def decade (num den : Nat) : Int :=
  if den ≤ num then (digitCount (num / den) : Int) - 1
  else -(digitCount ((den + num - 1) / num - 1) : Int)

/-- The decimal with the digit `count` nearest to `x` among its neighbours that read back. -/
def withDigits? (tie : Tie) (x : Double) (count : Nat) : Option Decimal :=
  let (num, den) := x.fraction
  let power : Int := decade num den - count + 1
  let n := num * Nat.pow 10 (-power).toNat
  let d := den * Nat.pow 10 power.toNat
  let lower := n / d
  let upper := lower + 1
  match x.readsBack lower power, x.readsBack upper power with
  | true, false => some ⟨lower, power⟩
  | false, true => some ⟨upper, power⟩
  | false, false => none
  | true, true =>
      match compare (2 * (n % d)) d, tie with
      | .lt, _ => some ⟨lower, power⟩
      | .gt, _ => some ⟨upper, power⟩
      | .eq, .away => some ⟨upper, power⟩
      | .eq, .toEven => some ⟨if lower % 2 = 0 then lower else upper, power⟩

/-- Moves trailing zeros of the digits into the power. -/
def Decimal.stripZeros : Nat → Decimal → Decimal
  | 0, decimal => decimal
  | fuel + 1, ⟨digits, power⟩ =>
      if digits % 10 = 0 ∧ digits ≠ 0 then stripZeros fuel ⟨digits / 10, power + 1⟩
      else ⟨digits, power⟩

/-- The shortest decimal that reads back as the magnitude of `x`, nearest to it among those. -/
def shortest (tie : Tie) (x : Double) : Decimal :=
  if x.isZero then ⟨0, 0⟩
  else
    let found := (List.range 17).findSome? fun i => x.withDigits? tie (i + 1)
    (found.getD ⟨x.significand, 0⟩).stripZeros 17

/-- The digits of a decimal with a point and no exponent: `0.00125`, `12.5`, `12500`. -/
def Decimal.positional (decimal : Decimal) : List Char :=
  let digits := Nat.toDigits 10 decimal.digits
  if 0 ≤ decimal.power then digits ++ List.replicate decimal.power.toNat '0'
  else
    let places := (-decimal.power).toNat
    let padded := List.replicate (places + 1 - digits.length) '0' ++ digits
    padded.take (padded.length - places) ++ '.' :: padded.drop (padded.length - places)

end Paging.Double
