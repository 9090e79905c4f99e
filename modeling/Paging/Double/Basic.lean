/-!
# Binary floating-point numbers of 64 bits

A finite double is a sign, a significand below `2 ^ 53` and an exponent of two. The pair is
canonical: either the significand has its full 53 bits or the exponent is the least one, so each
double has one representation and equality of the data is equality of the numbers, the two zeros
being told apart.

`ofRatio?` is the one rounding rule, to the nearest double with ties to the even significand. It
works on natural numbers throughout, and products and quotients are rounded by it too.
-/

namespace Paging

/-- The pairs of significand and exponent that represent a finite double. -/
def Double.Canonical (significand : Nat) (exponent : Int) : Prop :=
  significand < Nat.pow 2 53 ∧ -1074 ≤ exponent ∧ exponent ≤ 971 ∧
    (Nat.pow 2 52 ≤ significand ∨ exponent = -1074)

instance (significand : Nat) (exponent : Int) :
    Decidable (Double.Canonical significand exponent) :=
  inferInstanceAs (Decidable (_ ∧ _))

/-- A finite double: `significand * 2 ^ exponent`, negated if `negative`. -/
structure Double where
  negative : Bool
  significand : Nat
  exponent : Int
  canonical : Double.Canonical significand exponent
deriving DecidableEq

namespace Double

/-- Zero, of either sign. -/
def zero (negative : Bool) : Double := ⟨negative, 0, -1074, by decide⟩

/-- Neither zero is told from the other. -/
def isZero (x : Double) : Bool := x.significand == 0

/-- The double with the given data, if they are canonical. -/
def ofParts? (negative : Bool) (significand : Nat) (exponent : Int) : Option Double :=
  if h : Canonical significand exponent then some ⟨negative, significand, exponent, h⟩ else none

/-! ## Rounding -/

/-- The fraction `num / den / 2 ^ exponent`. -/
def scaled (num den : Nat) (exponent : Int) : Nat × Nat :=
  if 0 ≤ exponent then (num, den * Nat.pow 2 exponent.toNat)
  else (num * Nat.pow 2 (-exponent).toNat, den)

/-- The integer nearest to `num / den`; of two the even one. -/
def nearestEven (num den : Nat) : Nat :=
  let quotient := num / den
  let rest := num % den
  if 2 * rest < den ∨ (2 * rest = den ∧ quotient % 2 = 0) then quotient else quotient + 1

/-- The greatest `k` with `2 ^ k ≤ num / den`, for positive `num` and `den`. -/
def binade (num den : Nat) : Int :=
  let k : Int := (num.log2 : Int) - (den.log2 : Int)
  let (n, d) := scaled num den k
  if d ≤ n then k else k - 1

/-- The double nearest to `num / den`, of two the one with the even significand. There is none when
the magnitude is too great. -/
def ofRatio? (negative : Bool) (num den : Nat) : Option Double :=
  if num = 0 then some (zero negative)
  else
    let exponent := max (binade num den - 52) (-1074)
    let (n, d) := scaled num den exponent
    let significand := nearestEven n d
    if significand < Nat.pow 2 53 then ofParts? negative significand exponent
    else ofParts? negative (Nat.pow 2 52) (exponent + 1)

/-- The double nearest to `num / den * 2 ^ exponent`. -/
def ofScaled? (negative : Bool) (num den : Nat) (exponent : Int) : Option Double :=
  let (n, d) := scaled num den (-exponent)
  ofRatio? negative n d

/-- The greatest double, or the least one if `negative`. -/
def greatest (negative : Bool) : Double := ⟨negative, Nat.pow 2 53 - 1, 971, by decide⟩

/-- The finite double nearest to an integer. -/
def ofInt (n : Int) : Double :=
  let negative := decide (n < 0)
  (ofRatio? negative n.natAbs 1).getD (greatest negative)

/-- The rounded product. -/
def mul? (x y : Double) : Option Double :=
  ofScaled? (x.negative != y.negative) (x.significand * y.significand) 1
    (x.exponent + y.exponent)

/-- The rounded quotient, of which the divisor is not zero. -/
def div? (x y : Double) : Option Double :=
  ofScaled? (x.negative != y.negative) x.significand y.significand (x.exponent - y.exponent)

end Double

end Paging
