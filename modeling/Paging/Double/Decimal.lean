import Paging.Double.Basic

/-!
# Doubles from decimal numbers

Two rules lead from `digits * 10 ^ power` to a double.

`ofDecimal?` rounds the exact value once. Values far outside the range of doubles are settled by the
count of digits, so that no huge power of ten is ever computed.

`byPowerOfTen?` starts from a double and multiplies it or divides it by the double nearest to the
power of ten, rounding again. It is the quick rule of readers that do not promise the nearest double
for every numeral; the two agree whenever the digits and the power are exact doubles.
-/

namespace Paging.Double

/-- How many digits a positive number has; zero has none. -/
def digitCount (n : Nat) : Nat := if n = 0 then 0 else (Nat.toDigits 10 n).length

/-- The double nearest to `digits * 10 ^ power`. -/
def ofDecimal? (negative : Bool) (digits : Nat) (power : Int) : Option Double :=
  let top : Int := digitCount digits + power
  if digits = 0 ∨ top < -330 then some (zero negative)
  else if 310 < top then none
  else if 0 ≤ power then ofRatio? negative (digits * Nat.pow 10 power.toNat) 1
  else ofRatio? negative digits (Nat.pow 10 (-power).toNat)

/-- The greatest power of ten that is below the greatest double. -/
def topPower : Nat := 308

/-- The double nearest to `10 ^ power`. -/
def powerOfTen? (power : Nat) : Option Double := ofRatio? false (Nat.pow 10 power) 1

/-- Division by `10 ^ places`, by at most `topPower` places at a time. -/
def dividedByPowerOfTen? (x : Double) (places : Nat) : Option Double :=
  if places ≤ topPower then do x.div? (← powerOfTen? places)
  else if x.isZero then some x
  else do
    let smaller ← x.div? (← powerOfTen? topPower)
    smaller.dividedByPowerOfTen? (places - topPower)
termination_by places
decreasing_by simp only [topPower] at *; omega

/-- Multiplication by `10 ^ power`, or division where the power is negative. -/
def byPowerOfTen? (x : Double) (power : Int) : Option Double :=
  if power < 0 then x.dividedByPowerOfTen? (-power).toNat
  else if power ≤ topPower then do x.mul? (← powerOfTen? power.toNat)
  else if x.isZero then some x
  else none

end Paging.Double
