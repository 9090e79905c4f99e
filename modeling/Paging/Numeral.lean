import Paging.Double.Decimal

/-!
# Numerals

The text of a number: a sign, the digits before and after the point, and an exponent of ten. Both
the values of filter tokens and the numbers of JSON texts are numerals; the two grammars differ in
what they allow, and so do the rules that give a numeral its value. `value?` is the exact rule,
`quickValue?` the rule of a reader that keeps only as many digits as fit into a 64-bit word.
-/

namespace Paging

/-- Digits before and after the point, and the exponent of ten if there is one. -/
structure Numeral where
  negative : Bool
  whole : List Char
  fraction : List Char
  exponent : Option Int
deriving DecidableEq

namespace Numeral

/-- The number that a run of decimal digits denotes. -/
def ofDigits (digits : List Char) : Nat := Nat.ofDigitChars 10 digits 0

/-- The longest run of decimal digits at the front, and the rest. -/
def takeDigits (text : List Char) : List Char × List Char :=
  (text.takeWhile Char.isDigit, text.dropWhile Char.isDigit)

/-- A sign, if there is one; `plus` says whether a plus sign is allowed. -/
def takeSign (plus : Bool) : List Char → Bool × List Char
  | '-' :: rest => (true, rest)
  | '+' :: rest => if plus then (false, rest) else (false, '+' :: rest)
  | text => (false, text)

/-- An exponent part, if one is complete: the letter, a sign perhaps, and one digit or more. -/
def takeExponent (text : List Char) : Option Int × List Char :=
  match text with
  | letter :: rest =>
      if letter = 'e' ∨ letter = 'E' then
        let (negative, unsigned) := takeSign true rest
        let (digits, after) := takeDigits unsigned
        if digits.isEmpty then (none, text)
        else
          let size : Int := ofDigits digits
          (some (if negative then -size else size), after)
      else (none, text)
  | [] => (none, text)

/-- All digits, those of the fraction after those of the whole part. -/
def digits (numeral : Numeral) : List Char := numeral.whole ++ numeral.fraction

/-- The double nearest to the number written. -/
def value? (numeral : Numeral) : Option Double :=
  Double.ofDecimal? numeral.negative (ofDigits numeral.digits)
    (numeral.exponent.getD 0 - numeral.fraction.length)

/-! ## The quick rule -/

/-- The greatest number of a 64-bit word. -/
def wordMax : Nat := 0xFFFFFFFFFFFFFFFF

/-- Appends digits to a significand for as long as it fits into a word. Also gives how many digits
were appended and how many were left. -/
def appendWithinWord (significand : Nat) : List Char → Nat × Nat × Nat
  | [] => (significand, 0, 0)
  | c :: rest =>
      let longer := significand * 10 + (c.toNat - '0'.toNat)
      if wordMax < longer then (significand, 0, rest.length + 1)
      else
        let (result, appended, left) := appendWithinWord longer rest
        (result, appended + 1, left)

/-- The digits that fit into a word, rounded, times one power of ten. Digits of the whole part that
do not fit count in the power; those of the fraction do not count at all. -/
def quickValue? (numeral : Numeral) : Option Double := do
  let (whole, _, dropped) := appendWithinWord 0 numeral.whole
  let (significand, appended, _) := appendWithinWord whole numeral.fraction
  let start ← Double.ofRatio? numeral.negative significand 1
  start.byPowerOfTen? (numeral.exponent.getD 0 + dropped - appended)

/-! ## The grammar of filter values -/

/-- An integer: a sign perhaps, and one digit or more. -/
def readInt? (text : List Char) : Option Int :=
  let (negative, digits) := takeSign true text
  if digits.isEmpty || !digits.all Char.isDigit then none
  else
    let size : Int := ofDigits digits
    some (if negative then -size else size)

/-- A decimal number: a sign perhaps, digits with a point perhaps (at least one digit in all), and
an exponent perhaps. -/
def readDecimal? (text : List Char) : Option Numeral :=
  let (negative, unsigned) := takeSign true text
  let (whole, afterWhole) := takeDigits unsigned
  let (fraction, afterFraction) :=
    match afterWhole with
    | '.' :: rest => takeDigits rest
    | _ => ([], afterWhole)
  let (exponent, rest) := takeExponent afterFraction
  if rest.isEmpty && !(whole.isEmpty && fraction.isEmpty) then
    some ⟨negative, whole, fraction, exponent⟩
  else none

/-! ## The grammar of JSON numbers -/

/-- A JSON number at the front of a text, and the rest: no plus sign, no leading zeros, digits on
both sides of a point. -/
def takeJson? (text : List Char) : Option (Numeral × List Char) :=
  let (negative, unsigned) := takeSign false text
  let (whole, afterWhole) :=
    match unsigned with
    | '0' :: rest => (['0'], rest)
    | _ => takeDigits unsigned
  if whole.isEmpty then none
  else
    let (fraction, afterFraction) :=
      match afterWhole with
      | '.' :: rest =>
          let (digits, after) := takeDigits rest
          if digits.isEmpty then ([], afterWhole) else (digits, after)
      | _ => ([], afterWhole)
    let (exponent, rest) := takeExponent afterFraction
    some (⟨negative, whole, fraction, exponent⟩, rest)

/-- Whether a numeral has neither a fraction nor an exponent. -/
def isWhole (numeral : Numeral) : Bool := numeral.fraction.isEmpty && numeral.exponent.isNone

end Numeral

end Paging
