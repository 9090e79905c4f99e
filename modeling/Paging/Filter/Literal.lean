import Paging.Json.Basic
import Paging.Numeral
import Paging.Text.Letters

/-!
# Values of filter tokens

The text of a value is read as a literal: the words `true`, `false` and `null` in any letter case,
integers of 64 bits, decimal numbers that round to a finite double, and otherwise the text itself.
-/

namespace Paging.Filter

/-- The integer that a text denotes, if it is in range. -/
def integer? (text : List Char) : Option Int := do
  let n ← Numeral.readInt? text
  if Number.minInt ≤ n ∧ n ≤ Number.maxInt then some n else none

/-- The double nearest to the decimal number that a text denotes, if it is finite. -/
def double? (text : List Char) : Option Double := do
  (← Numeral.readDecimal? text).value?

/-- The number that a text denotes. -/
def number? (text : List Char) : Option Number :=
  match integer? text with
  | some n => some (.int n)
  | none => (double? text).map .float

/-- The literal that the text of a value stands for. -/
def literal (text : List Char) : Json :=
  if Text.sameWord text ['t', 'r', 'u', 'e'] then .bool true
  else if Text.sameWord text ['f', 'a', 'l', 's', 'e'] then .bool false
  else
    match number? text with
    | some n => .num n
    | none =>
        if Text.sameWord text ['n', 'u', 'l', 'l'] then .null else .str (String.ofList text)

end Paging.Filter
