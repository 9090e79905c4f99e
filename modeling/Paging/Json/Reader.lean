import Paging.Json.Basic
import Paging.Json.Document

/-!
# Reading JSON values

A document has a value when all its strings are texts and all its numbers are in range. Of members
with one name the last one counts. An integer from `-2 ^ 63` to `2 ^ 64 - 1` is exact; every other
number is a double, and so is a zero with a minus sign.
-/

namespace Paging

namespace Number

/-- The number that a numeral stands for; there is none if it is too great for a double. -/
def ofNumeral? (numeral : Numeral) : Option Number :=
  let size : Int := Numeral.ofDigits numeral.whole
  let value := if numeral.negative then -size else size
  if numeral.isWhole ∧ ¬(numeral.negative ∧ size = 0) ∧ minInt ≤ value ∧ value ≤ maxWord then
    some (.int value)
  else numeral.quickValue?.map .float

end Number

namespace Json

namespace Document

mutual

/-- The value of a document. -/
def value? : Document → Option Json
  | .null => some .null
  | .bool b => some (.bool b)
  | .num numeral => (Number.ofNumeral? numeral).map .num
  | .str text => text.map .str
  | .arr items => (itemValues? items).map .arr
  | .obj members => (memberValues? members).map fun entries => .obj (Table.ofList entries)

/-- The values of items. -/
def itemValues? : List Document → Option (List Json)
  | [] => some []
  | item :: items => do return (← value? item) :: (← itemValues? items)

/-- The names and values of members. -/
def memberValues? : List (Option String × Document) → Option (List (String × Json))
  | [] => some []
  | (name, item) :: members => do return (← name, ← value? item) :: (← memberValues? members)

end

/-- The value of a document that stands inside `outer` other arrays and objects. -/
def valueWithin? (outer : Nat) (document : Document) : Option Json :=
  if outer + document.depth ≤ maxDepth then document.value? else none

end Document

/-- The value of a text. -/
def parse? (text : String) : Option Json := do
  (← Document.parse? text.toList).valueWithin? 0

end Json

end Paging
