import Paging.Double.Basic
import Paging.Table

/-!
# JSON values

Numbers keep apart integers, which are exact, and doubles. Objects are tables of entries; a value
that was read from a text has its keys in order, while a value that describes a record with named
fields keeps the order of the fields.
-/

namespace Paging

/-- A number: an integer, or a double. -/
inductive Number where
  | int (value : Int)
  | float (value : Double)
deriving DecidableEq

namespace Number

/-- The least signed integer of 64 bits, below which no integer is exact. -/
def minInt : Int := -0x8000000000000000

/-- The greatest signed integer of 64 bits. -/
def maxInt : Int := 0x7FFFFFFFFFFFFFFF

/-- The greatest unsigned integer of 64 bits, above which no integer is exact. -/
def maxWord : Int := 0xFFFFFFFFFFFFFFFF

end Number

/-- A JSON value. -/
inductive Json where
  | null
  | bool (value : Bool)
  | num (value : Number)
  | str (value : String)
  | arr (items : List Json)
  | obj (entries : List (String × Json))

namespace Json

instance : Inhabited Json := ⟨.null⟩

/-- A natural number as a value. -/
def nat (n : Nat) : Json := .num (.int n)

/-- A list of strings as a value. -/
def strings (texts : List String) : Json := .arr (texts.map .str)

/-- An object with the named fields in the given order, without those that are absent. -/
def record (fields : List (String × Option Json)) : Json :=
  .obj (fields.filterMap fun (name, value?) => value?.map fun value => (name, value))

/-- Whether a value is a null. -/
def isNull : Json → Bool
  | .null => true
  | _ => false

end Json

end Paging
