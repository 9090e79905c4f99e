import Paging.Double.Shortest
import Paging.Json.Basic
import Paging.Text.Hex

/-!
# JSON text

`render` writes a value without any spaces. In strings only the quote, the backslash and the
control characters below U+0020 are escaped. Integers are written in decimal. A double has the fewest
digits that read back; `floatChars` says how they are laid out.
-/

namespace Paging.Json

/-! ## Strings -/

/-- One character of a string. -/
def escapeChar (c : Char) : List Char :=
  if c = '"' then ['\\', '"']
  else if c = '\\' then ['\\', '\\']
  else if c = '\x08' then ['\\', 'b']
  else if c = '\t' then ['\\', 't']
  else if c = '\n' then ['\\', 'n']
  else if c = '\x0c' then ['\\', 'f']
  else if c = '\r' then ['\\', 'r']
  else if c.toNat < 0x20 then
    ['\\', 'u', '0', '0', Text.Hex.lower (c.toNat / 16), Text.Hex.lower (c.toNat % 16)]
  else [c]

/-- A string between its quotes. -/
def quoted (text : String) : List Char :=
  '"' :: text.toList.flatMap escapeChar ++ ['"']

/-! ## Numbers -/

/-- An integer in decimal. -/
def intChars (n : Int) : List Char :=
  if n < 0 then '-' :: Nat.toDigits 10 n.natAbs else Nat.toDigits 10 n.natAbs

/-- Digits with a point after the first one, if there are more, and an exponent with its sign. -/
def scientific (digits : List Char) (exponent : Int) : List Char :=
  let mantissa :=
    match digits with
    | [] => []
    | [d] => [d]
    | d :: more => d :: '.' :: more
  let sign := if exponent < 0 then '-' else '+'
  mantissa ++ 'e' :: sign :: Nat.toDigits 10 exponent.natAbs

/-- The shortest digits of a double. From `1e-5` up to, but without, `1e16` they are written
positionally, with `.0` after an integer; outside they have an exponent. -/
def floatChars (x : Double) : List Char :=
  let decimal := x.shortest .toEven
  let digits := Nat.toDigits 10 decimal.digits
  let exponent : Int := decimal.power + digits.length - 1
  let magnitude :=
    if -5 ≤ exponent ∧ exponent ≤ 15 then
      if 0 ≤ decimal.power then decimal.positional ++ ['.', '0'] else decimal.positional
    else scientific digits exponent
  if x.negative then '-' :: magnitude else magnitude

/-- The text of a number. -/
def numberChars : Number → List Char
  | .int n => intChars n
  | .float x => floatChars x

/-! ## Values -/

mutual

/-- The text of a value. -/
def render : Json → List Char
  | .null => ['n', 'u', 'l', 'l']
  | .bool true => ['t', 'r', 'u', 'e']
  | .bool false => ['f', 'a', 'l', 's', 'e']
  | .num n => numberChars n
  | .str s => quoted s
  | .arr [] => ['[', ']']
  | .arr (item :: items) => '[' :: render item ++ renderItems items
  | .obj [] => ['{', '}']
  | .obj ((key, value) :: entries) =>
      '{' :: quoted key ++ ':' :: render value ++ renderEntries entries

/-- The items of an array after the first, and the bracket that closes it. -/
def renderItems : List Json → List Char
  | [] => [']']
  | item :: items => ',' :: render item ++ renderItems items

/-- The entries of an object after the first, and the brace that closes it. -/
def renderEntries : List (String × Json) → List Char
  | [] => ['}']
  | (key, value) :: entries =>
      ',' :: quoted key ++ ':' :: render value ++ renderEntries entries

end

/-- The text of a value as a string. -/
def text (value : Json) : String := String.ofList (render value)

end Paging.Json
