import Paging.Text.Hex
import Paging.Text.Pieces
import Paging.Text.Utf8

/-!
# Form-urlencoded text

The notation `name=value&name=value` of query strings. Names and values are written octet by octet
in UTF-8: letters, digits and `*-._` stand for themselves, a space is a plus sign, and every other
octet is a percent sign with two upper-case hexadecimal digits.

Reading refuses nothing. Empty pieces are skipped, a piece without `=` is a name with an empty value,
a percent sign that two hexadecimal digits do not follow stands for itself.
-/

namespace Paging.Text.Form

/-- Characters that stand for themselves. -/
def isPlain (c : Char) : Bool :=
  c.isAlphanum || c = '*' || c = '-' || c = '.' || c = '_'

/-- A percent sign and two hexadecimal digits. -/
def escapeOctet (octet : Nat) : List Char :=
  ['%', Hex.upper (octet / 16), Hex.upper (octet % 16)]

/-- One character of a name or value. -/
def encodeChar (c : Char) : List Char :=
  if isPlain c then [c]
  else if c = ' ' then ['+']
  else (Utf8.encodeChar c).flatMap escapeOctet

/-- A name or value. -/
def encodeText (text : List Char) : List Char := text.flatMap encodeChar

/-- The octets that a written name or value stands for. -/
def octets : List Char → List Nat
  | [] => []
  | '%' :: a :: b :: rest =>
      match Hex.value? a, Hex.value? b with
      | some high, some low => (high * 16 + low) :: octets rest
      | _, _ => '%'.toNat :: octets (a :: b :: rest)
  | c :: rest => (if c = '+' then [0x20] else Utf8.encodeChar c) ++ octets rest

/-- Reads a name or value. -/
def decodeText (text : List Char) : List Char := Utf8.decode (octets text)

/-- One name with its value. -/
def encodePair (pair : String × String) : List Char :=
  encodeText pair.1.toList ++ '=' :: encodeText pair.2.toList

/-- The pairs, in order, with ampersands between them. -/
def encode (pairs : List (String × String)) : List Char :=
  ['&'].intercalate (pairs.map encodePair)

/-- Reads one piece between ampersands. -/
def decodePair (piece : List Char) : String × String :=
  let (name, value) := cut '=' piece
  (String.ofList (decodeText name), String.ofList (decodeText value))

/-- Reads the pairs of a query string, in order. -/
def decode (text : List Char) : List (String × String) :=
  ((pieces '&' text).filter (!·.isEmpty)).map decodePair

end Paging.Text.Form
