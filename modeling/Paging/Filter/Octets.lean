import Paging.Filter.Basic
import Paging.Text.Utf8

/-!
# Splitting a token at octets

A token can be scanned as the octets of its text, without a look at its characters: the scan notes
the offsets at which operators begin, and the text is cut there. A text cannot be cut just anywhere,
since a character may have several octets; where none ends there is no cut.
-/

namespace Paging.Text.Utf8

/-- The text before and after an offset in its octets, if a character ends there or the text
begins. -/
def cutAt? : Nat → List Char → Option (List Char × List Char)
  | 0, text => some ([], text)
  | _ + 1, [] => none
  | offset + 1, c :: rest =>
      let size := (encodeChar c).length
      if size ≤ offset + 1 then
        (cutAt? (offset + 1 - size) rest).map fun (before, after) => (c :: before, after)
      else none

end Paging.Text.Utf8

namespace Paging.Filter

open Paging.Text

namespace Operator

/-- The octets that spell the operator. -/
def octets (op : Operator) : List Nat := Utf8.encode op.symbol.toList

/-- The operator that two octets spell. -/
def ofOctets? (a b : Nat) : Option Operator := all.find? fun op => op.octets == [a, b]

end Operator

/-- The operators in octets, from left to right and without overlap, each with the offset at which
it begins. The first octet has the given offset. -/
def operatorsFrom (offset : Nat) : List Nat → List (Nat × Operator)
  | [] => []
  | [_] => []
  | a :: b :: rest =>
      match Operator.ofOctets? a b with
      | some op => (offset, op) :: operatorsFrom (offset + 2) rest
      | none => operatorsFrom (offset + 1) (b :: rest)

/-- The field, the operator and the text of the value, cut out of a token where the scan of its
octets says. There is no answer if a cut would go through a character. -/
def splitAtOctets? (token : String) :
    Option (Except QueryError (List Char × Operator × List Char)) :=
  match operatorsFrom 0 (Utf8.encode token.toList) with
  | [(offset, op)] => do
      let (before, _) ← Utf8.cutAt? offset token.toList
      let field := Text.trim before
      if field.isEmpty then return .error (.invalidFilter token)
      else
        let (_, after) ← Utf8.cutAt? (offset + op.octets.length) token.toList
        return .ok (field, op, Text.trim after)
  | _ => some (.error (.invalidFilter token))

end Paging.Filter
