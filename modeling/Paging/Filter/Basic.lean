import Paging.Filter.Literal
import Paging.QueryError
import Paging.Text.Blank

/-!
# Filters

A filter token is a field, one operator and a value: `age>=18`. `splitOperators` scans a token from
left to right; an operator that it finds is skipped as a whole, so that `a===b` holds the one
operator `==`. A token with no operator, with more than one, or without a field is refused.
-/

namespace Paging

/-- A comparison of a field with a literal. -/
@[ext]
structure Filter where
  /-- The path of the field, with dots perhaps. -/
  field : String
  operator : Filter.Operator
  value : Json

namespace Filter

/-- The text before the first operator of a token, and every operator with the text after it up to
the next one. -/
def splitOperators : List Char → List Char × List (Operator × List Char)
  | [] => ([], [])
  | [c] => ([c], [])
  | a :: b :: rest =>
      match Operator.ofChars? a b with
      | some op =>
          let (text, more) := splitOperators rest
          ([], (op, text) :: more)
      | none =>
          let (text, more) := splitOperators (b :: rest)
          (a :: text, more)

/-- The field, the operator and the text of the value, both texts without blanks around them. -/
def split? (token : String) : Except QueryError (List Char × Operator × List Char) :=
  match splitOperators token.toList with
  | (before, [(op, after)]) =>
      let field := Text.trim before
      if field.isEmpty then .error (.invalidFilter token)
      else .ok (field, op, Text.trim after)
  | _ => .error (.invalidFilter token)

/-- Reads a token. -/
def parse (token : String) : Except QueryError Filter := do
  let (field, operator, value) ← split? token
  return ⟨String.ofList field, operator, literal value⟩

/-- Reads the field of a token only. -/
def parseField (token : String) : Except QueryError String := do
  let (field, _, _) ← split? token
  return String.ofList field

end Filter

end Paging
