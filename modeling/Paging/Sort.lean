import Paging.Json.Basic
import Paging.QueryError
import Paging.Text.Pieces

/-!
# Sort tokens

A sort token is a field, an equals sign and a direction word: `name=asc`. The field ends at the
first equals sign and is taken as it stands, blanks included. The words `asc`, `desc`, `ASC` and
`DESC` are known, and no other mixture of letter cases.
-/

namespace Paging.Sort

/-- Which values come first. -/
inductive Direction where
  | asc
  | desc
deriving DecidableEq, Repr

/-- The lower-case word for a direction. -/
def Direction.word : Direction → String
  | .asc => "asc"
  | .desc => "desc"

/-- The direction that a direction word names. -/
def Direction.ofWord? (word : String) : Option Direction :=
  if word = "asc" ∨ word = "ASC" then some .asc
  else if word = "desc" ∨ word = "DESC" then some .desc
  else none

/-- One entry of an order. -/
structure Spec where
  field : String
  direction : Direction
deriving DecidableEq, Repr

/-- An entry as an object with one key. -/
def Spec.toJson (spec : Spec) : Json := .obj [(spec.field, .str spec.direction.word)]

/-- Several entries as an array. -/
def specsJson (specs : List Spec) : Json := .arr (specs.map Spec.toJson)

/-- Reads a token. -/
def parse (token : String) : Except QueryError Spec :=
  match Text.cut? '=' token.toList with
  | none => .error (.invalidSort token)
  | some (field, word) =>
      if field.isEmpty then .error (.invalidSort token)
      else
        match Direction.ofWord? (String.ofList word) with
        | some direction => .ok ⟨String.ofList field, direction⟩
        | none => .error (.invalidSort token)

/-- Checks a token without keeping what it says. -/
def check (token : String) : Except QueryError Unit := (parse token).map fun _ => ()

/-- Reads tokens in the order of their first appearance; copies are dropped. -/
def parseAll (tokens : List String) : Except QueryError (List Spec) :=
  tokens.eraseDups.mapM parse

theorem Direction.ofWord?_isSome_iff (word : String) :
    (ofWord? word).isSome ↔ word ∈ directionWords := by
  simp only [ofWord?, directionWords, List.mem_cons, List.not_mem_nil, or_false]
  split
  · simp_all only [Option.isSome_some, true_iff]
    rename_i h
    rcases h with rfl | rfl <;> simp
  · split
    · simp_all only [Option.isSome_some, true_iff]
      rename_i h
      rcases h with rfl | rfl <;> simp
    · simp_all

end Paging.Sort
