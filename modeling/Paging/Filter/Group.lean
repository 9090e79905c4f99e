import Paging.Filter.Basic
import Paging.Text.Pieces

/-!
# Grouping tokens

Tokens that constrain the same thing are compiled together. In flat mode that is the field as
written; in nested mode the dots of a field separate relations, and fields below the same relation
belong together. A token that is alone under its key is simple, the others form combined groups.
Both lists keep the order in which keys and tokens were met.
-/

namespace Paging.Filter

/-- How the dots of a field are read. -/
inductive Mode where
  /-- As characters of the name. -/
  | flat
  /-- As separators of relation names, with the name of a field at the end. -/
  | nested
deriving DecidableEq, Repr

/-- The parts of a path between its dots. -/
def segments (path : String) : List String :=
  (Text.pieces '.' path.toList).map String.ofList

/-- How many dots a path has. -/
def dots (path : String) : Nat := path.toList.count '.'

/-- What the tokens of one group have in common. -/
inductive Key where
  /-- The field. -/
  | field (path : String)
  /-- The relations that the last part of the field lies below. -/
  | below (relations : List String)
deriving DecidableEq, Repr

namespace Key

/-- The key of a field. -/
def ofField (mode : Mode) (path : String) : Key :=
  match mode, (segments path).dropLast with
  | .nested, relation :: relations => .below (relation :: relations)
  | _, _ => .field path

/-- How many dots the fields under a key have. -/
def level : Key → Nat
  | .field path => dots path
  | .below relations => relations.length

end Key

/-- Two or more tokens with one key. -/
structure Combined where
  /-- How many dots the fields have. -/
  level : Nat
  tokens : List String
deriving DecidableEq, Repr

/-- Tokens sorted into those that are alone and those that are not. -/
structure Groups where
  simple : List String
  combined : List Combined
deriving DecidableEq, Repr

namespace Groups

/-- Adds a token to the group with its key, or begins that group at the end. -/
def addToken (key : Key) (token : String) : List (Key × List String) → List (Key × List String)
  | [] => [(key, [token])]
  | (k, tokens) :: rest =>
      if k = key then (k, tokens ++ [token]) :: rest else (k, tokens) :: addToken key token rest

/-- The tokens by their keys, both in the order in which they were met. -/
def byKey (mode : Mode) (tokens : List String) : Except QueryError (List (Key × List String)) :=
  List.foldlM (fun groups token => do
    return addToken (.ofField mode (← parseField token)) token groups) [] tokens

/-- Sorts tokens into groups. The first token that cannot be read is the error. -/
def ofTokens (mode : Mode) (tokens : List String) : Except QueryError Groups := do
  let groups ← byKey mode tokens
  return {
    simple := groups.flatMap fun (_, tokens) => if tokens.length = 1 then tokens else []
    combined := groups.filterMap fun (key, tokens) =>
      if tokens.length = 1 then none else some ⟨key.level, tokens⟩ }

end Groups

end Paging.Filter
