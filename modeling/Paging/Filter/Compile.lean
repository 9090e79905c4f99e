import Paging.Filter.Clause
import Paging.Filter.Group

/-!
# Compiling filters

A list of tokens becomes a clause: repeated tokens are dropped, the tokens are grouped, the combined
groups are compiled, and the simple tokens are added to the result. Every step assigns over what is
there already, so that the later of two units with one top key replaces the earlier one and the
replacement is noted.
-/

namespace Paging.Filter

/-- The condition that a filter puts on its field. -/
def condition (filter : Filter) : Condition := .ofOperator filter.operator filter.value

/-- The tokens of one field, merged under the field of the first of them. -/
def compileFlat (tokens : List String) : Except QueryError Clause := do
  match ← tokens.mapM parse with
  | [] => return []
  | filter :: rest =>
      let merged := rest.foldl (fun merged filter => merged.merge filter.condition) filter.condition
      return .single filter.field (.condition merged)

/-- The relations at the front of a path, if it goes on below them. -/
def relations? (level : Nat) (path : List String) : Option (List String) :=
  if level < path.length then some (path.take level) else none

/-- Reads a token of a group whose first token lies below `expected`. -/
def parseBelow (level : Nat) (expected : Option (List String)) (token : String) :
    Except QueryError (List String × Clause) := do
  let filter ← parse token
  let path := segments filter.field
  let mismatch := fun (expected : String) => QueryError.mismatchedPrefix expected filter.field
  match relations? level path, expected with
  | none, none => throw (mismatch (toString level ++ " relation segment(s)"))
  | none, some expected => throw (mismatch (".".intercalate expected))
  | some relations, some expected =>
      if relations = expected then return (expected, .expand path filter.condition level)
      else throw (mismatch (".".intercalate expected))
  | some relations, none => return (relations, .expand path filter.condition level)

/-- The tokens of a group below a common chain of relations, each as a clause of its own. The first
token says which chain it is. -/
def compileBelow (level : Nat) : List String → Except QueryError Clause
  | [] => return []
  | token :: rest => do
      let (relations, clause) ← parseBelow level none token
      let clauses ← rest.mapM fun token => do
        return (← parseBelow level (some relations) token).2
      return (Clause.wrap? relations (.all (clause :: clauses))).getD []

/-- One combined group. -/
def Combined.compile (mode : Mode) (group : Combined) : Except QueryError Clause :=
  if mode = .nested ∧ 0 < group.level then compileBelow group.level group.tokens
  else compileFlat group.tokens

/-- Combined groups, one assigned over the other. -/
def compileCombined (mode : Mode) (groups : List Combined) : Outcome QueryError Clause :=
  groups.foldlM (fun clause group => do clause.merge (← group.compile mode)) ([] : Clause)

/-- Adds the constraint of a simple token. -/
def addSimple (mode : Mode) (clause : Clause) (token : String) : Outcome QueryError Clause := do
  let filter ← parse token
  let path := segments filter.field
  if mode = .nested ∧ 1 < path.length then clause.merge (.expand path filter.condition 0)
  else clause.assign filter.field (.condition filter.condition)

/-- Compiles a list of tokens. -/
def compile (mode : Mode) (tokens : List String) : Outcome QueryError Clause := do
  let groups ← Groups.ofTokens mode tokens.eraseDups
  let clause ← compileCombined mode groups.combined
  groups.simple.foldlM (addSimple mode) clause

end Paging.Filter
