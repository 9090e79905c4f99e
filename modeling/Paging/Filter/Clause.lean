import Paging.Filter.Operator
import Paging.Logged

/-!
# Clauses

A clause is the compiled form of filters: a table from keys to nodes, all of which have to hold. A
node constrains a field by a condition, or the records related by a relation by one clause or by
several. The tree is flattened to the JSON shape that stores expect only at the end.

A clause is a last-writer-wins table. An assignment that replaces an earlier node drops a
constraint, so it is noted.
-/

namespace Paging.Filter

/-- What has to hold of a field. -/
inductive Condition where
  /-- The field equals a value. -/
  | equals (value : Json)
  /-- Each of the comparisons holds. -/
  | operators (entries : Table Operator Json)

namespace Condition

/-- The condition of a single comparison. -/
def ofOperator (op : Operator) (value : Json) : Condition :=
  if op = .eq then .equals value else .operators [(op, value)]

/-- The comparisons of a condition. -/
def comparisons : Condition → Table Operator Json
  | .equals value => [(.eq, value)]
  | .operators entries => entries

/-- The comparisons of both conditions; with one operator in both, that of the second counts. -/
def merge (first second : Condition) : Condition :=
  .operators (first.comparisons.insertAll second.comparisons)

/-- The value itself, or an object with a key for each operator. -/
def toJson : Condition → Json
  | .equals value => value
  | .operators entries => .obj (entries.map fun (op, value) => (op.key, value))

end Condition

/-- What stands under one key of a clause. -/
inductive Node where
  /-- A condition on the field of that name. -/
  | condition (condition : Condition)
  /-- A clause on the records under the relation of that name. -/
  | related (clause : List (String × Node))
  /-- Several clauses on the records under the relation of that name. -/
  | relatedAll (clauses : List (List (String × Node)))

/-- Nodes by their keys. -/
abbrev Clause := Table String Node

/-- What is asked of related records: one clause, or all of several. -/
inductive Body where
  | clause (clause : Clause)
  | all (clauses : List Clause)

/-- The node that asks a body of related records. -/
def Body.node : Body → Node
  | .clause entries => .related entries
  | .all clauses => .relatedAll clauses

mutual

/-- A condition as its own JSON; a relation as an object with the key `is`, below which several
clauses stand under `AND`. -/
def Node.toJson : Node → Json
  | .condition condition => condition.toJson
  | .related clause => .obj [("is", .obj (entriesToJson clause))]
  | .relatedAll clauses => .obj [("is", .obj [("AND", .arr (clausesToJson clauses))])]

/-- The entries of the object that stands for a clause. -/
def entriesToJson : List (String × Node) → List (String × Json)
  | [] => []
  | (key, node) :: rest => (key, node.toJson) :: entriesToJson rest

/-- The objects that stand for several clauses. -/
def clausesToJson : List (List (String × Node)) → List Json
  | [] => []
  | clause :: rest => .obj (entriesToJson clause) :: clausesToJson rest

end

theorem entriesToJson_eq_map (clause : Clause) :
    entriesToJson clause = clause.map fun entry => (entry.1, entry.2.toJson) := by
  induction clause with
  | nil => rfl
  | cons entry rest ih => rw [entriesToJson, ih, List.map_cons]

namespace Clause

/-- A clause as an object. -/
def toJson (clause : Clause) : Json := .obj (entriesToJson clause)

/-- The clause with one entry. -/
def single (key : String) (node : Node) : Clause := [(key, node)]

/-- Assigns a node to a key, and notes it if the key had one. -/
def assign (clause : Clause) (key : String) (node : Node) : Logged Clause := do
  if (clause.find? key).isSome then Logged.note (.keyReplaced key)
  return clause.insert key node

/-- Assigns the entries of another clause one after the other. -/
def merge (clause other : Clause) : Logged Clause :=
  other.foldlM (fun clause entry => clause.assign entry.1 entry.2) clause

end Clause

/-! ## Paths through relations -/

/-- The clause that follows all segments but the last as relations and puts the leaf under the
last one. It is empty if there are no segments. -/
def Clause.ofPath : List String → Condition → Clause
  | [], _ => []
  | [field], leaf => .single field (.condition leaf)
  | relation :: rest, leaf => .single relation (.related (ofPath rest leaf))

/-- The clause of the segments after the first `skip` ones. -/
def Clause.expand (segments : List String) (leaf : Condition) (skip : Nat) : Clause :=
  .ofPath (segments.drop skip) leaf

/-- The clause that asks a body of the records at the end of a chain of relations. -/
def Clause.wrap? : List String → Body → Option Clause
  | [], _ => none
  | [relation], body => some (.single relation body.node)
  | relation :: rest, body =>
      (wrap? rest body).map fun clause => .single relation (.related clause)

end Paging.Filter
