import Paging.Proofs.UnitClauses

/-!
# Histories of clauses

A clause is built by a run of writes: a node is assigned to a key, or a clause that was itself built
by a run is merged, which assigns its entries in the order of their keys (`Write.assignments`). What
was assigned in the course of the run determines the clause: it holds the last node that was
assigned to each key, keys in order (`settled`). One write keeps this up (`perform_settled`), so
that a whole run does (`performAll_settled`).

The notes of a run are accounted for in the same way. A key is noted whenever it is assigned again,
and before a clause is merged come the notes of building it (`replacedBy`).
-/

namespace Paging.Filter

open Paging.Keyed

/-! ## Writes -/

/-- A write to a clause. -/
inductive Write where
  /-- A node is assigned to a key. -/
  | assign (key : String) (node : Node)
  /-- A clause is merged that is built by the given writes. -/
  | merge (writes : List Write)

mutual

/-- Performs a write. A clause that is to be merged is built first. -/
def Write.perform (clause : Clause) : Write → Logged Clause
  | .assign key node => clause.assign key node
  | .merge writes => do clause.merge (← performAll [] writes)

/-- Performs writes one after the other. -/
def performAll (clause : Clause) : List Write → Logged Clause
  | [] => return clause
  | write :: rest => do performAll (← write.perform clause) rest

end

/-! ## What is assigned -/

/-- The last entry under each key, in the order of the keys. -/
def settled (entries : List (String × Node)) : List (String × Node) :=
  (lastsBy Prod.fst entries).mergeSort fun first second => first.1 ≤ second.1

mutual

/-- What a write assigns, in order. -/
def Write.assignments : Write → List (String × Node)
  | .assign key node => [(key, node)]
  | .merge writes => settled (assignmentsOf writes)

/-- What writes assign one after the other. -/
def assignmentsOf : List Write → List (String × Node)
  | [] => []
  | write :: rest => write.assignments ++ assignmentsOf rest

end

mutual

/-- The keys that are assigned again while a clause is built that is to be merged. -/
def Write.rebuilt : Write → List String
  | .assign _ _ => []
  | .merge writes => replacedBy [] writes

/-- The keys that are assigned again in the course of writes to a clause that has some keys. -/
def replacedBy (present : List String) : List Write → List String
  | [] => []
  | write :: rest =>
      let keys := write.assignments.map Prod.fst
      write.rebuilt ++ repeats present keys ++ replacedBy (present ++ keys) rest

end

/-- The entries that are left are in the order of their keys. -/
theorem sorted_settled (entries : List (String × Node)) : Table.Sorted (settled entries) := by
  have hOrdered : (settled entries).Pairwise fun first second => first.1 ≤ second.1 := by
    have hTrans (first second third : String × Node) (hFirst : decide (first.1 ≤ second.1))
        (hSecond : decide (second.1 ≤ third.1)) : decide (first.1 ≤ third.1) :=
      decide_eq_true (String.le_trans (of_decide_eq_true hFirst) (of_decide_eq_true hSecond))
    have hTotal (first second : String × Node) :
        decide (first.1 ≤ second.1) || decide (second.1 ≤ first.1) := by
      simpa using String.le_total first.1 second.1
    exact (List.pairwise_mergeSort hTrans hTotal _).imp fun h => of_decide_eq_true h
  have hDistinct : (settled entries).Pairwise fun first second => first.1 ≠ second.1 := by
    refine List.pairwise_map.1 (((List.mergeSort_perm _ _).map Prod.fst).nodup_iff.2 ?_)
    exact nodup_keys_lastsBy Prod.fst entries
  refine List.pairwise_map.2 ((hOrdered.and hDistinct).imp fun h => ?_)
  obtain ⟨hLe, hNe⟩ := h
  exact (KeyOrder.trichotomous _ _).resolve_right fun h => h.elim hNe hLe

/-- They are what a table is left with when the entries are written one after the other. -/
theorem settled_eq_ofList (entries : List (String × Node)) :
    settled entries = Table.ofList entries := by
  refine (sorted_settled entries).eq_of_mem_iff (Table.sorted_ofList entries) fun entry => ?_
  rw [Table.mem_ofList_iff, settled, List.mem_mergeSort]

theorem settled_nil : settled [] = [] := List.mergeSort_nil

theorem mem_keys_settled {entries : List (String × Node)} {key : String} :
    key ∈ Table.keys (settled entries) ↔ key ∈ entries.map Prod.fst := by
  rw [settled_eq_ofList, Table.ofList, Table.mem_keys_insertAll]
  simp [Table.keys]

/-- Merging more entries leaves those of all, and notes the keys that were there before. -/
theorem merge_settled (entries more : List (String × Node)) :
    Clause.merge (settled entries) more =
      ⟨(repeats (entries.map Prod.fst) (more.map Prod.fst)).map .keyReplaced,
        settled (entries ++ more)⟩ := by
  have hValue : (Clause.merge (settled entries) more).value = settled (entries ++ more) := by
    rw [Clause.value_merge, settled_eq_ofList, settled_eq_ofList, Table.ofList, Table.ofList,
      Table.insertAll, Table.insertAll, Table.insertAll, List.foldl_append]
  rw [← hValue, ← repeats_congr fun key => mem_keys_settled, ← Clause.log_merge]

/-! ## Performing writes -/

/-- Two steps, of which it is known what they note and what they give. -/
theorem bind_eq_of_eq {α β : Type} {first : Logged α} {next : α → Logged β} {log more : List Event}
    {value : α} {result : β} (hFirst : first = ⟨log, value⟩) (hNext : next value = ⟨more, result⟩) :
    first >>= next = ⟨log ++ more, result⟩ := by
  subst hFirst
  show (⟨log ++ (next value).log, (next value).value⟩ : Logged β) = _
  rw [hNext]

mutual

/-- A write takes a clause with its history to the history that goes on with the write. -/
theorem perform_settled (entries : List (String × Node)) (write : Write) :
    write.perform (settled entries) =
      ⟨(write.rebuilt ++ repeats (entries.map Prod.fst) (write.assignments.map Prod.fst)).map
        .keyReplaced, settled (entries ++ write.assignments)⟩ :=
  match write with
  | .assign key node => by
      rw [Write.perform, ← Clause.merge_single, Clause.single, merge_settled, Write.rebuilt,
        Write.assignments, List.nil_append]
  | .merge writes => by
      have hBuilt : performAll [] writes =
          ⟨(replacedBy [] writes).map .keyReplaced, settled (assignmentsOf writes)⟩ := by
        have hRun := performAll_settled [] writes
        rwa [settled_nil] at hRun
      rw [Write.perform, bind_eq_of_eq hBuilt (merge_settled entries _), Write.rebuilt,
        Write.assignments, List.map_append]

/-- So does a run of writes. -/
theorem performAll_settled (entries : List (String × Node)) (writes : List Write) :
    performAll (settled entries) writes =
      ⟨(replacedBy (entries.map Prod.fst) writes).map .keyReplaced,
        settled (entries ++ assignmentsOf writes)⟩ :=
  match writes with
  | [] => by
      rw [performAll, replacedBy, assignmentsOf, List.append_nil]
      rfl
  | write :: rest => by
      rw [performAll, bind_eq_of_eq (perform_settled entries write) (performAll_settled _ rest),
        ← List.map_append, replacedBy, assignmentsOf, List.map_append (f := Prod.fst),
        List.append_assoc entries]

end

/-! ## Last writers -/

/-- A clause in which the last writer under each key has won. -/
structure Clause.HoldsLast (clause : Clause) (assigned : List (String × Node)) : Prop where
  /-- Under a key the last node is found that was assigned to it, and none if none was. -/
  found : ∀ key, clause.find? key = (assigned.reverse.find? (·.1 = key)).map Prod.snd
  /-- The entries are in the order of their keys, -/
  sorted : clause.Sorted
  /-- the keys are those that were assigned, -/
  mem_keys_iff : ∀ key, key ∈ clause.keys ↔ key ∈ assigned.map Prod.fst
  /-- and there are as many as different ones were assigned. -/
  length_eq : clause.length = (assigned.map Prod.fst).eraseDups.length
  /-- The object of the clause has its entries, in the same order. -/
  toJson_eq : clause.toJson = .obj (clause.map fun entry => (entry.1, entry.2.toJson))

theorem holdsLast_settled (assigned : List (String × Node)) :
    Clause.HoldsLast (settled assigned) assigned := by
  have hKeys (key : String) : key ∈ Table.keys (settled assigned) ↔ key ∈ assigned.map Prod.fst :=
    mem_keys_settled
  refine ⟨?_, sorted_settled assigned, hKeys, ?_, ?_⟩
  · intro key
    rw [settled_eq_ofList, Table.ofList, Table.find?_insertAll_eq]
    exact Option.or_none
  · have hPerm : (Table.keys (settled assigned)).Perm (assigned.map Prod.fst).eraseDups := by
      refine (List.perm_ext_iff_of_nodup (sorted_settled assigned).nodup_keys
        (nodup_eraseDups _)).2 fun key => ?_
      rw [hKeys, List.mem_eraseDups]
    rw [← hPerm.length_eq, Table.keys, List.length_map]
  · rw [Clause.toJson, entriesToJson_eq_map]

/-- **The last writer under each key wins.** Whatever is assigned and merged in the course of a run,
the clause holds the last node that was assigned to each key, and a note is made of each key that
is assigned again, in order. What merging the clause assigns are its entries. -/
theorem performAll_holds_last (writes : List Write) :
    ∃ clause, performAll [] writes = ⟨(replacedBy [] writes).map .keyReplaced, clause⟩ ∧
      clause.HoldsLast (assignmentsOf writes) ∧ clause = (Write.merge writes).assignments := by
  have hRun := performAll_settled [] writes
  rw [settled_nil] at hRun
  refine ⟨settled (assignmentsOf writes), hRun, holdsLast_settled _, ?_⟩
  rw [Write.assignments]

/-- A merged clause is built with a repetition, and then replaces what was assigned before. -/
example (node other : Node) :
    performAll [] [.assign "a" node, .merge [.assign "b" node, .assign "a" other, .assign "b" other],
        .assign "c" node] =
      ⟨[.keyReplaced "b", .keyReplaced "a"], [("a", other), ("b", other), ("c", node)]⟩ := by
  cbv

end Paging.Filter
