/-!
# Keyed tables

A table is a list of entries in strictly increasing key order. `insert` keeps the order and lets
the last writer win, so that a table built by insertions is determined by the last value written
under each key. Objects, clauses and operator conditions are all tables.

The order is a predicate (`Sorted`) and not part of the type, because tables occur inside the
inductive types that they help to define.

Main statements: what `find?` answers after an `insert`, and that `insert` keeps `Sorted`.
-/

namespace Paging

/-- What the keys' order has to satisfy for tables to be kept in order. -/
class KeyOrder (κ : Type) [LT κ] : Prop where
  irrefl (a : κ) : ¬a < a
  trans {a b c : κ} : a < b → b < c → a < c
  trichotomous (a b : κ) : a < b ∨ a = b ∨ b < a

instance : KeyOrder String where
  irrefl := String.lt_irrefl
  trans := String.lt_trans
  trichotomous a b := by
    by_cases hLt : a < b
    · exact .inl hLt
    · by_cases hGt : b < a
      · exact .inr (.inr hGt)
      · exact .inr (.inl (String.le_antisymm hGt hLt))

/-- Entries with a key each; the operations below keep them in strictly increasing key order. -/
abbrev Table (κ α : Type) := List (κ × α)

namespace Table

variable {κ α : Type}

/-- The keys, in the order of the entries. -/
def keys (table : Table κ α) : List κ := table.map Prod.fst

/-- Keys strictly increase from entry to entry. -/
def Sorted [LT κ] (table : Table κ α) : Prop := table.keys.Pairwise (· < ·)

/-- The value under `key`. -/
def find? [DecidableEq κ] (key : κ) : Table κ α → Option α
  | [] => none
  | (k, value) :: rest => if k = key then some value else find? key rest

/-- Writes `value` under `key`, in place of an earlier value. -/
def insert [LT κ] [DecidableLT κ] [DecidableEq κ] (key : κ) (value : α) : Table κ α → Table κ α
  | [] => [(key, value)]
  | (k, old) :: rest =>
      if key = k then (key, value) :: rest
      else if key < k then (key, value) :: (k, old) :: rest
      else (k, old) :: insert key value rest

/-- Writes entries one after the other over a table. -/
def insertAll [LT κ] [DecidableLT κ] [DecidableEq κ]
    (entries : List (κ × α)) (table : Table κ α) : Table κ α :=
  entries.foldl (fun table entry => insert entry.1 entry.2 table) table

/-- The table that holds the last entry under each key. -/
def ofList [LT κ] [DecidableLT κ] [DecidableEq κ] (entries : List (κ × α)) : Table κ α :=
  insertAll entries []

/-! ## What `find?` answers after an `insert` -/

@[simp]
theorem find?_insert_self [LT κ] [DecidableLT κ] [DecidableEq κ] (key : κ) (value : α)
    (table : Table κ α) : (insert key value table).find? key = some value := by
  induction table with
  | nil => simp [insert, find?]
  | cons entry rest ih =>
      obtain ⟨k, old⟩ := entry
      by_cases hEq : key = k
      · simp [insert, find?, hEq]
      · by_cases hLt : key < k
        · simp [insert, find?, hEq, hLt]
        · simp [insert, find?, hEq, hLt, Ne.symm hEq, ih]

theorem find?_insert_of_ne [LT κ] [DecidableLT κ] [DecidableEq κ] {key other : κ}
    (hNe : other ≠ key) (value : α) (table : Table κ α) :
    (insert key value table).find? other = table.find? other := by
  induction table with
  | nil => simp [insert, find?, Ne.symm hNe]
  | cons entry rest ih =>
      obtain ⟨k, old⟩ := entry
      by_cases hEq : key = k
      · subst hEq
        simp [insert, find?, Ne.symm hNe]
      · by_cases hLt : key < k
        · simp [insert, find?, hEq, hLt, Ne.symm hNe]
        · simp [insert, find?, hEq, hLt, ih]

/-- A key is found exactly when it is one of the table's keys. -/
theorem find?_isSome_iff [DecidableEq κ] {key : κ} {table : Table κ α} :
    (table.find? key).isSome ↔ key ∈ table.keys := by
  induction table with
  | nil => simp [find?, keys]
  | cons entry rest ih =>
      obtain ⟨k, old⟩ := entry
      by_cases hEq : k = key
      · simp [find?, keys, hEq]
      · have hNe : key ≠ k := fun h => hEq h.symm
        simpa [find?, keys, hEq, hNe] using ih

/-! ## Order -/

theorem mem_keys_insert [LT κ] [DecidableLT κ] [DecidableEq κ] {key other : κ} {value : α}
    {table : Table κ α} :
    other ∈ (insert key value table).keys ↔ other = key ∨ other ∈ table.keys := by
  rw [← find?_isSome_iff, ← find?_isSome_iff]
  by_cases hEq : other = key
  · simp [hEq]
  · simp [find?_insert_of_ne hEq, hEq]

theorem Sorted.insert [LT κ] [DecidableLT κ] [DecidableEq κ] [KeyOrder κ] {table : Table κ α}
    (key : κ) (value : α) (hSorted : table.Sorted) : (table.insert key value).Sorted := by
  induction table with
  | nil => simp [Table.insert, Sorted, keys]
  | cons entry rest ih =>
      obtain ⟨k, old⟩ := entry
      have hHead : ∀ other ∈ keys rest, k < other := by
        simpa [Sorted, keys] using (List.pairwise_cons.1 hSorted).1
      have hTail : Sorted rest := (List.pairwise_cons.1 hSorted).2
      by_cases hEq : key = k
      · subst hEq
        simpa [Table.insert, Sorted, keys] using hSorted
      · by_cases hLt : key < k
        · simp only [Table.insert, hEq, hLt, ↓reduceIte]
          refine List.pairwise_cons.2 ⟨fun other hMem => ?_, hSorted⟩
          rcases List.mem_cons.1 hMem with rfl | hMem
          · exact hLt
          · exact KeyOrder.trans hLt (hHead other hMem)
        · simp only [Table.insert, hEq, hLt, ↓reduceIte]
          refine List.pairwise_cons.2 ⟨fun other hMem => ?_, ih hTail⟩
          rcases mem_keys_insert.1 hMem with rfl | hMem
          · rcases KeyOrder.trichotomous k other with h | h | h
            · exact h
            · exact absurd h.symm hEq
            · exact absurd h hLt
          · exact hHead other hMem

theorem Sorted.insertAll [LT κ] [DecidableLT κ] [DecidableEq κ] [KeyOrder κ]
    {table : Table κ α} (entries : List (κ × α)) (hSorted : table.Sorted) :
    (table.insertAll entries).Sorted := by
  induction entries generalizing table with
  | nil => exact hSorted
  | cons entry rest ih => exact ih (hSorted.insert entry.1 entry.2)

theorem sorted_ofList [LT κ] [DecidableLT κ] [DecidableEq κ] [KeyOrder κ]
    (entries : List (κ × α)) : Sorted (ofList entries) :=
  Sorted.insertAll entries List.Pairwise.nil

end Table

end Paging
