import Paging.Proofs.Keyed
import Paging.Table

/-!
# What a table holds

A table in order holds one entry at most under each key, so that writing an entry replaces just the
entry with its key. Over a whole run of writes the last entry under each key is left
(`mem_ofList_iff`): whatever its order, a table filled by insertions is a last-writer-wins map. The
entries determine a table in order, so that entries with different keys may be written in any order
(`ofList_eq_of_perm`).
-/

namespace Paging.Table

open Paging.Keyed

/-! ## Whatever the order -/

section Unordered

variable {κ α : Type} [LT κ] [DecidableLT κ] [DecidableEq κ]

theorem mem_or_mem_of_mem_insert {key : κ} {value : α} {table : Table κ α} {entry : κ × α}
    (hMem : entry ∈ table.insert key value) : entry = (key, value) ∨ entry ∈ table := by
  induction table with
  | nil => exact .inl (List.mem_singleton.1 hMem)
  | cons first rest ih =>
      unfold Table.insert at hMem
      split at hMem
      · exact (List.mem_cons.1 hMem).imp_right (List.mem_cons_of_mem first)
      · split at hMem
        · exact List.mem_cons.1 hMem
        · rcases List.mem_cons.1 hMem with rfl | hRest
          · exact .inr List.mem_cons_self
          · exact (ih hRest).imp_right (List.mem_cons_of_mem _)

/-- Nothing else is there after a run of writes than what was there or was written. -/
theorem mem_or_mem_of_mem_insertAll {entries : List (κ × α)} {table : Table κ α} {entry : κ × α}
    (hMem : entry ∈ table.insertAll entries) : entry ∈ entries ∨ entry ∈ table := by
  induction entries generalizing table with
  | nil => exact .inr hMem
  | cons first rest ih =>
      have hMemRest : entry ∈ (table.insert first.1 first.2).insertAll rest := hMem
      rcases ih hMemRest with hRest | hTable
      · exact .inl (List.mem_cons_of_mem first hRest)
      · rcases mem_or_mem_of_mem_insert hTable with rfl | hOld
        · exact .inl List.mem_cons_self
        · exact .inr hOld

theorem mem_keys_insertAll {entries : List (κ × α)} {table : Table κ α} {key : κ} :
    key ∈ (table.insertAll entries).keys ↔ key ∈ entries.map Prod.fst ∨ key ∈ table.keys := by
  induction entries generalizing table with
  | nil => simp [insertAll]
  | cons first rest ih =>
      have hStep : table.insertAll (first :: rest) =
          (table.insert first.1 first.2).insertAll rest := rfl
      rw [hStep, ih, mem_keys_insert, List.map_cons, List.mem_cons]
      tauto

theorem mem_insert_self (key : κ) (value : α) (table : Table κ α) :
    (key, value) ∈ table.insert key value := by
  induction table with
  | nil => exact List.mem_cons_self
  | cons first rest ih =>
      unfold Table.insert
      split
      · exact List.mem_cons_self
      · split
        · exact List.mem_cons_self
        · exact List.mem_cons_of_mem _ ih

/-- Entries under other keys stay. -/
theorem mem_insert_of_mem {key : κ} {value : α} {table : Table κ α} {entry : κ × α}
    (hMem : entry ∈ table) (hNe : entry.1 ≠ key) : entry ∈ table.insert key value := by
  induction table with
  | nil => cases hMem
  | cons first rest ih =>
      unfold Table.insert
      split
      case isTrue hEq =>
        rcases List.mem_cons.1 hMem with rfl | hRest
        · exact absurd hEq.symm hNe
        · exact List.mem_cons_of_mem _ hRest
      case isFalse =>
        split
        · exact List.mem_cons_of_mem _ hMem
        · rcases List.mem_cons.1 hMem with rfl | hRest
          · exact List.mem_cons_self
          · exact List.mem_cons_of_mem _ (ih hRest)

theorem mem_insertAll_of_mem {entries : List (κ × α)} {table : Table κ α} {entry : κ × α}
    (hMem : entry ∈ table) (hKeys : entry.1 ∉ entries.map Prod.fst) :
    entry ∈ table.insertAll entries := by
  induction entries generalizing table with
  | nil => exact hMem
  | cons first rest ih =>
      rw [List.map_cons, List.mem_cons, not_or] at hKeys
      exact ih (mem_insert_of_mem hMem hKeys.1) hKeys.2

/-- After a run of writes the last value that was written under a key is found, and what was there
before if none was. -/
theorem find?_insertAll_eq (entries : List (κ × α)) (table : Table κ α) (key : κ) :
    (table.insertAll entries).find? key =
      ((entries.reverse.find? (·.1 = key)).map Prod.snd).or (table.find? key) := by
  induction entries generalizing table with
  | nil => rfl
  | cons first rest ih =>
      have hStep : table.insertAll (first :: rest) =
          (table.insert first.1 first.2).insertAll rest := rfl
      rw [hStep, ih, List.reverse_cons, List.find?_append]
      cases rest.reverse.find? (·.1 = key) with
      | some last => rfl
      | none =>
          by_cases hKey : first.1 = key
          · subst hKey
            simp
          · simp [hKey, find?_insert_of_ne (Ne.symm hKey)]

/-- What is written is there in the end if its key is written once. -/
theorem mem_insertAll_of_nodup {entries : List (κ × α)} {table : Table κ α} {entry : κ × α}
    (hNodup : (entries.map Prod.fst).Nodup) (hMem : entry ∈ entries) :
    entry ∈ table.insertAll entries := by
  induction entries generalizing table with
  | nil => cases hMem
  | cons first rest ih =>
      rw [List.map_cons, List.nodup_cons] at hNodup
      rcases List.mem_cons.1 hMem with rfl | hRest
      · show entry ∈ (table.insert entry.1 entry.2).insertAll rest
        exact mem_insertAll_of_mem (mem_insert_self entry.1 entry.2 table) hNodup.1
      · exact ih hNodup.2 hRest

end Unordered

/-! ## In order -/

variable {κ α : Type} [LT κ] [KeyOrder κ]

/-- The keys behind the first entry of a table in order differ from its key. -/
private theorem ne_of_mem_rest {first entry : κ × α} {rest : Table κ α}
    (hSorted : Sorted (first :: rest)) (hMem : entry ∈ rest) : entry.1 ≠ first.1 := by
  intro hEq
  have hLt : first.1 < entry.1 :=
    (List.pairwise_cons.1 hSorted).1 entry.1 (List.mem_map_of_mem hMem)
  rw [hEq] at hLt
  exact KeyOrder.irrefl first.1 hLt

/-- A table in order has each key once. -/
theorem Sorted.nodup_keys {table : Table κ α} (hSorted : table.Sorted) : table.keys.Nodup := by
  refine List.Pairwise.imp ?_ hSorted
  intro first second hLt hEq
  rw [hEq] at hLt
  exact KeyOrder.irrefl second hLt

/-- Tables in order that hold the same entries are equal. -/
theorem Sorted.eq_of_mem_iff {first second : Table κ α} (hFirst : first.Sorted)
    (hSecond : second.Sorted) (hSame : ∀ entry, entry ∈ first ↔ entry ∈ second) :
    first = second := by
  have hPerm : first.Perm second :=
    (List.perm_ext_iff_of_nodup hFirst.nodup_keys.of_map hSecond.nodup_keys.of_map).2 hSame
  refine hPerm.eq_of_pairwise (fun entry other _ _ hLess hGreater => ?_)
    (List.pairwise_map.1 hFirst) (List.pairwise_map.1 hSecond)
  exact absurd (KeyOrder.trans hLess hGreater) (KeyOrder.irrefl entry.1)

variable [DecidableLT κ] [DecidableEq κ]

/-- Writing replaces the entry with the same key and keeps all others. -/
theorem mem_insert_iff {key : κ} {value : α} {table : Table κ α} (hSorted : table.Sorted)
    {entry : κ × α} :
    entry ∈ table.insert key value ↔
      entry = (key, value) ∨ (entry ∈ table ∧ entry.1 ≠ key) := by
  induction table with
  | nil => simp [Table.insert]
  | cons first rest ih =>
      obtain ⟨k, old⟩ := first
      have hRest : ∀ other ∈ rest, other.1 ≠ k := fun other hMem => ne_of_mem_rest hSorted hMem
      have hTail : Sorted rest := (List.pairwise_cons.1 hSorted).2
      by_cases hEq : key = k
      · subst hEq
        simp only [Table.insert, ↓reduceIte, List.mem_cons]
        constructor
        · intro h
          rcases h with h | hMem
          · exact .inl h
          · exact .inr ⟨.inr hMem, hRest entry hMem⟩
        · intro h
          rcases h with h | ⟨rfl | hMem, hNe⟩
          · exact .inl h
          · exact absurd rfl hNe
          · exact .inr hMem
      · by_cases hLt : key < k
        · simp only [Table.insert, hEq, hLt, ↓reduceIte]
          rw [List.mem_cons]
          have hOther : ∀ other ∈ (k, old) :: rest, other.1 ≠ key := by
            intro other hMem hBad
            rcases List.mem_cons.1 hMem with rfl | hMem
            · exact hEq hBad.symm
            · have hLater : k < other.1 :=
                (List.pairwise_cons.1 hSorted).1 other.1 (List.mem_map_of_mem hMem)
              rw [hBad] at hLater
              exact KeyOrder.irrefl k (KeyOrder.trans hLater hLt)
          exact or_congr_right ⟨fun hMem => ⟨hMem, hOther entry hMem⟩, fun h => h.1⟩
        · simp only [Table.insert, hEq, hLt, ↓reduceIte, List.mem_cons]
          rw [ih hTail]
          constructor
          · intro h
            rcases h with rfl | rfl | ⟨hMem, hNe⟩
            · exact .inr ⟨.inl rfl, fun h => hEq h.symm⟩
            · exact .inl rfl
            · exact .inr ⟨.inr hMem, hNe⟩
          · intro h
            rcases h with rfl | ⟨rfl | hMem, hNe⟩
            · exact .inr (.inl rfl)
            · exact .inl rfl
            · exact .inr (.inr ⟨hMem, hNe⟩)

/-- After a run of writes an entry is there if it was the last one written under its key, or if it
was there before and its key was not written. -/
theorem mem_insertAll_iff {entries : List (κ × α)} {table : Table κ α} (hSorted : table.Sorted)
    {entry : κ × α} :
    entry ∈ table.insertAll entries ↔
      entry ∈ lastsBy Prod.fst entries ∨ (entry ∈ table ∧ entry.1 ∉ entries.map Prod.fst) := by
  induction entries generalizing table with
  | nil => simp [insertAll, lastsBy]
  | cons first rest ih =>
      have hStep : table.insertAll (first :: rest) =
          (table.insert first.1 first.2).insertAll rest := rfl
      rw [hStep, ih (hSorted.insert first.1 first.2), mem_insert_iff hSorted, lastsBy]
      by_cases hAgain : first.1 ∈ rest.map Prod.fst
      · rw [if_pos hAgain]
        constructor
        · intro h
          rcases h with hLast | ⟨rfl | ⟨hMem, hNe⟩, hRest⟩
          · exact .inl hLast
          · exact absurd hAgain hRest
          · exact .inr ⟨hMem, by simpa [hNe] using hRest⟩
        · intro h
          rcases h with hLast | ⟨hMem, hKeys⟩
          · exact .inl hLast
          · rw [List.map_cons, List.mem_cons, not_or] at hKeys
            exact .inr ⟨.inr ⟨hMem, hKeys.1⟩, hKeys.2⟩
      · rw [if_neg hAgain, List.mem_cons]
        constructor
        · intro h
          rcases h with hLast | ⟨rfl | ⟨hMem, hNe⟩, hRest⟩
          · exact .inl (.inr hLast)
          · exact .inl (.inl rfl)
          · exact .inr ⟨hMem, by simpa [hNe] using hRest⟩
        · intro h
          rcases h with (rfl | hLast) | ⟨hMem, hKeys⟩
          · exact .inr ⟨.inl rfl, hAgain⟩
          · exact .inl hLast
          · rw [List.map_cons, List.mem_cons, not_or] at hKeys
            exact .inr ⟨.inr ⟨hMem, hKeys.1⟩, hKeys.2⟩

/-- A table made of entries holds the last one under each key. -/
theorem mem_ofList_iff {entries : List (κ × α)} {entry : κ × α} :
    entry ∈ ofList entries ↔ entry ∈ lastsBy Prod.fst entries := by
  have hEmpty : Sorted ([] : Table κ α) := List.Pairwise.nil
  rw [ofList, mem_insertAll_iff hEmpty]
  simp

/-- Entries that differ in their keys may be written in any order. -/
theorem ofList_eq_of_perm {entries others : List (κ × α)} (hPerm : entries.Perm others)
    (hNodup : (entries.map Prod.fst).Nodup) : ofList entries = ofList others := by
  refine (sorted_ofList entries).eq_of_mem_iff (sorted_ofList others) fun entry => ?_
  rw [mem_ofList_iff, mem_ofList_iff, lastsBy_eq_self hNodup,
    lastsBy_eq_self ((hPerm.map Prod.fst).nodup_iff.1 hNodup), hPerm.mem_iff]

end Paging.Table
