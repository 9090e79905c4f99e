import Paging.Filter.Compile
import Paging.Proofs.Keyed
import Paging.Sort

/-!
# Repeated tokens

A list of tokens counts for what is left of it when repeated tokens are dropped. `firsts` is the
walk that drops them: it remembers what it has met, and keeps an item where it meets it for the
first time. An item that was met is not kept again, so that further copies of it change nothing,
wherever they are put in (`firsts_of_addsCopies`). And since `eraseDups` is this walk
(`eraseDups_eq_firsts`), copies change nothing of what tokens are compiled to, or read as
(`compile_ignores_copies`).
-/

namespace Paging.Keyed

variable {α : Type} [DecidableEq α]

/-! ## Items met for the first time -/

/-- The items that are met for the first time, where some have been met before. -/
def firsts (met : List α) : List α → List α
  | [] => []
  | item :: rest => if item ∈ met then firsts met rest else item :: firsts (item :: met) rest

theorem firsts_of_mem {met : List α} {item : α} (hMet : item ∈ met) (rest : List α) :
    firsts met (item :: rest) = firsts met rest := by
  rw [firsts, if_pos hMet]

theorem firsts_of_not_mem {met : List α} {item : α} (hNew : item ∉ met) (rest : List α) :
    firsts met (item :: rest) = item :: firsts (item :: met) rest := by
  rw [firsts, if_neg hNew]

theorem firsts_eq_eraseDups (met items : List α) :
    firsts met items = (items.removeAll met).eraseDups := by
  induction items generalizing met with
  | nil => rfl
  | cons item rest ih =>
      by_cases hMet : item ∈ met
      · rw [firsts_of_mem hMet, ih]
        simp [List.removeAll, hMet]
      · have hKept : (item :: rest).removeAll met = item :: rest.removeAll met := by
          simp [List.removeAll, hMet]
        -- `eraseDups` drops the further copies of this item, the walk has it among what it met.
        have hOthers : rest.removeAll (item :: met) =
            (rest.removeAll met).filter fun other => !other == item := by
          rw [List.removeAll, List.removeAll, List.filter_filter]
          refine List.filter_congr fun other _ => ?_
          by_cases hEq : other = item <;> simp [hEq]
        rw [firsts_of_not_mem hMet, ih, hKept, List.eraseDups_cons, hOthers]

/-- What is left without repetitions is what is met for the first time. -/
theorem eraseDups_eq_firsts (items : List α) : items.eraseDups = firsts [] items := by
  rw [firsts_eq_eraseDups]
  simp [List.removeAll]

theorem firsts_sublist (met items : List α) : (firsts met items).Sublist items := by
  induction items generalizing met with
  | nil => exact List.Sublist.slnil
  | cons item rest ih =>
      by_cases hMet : item ∈ met
      · rw [firsts_of_mem hMet]
        exact (ih met).cons item
      · rw [firsts_of_not_mem hMet]
        exact (ih (item :: met)).cons_cons item

/-- Where nothing is repeated and nothing was met before, every item is kept. -/
theorem firsts_eq_self {met items : List α} (hNodup : items.Nodup)
    (hNew : ∀ item ∈ items, item ∉ met) : firsts met items = items := by
  induction items generalizing met with
  | nil => rfl
  | cons item rest ih =>
      obtain ⟨hItem, hRest⟩ := List.nodup_cons.1 hNodup
      rw [firsts_of_not_mem (hNew item List.mem_cons_self), ih hRest]
      intro other hOther hMet
      rcases List.mem_cons.1 hMet with rfl | hMet
      · exact hItem hOther
      · exact hNew other (List.mem_cons_of_mem item hOther) hMet

/-- What is left of a list when repetitions are dropped: the items of the list, each of them once,
and in the order of their first places. -/
structure KeepsFirsts (items kept : List α) : Prop where
  nodup : kept.Nodup
  sublist : kept.Sublist items
  mem_iff : ∀ item, item ∈ kept ↔ item ∈ items
  ordered : kept.Pairwise fun first second => items.idxOf first < items.idxOf second

theorem keepsFirsts_eraseDups (items : List α) : KeepsFirsts items items.eraseDups where
  nodup := nodup_eraseDups items
  sublist := by
    rw [eraseDups_eq_firsts]
    exact firsts_sublist [] items
  mem_iff _ := List.mem_eraseDups
  ordered := pairwise_idxOf_eraseDups items

theorem eraseDups_eraseDups (items : List α) : items.eraseDups.eraseDups = items.eraseDups := by
  rw [eraseDups_eq_firsts items.eraseDups]
  exact firsts_eq_self (nodup_eraseDups items) fun _ _ => List.not_mem_nil

/-! ## Further copies -/

/-- The second list is the first one with copies of an item put in, at any places. -/
inductive AddsCopies (item : α) : List α → List α → Prop where
  | nil : AddsCopies item [] []
  | keep {list longer : List α} (other : α) (hRest : AddsCopies item list longer) :
      AddsCopies item (other :: list) (other :: longer)
  | copy {list longer : List α} (hRest : AddsCopies item list longer) :
      AddsCopies item list (item :: longer)

variable {item : α} {list longer : List α}

/-- Copies of an item that was met are passed over. -/
theorem firsts_of_addsCopies {met : List α} (hMet : item ∈ met)
    (hCopies : AddsCopies item list longer) : firsts met longer = firsts met list := by
  induction hCopies generalizing met with
  | nil => rfl
  | keep other _ ih =>
      by_cases hOther : other ∈ met
      · rw [firsts_of_mem hOther, firsts_of_mem hOther, ih hMet]
      · have hLater : item ∈ other :: met := List.mem_cons_of_mem other hMet
        rw [firsts_of_not_mem hOther, firsts_of_not_mem hOther, ih hLater]
  | copy _ ih => rw [firsts_of_mem hMet, ih hMet]

/-- So are copies of an item behind one of its places. -/
theorem firsts_append_cons (hCopies : AddsCopies item list longer) (met before : List α) :
    firsts met (before ++ item :: longer) = firsts met (before ++ item :: list) := by
  induction before generalizing met with
  | nil =>
      rw [List.nil_append, List.nil_append]
      by_cases hMet : item ∈ met
      · rw [firsts_of_mem hMet, firsts_of_mem hMet, firsts_of_addsCopies hMet hCopies]
      · rw [firsts_of_not_mem hMet, firsts_of_not_mem hMet,
          firsts_of_addsCopies List.mem_cons_self hCopies]
  | cons first rest ih => rw [List.cons_append, List.cons_append, firsts, firsts, ih, ih]

theorem eraseDups_append_cons (hCopies : AddsCopies item list longer) (before : List α) :
    (before ++ item :: longer).eraseDups = (before ++ item :: list).eraseDups := by
  rw [eraseDups_eq_firsts, eraseDups_eq_firsts, firsts_append_cons hCopies]

end Paging.Keyed

namespace Paging.Filter

open Paging.Keyed

/-- **Repeated tokens do not matter.** Further copies of a token, anywhere behind one of its places,
change neither what a list compiles to, be it a clause or an error, nor what is noted; and they do
not change what sort tokens are read as. For what counts of a list are its tokens, each of them once
and at its first place, and dropping repetitions again drops nothing. -/
theorem compile_ignores_copies {token : String} {after longer : List String}
    (hCopies : AddsCopies token after longer) (before : List String) :
    (∀ mode, (compile mode (before ++ token :: longer)).run =
      (compile mode (before ++ token :: after)).run) ∧
    Sort.parseAll (before ++ token :: longer) = Sort.parseAll (before ++ token :: after) ∧
    ∀ tokens : List String, KeepsFirsts tokens tokens.eraseDups ∧
      tokens.eraseDups.eraseDups = tokens.eraseDups := by
  have hSame := eraseDups_append_cons hCopies before
  refine ⟨?_, ?_, fun tokens => ⟨keepsFirsts_eraseDups tokens, eraseDups_eraseDups tokens⟩⟩
  · intro mode
    rw [compile, compile, hSame]
  · rw [Sort.parseAll, Sort.parseAll, hSame]

/-- Copies of a token that is alone make no group of it, and of two malformed tokens the first one
stays the first. -/
theorem compile_ignores_copies_active :
    (compile .nested ["user.id==1", "active==true", "active==true", "user.id<<9",
        "active==true"]).run =
      (compile .nested ["user.id==1", "active==true", "user.id<<9"]).run ∧
    (compile .flat ["id==1", "x", "y", "x"]).run = (compile .flat ["id==1", "x", "y"]).run ∧
    Sort.parseAll ["id=asc", "id=desc", "id=asc"] = Sort.parseAll ["id=asc", "id=desc"] := by
  have hActive : AddsCopies "active==true" ["user.id<<9"]
      ["active==true", "user.id<<9", "active==true"] := .copy (.keep _ (.copy .nil))
  have hMalformed : AddsCopies "x" ["y"] ["y", "x"] := .keep _ (.copy .nil)
  have hSort : AddsCopies "id=asc" ["id=desc"] ["id=desc", "id=asc"] := .keep _ (.copy .nil)
  exact ⟨(compile_ignores_copies hActive ["user.id==1"]).1 .nested,
    (compile_ignores_copies hMalformed ["id==1"]).1 .flat, (compile_ignores_copies hSort []).2.1⟩

end Paging.Filter
