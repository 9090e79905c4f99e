import Paging.Text.Pieces

/-!
# Pieces of longer texts

How the pieces of a text, and its cut at the first separator, follow from those of its parts.
-/

namespace Paging.Text

theorem pieces_of_not_mem {sep : Char} {text : List Char} (hNot : sep ∉ text) :
    pieces sep text = [text] := by
  induction text with
  | nil => rfl
  | cons c rest ih =>
      rw [List.mem_cons, not_or] at hNot
      rw [pieces, if_neg (fun h => hNot.1 h.symm), ih hNot.2]

/-- There is one piece more than there are separators. -/
theorem length_pieces (sep : Char) (text : List Char) :
    (pieces sep text).length = text.count sep + 1 := by
  induction text with
  | nil => rfl
  | cons c rest ih =>
      by_cases hEq : c = sep
      · rw [pieces, if_pos hEq, List.length_cons, ih, hEq, List.count_cons_self]
      · rw [pieces, if_neg hEq, List.count_cons_of_ne hEq]
        cases hRest : pieces sep rest with
        | nil => exact absurd hRest (pieces_ne_nil sep rest)
        | cons piece more => rw [← ih, hRest, List.length_cons, List.length_cons]

/-- A separator between two texts keeps their pieces apart. -/
theorem pieces_append (sep : Char) (before after : List Char) :
    pieces sep (before ++ sep :: after) = pieces sep before ++ pieces sep after := by
  induction before with
  | nil => simp [pieces]
  | cons c rest ih =>
      rw [List.cons_append, pieces, pieces, ih]
      by_cases hEq : c = sep
      · rw [if_pos hEq, if_pos hEq, List.cons_append]
      · rw [if_neg hEq, if_neg hEq]
        cases hRest : pieces sep rest with
        | nil => exact absurd hRest (pieces_ne_nil sep rest)
        | cons piece more => rfl

theorem cut_of_not_mem {sep : Char} {text : List Char} (hNot : sep ∉ text) :
    cut sep text = (text, []) := by
  cases hCut : cut? sep text with
  | none => rw [cut, hCut, Option.getD_none]
  | some parts =>
      obtain ⟨before, after⟩ := parts
      have hText : text = before ++ sep :: after := (cut?_eq_some_iff.1 hCut).1
      rw [hText] at hNot
      exact absurd (List.mem_append_right before List.mem_cons_self) hNot

theorem cut_append {sep : Char} {before : List Char} (hNot : sep ∉ before) (after : List Char) :
    cut sep (before ++ sep :: after) = (before, after) := by
  have hCut : cut? sep (before ++ sep :: after) = some (before, after) :=
    cut?_eq_some_iff.2 ⟨rfl, hNot⟩
  rw [cut, hCut, Option.getD_some]

/-- Text behind a text that holds a separator belongs to what follows the first one. -/
theorem cut_append_right {sep : Char} {text : List Char} (hMem : sep ∈ text) (more : List Char) :
    cut sep (text ++ more) = ((cut sep text).1, (cut sep text).2 ++ more) := by
  obtain ⟨before, after, rfl, hNot⟩ := List.eq_append_cons_of_mem hMem
  rw [List.append_assoc, List.cons_append, cut_append hNot, cut_append hNot]

end Paging.Text
