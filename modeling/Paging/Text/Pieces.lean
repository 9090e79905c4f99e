/-!
# Cutting text at a character

`pieces` cuts at every occurrence of a character and `cut?` at the first one. Both are inverse to
writing the pieces with the character between them, which is what the lemmas below say.
-/

namespace Paging.Text

/-- The pieces between the occurrences of `sep`; there is always at least one. -/
def pieces (sep : Char) : List Char → List (List Char)
  | [] => [[]]
  | c :: rest =>
      if c = sep then [] :: pieces sep rest
      else match pieces sep rest with
        | [] => [[c]]
        | piece :: more => (c :: piece) :: more

/-- The text before and after the first `sep`, if there is one. -/
def cut? (sep : Char) : List Char → Option (List Char × List Char)
  | [] => none
  | c :: rest =>
      if c = sep then some ([], rest)
      else (cut? sep rest).map fun (before, after) => (c :: before, after)

/-- The text before the first `sep`, and the text after it (empty if there is none). -/
def cut (sep : Char) (text : List Char) : List Char × List Char :=
  (cut? sep text).getD (text, [])

theorem pieces_ne_nil (sep : Char) (text : List Char) : pieces sep text ≠ [] := by
  cases text with
  | nil => simp [pieces]
  | cons c rest =>
      simp only [pieces]
      split
      · simp
      · split <;> simp

/-- Nothing but the separators is lost. -/
theorem intercalate_pieces (sep : Char) (text : List Char) :
    [sep].intercalate (pieces sep text) = text := by
  induction text with
  | nil => simp [pieces, List.intercalate]
  | cons c rest ih =>
      simp only [pieces]
      split
      · rename_i hEq
        subst hEq
        cases hp : pieces c rest with
        | nil => exact absurd hp (pieces_ne_nil _ _)
        | cons piece more => simpa [List.intercalate, hp] using ih
      · cases hp : pieces sep rest with
        | nil => exact absurd hp (pieces_ne_nil _ _)
        | cons piece more =>
            cases more <;> simpa [List.intercalate, hp] using ih

/-- A cut is at an occurrence of the separator, and at the first one. -/
theorem cut?_eq_some_iff {sep : Char} {text before after : List Char} :
    cut? sep text = some (before, after) ↔ text = before ++ sep :: after ∧ sep ∉ before := by
  induction text generalizing before after with
  | nil => simp [cut?]
  | cons c rest ih =>
      by_cases hEq : c = sep
      · subst hEq
        cases before with
        | nil => simp [cut?]
        | cons b bs =>
            simp only [cut?, ↓reduceIte, Option.some.injEq, Prod.mk.injEq, List.cons_append,
              List.cons.injEq, List.mem_cons, not_or]
            constructor
            · rintro ⟨h, -⟩; cases h
            · rintro ⟨⟨h, -⟩, h', -⟩; exact absurd h h'
      · cases before with
        | nil =>
            simp only [cut?, hEq, ↓reduceIte, Option.map_eq_some_iff, Prod.mk.injEq,
              List.nil_append, List.cons.injEq, false_and, iff_false, not_exists, not_and]
            rintro ⟨b, a⟩ - h
            cases h
        | cons b bs =>
            simp only [cut?, hEq, ↓reduceIte, Option.map_eq_some_iff, Prod.mk.injEq,
              List.cons_append, List.cons.injEq, List.mem_cons, not_or]
            constructor
            · rintro ⟨⟨x, y⟩, h, ⟨rfl, rfl⟩, rfl⟩
              have := ih.1 h
              exact ⟨⟨rfl, this.1⟩, fun h' => hEq h'.symm, this.2⟩
            · rintro ⟨⟨rfl, h⟩, -, h'⟩
              exact ⟨(bs, after), ih.2 ⟨h, h'⟩, ⟨rfl, rfl⟩, rfl⟩

end Paging.Text
