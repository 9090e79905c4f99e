import Paging.Link.Basic
import Paging.Proofs.JsonTexts
import Paging.Proofs.Results
import Paging.Request.Reader

/-!
# Lists of strings in texts

A text spells a list of strings (`SpelledBy`): it is a JSON text of the array, or it is no JSON text
of any array of strings, and then the list holds the text alone. Each text spells one list, which is
the one that it is read as (`tokensOfText_eq_iff`); and an array of strings is the value of the text
that it is written as (`Json.parse?_text_strings`). The page and the size are decimal numbers, which
are read back as well (`wordOfText?_wordText`).
-/

namespace Paging

namespace Json

/-! ## Arrays of strings -/

theorem isWhole_strings (texts : List String) : (strings texts).IsWhole := by
  refine areWhole_iff.2 fun item hMem => ?_
  obtain ⟨text, -, rfl⟩ := List.mem_map.1 hMem
  trivial

theorem documentOf_strings (texts : List String) :
    documentOf (strings texts) = .arr (texts.map fun text => .str (some text)) := by
  show Document.arr (documentsOf (texts.map .str)) = _
  rw [documentsOf_eq_map, List.map_map]
  rfl

namespace Document

/-- A document is read as a list of strings exactly if it is that of their array. -/
theorem strings?_eq_some_iff {document : Document} {texts : List String} :
    document.strings? = some texts ↔ document = documentOf (strings texts) := by
  have hString : ∀ (item : Document), ∀ text ∈ texts,
      item.string? = some text ↔ item = .str (some text) := by
    intro item text _
    cases item <;> simp [string?]
  rw [documentOf_strings]
  cases document with
  | arr items => simp [strings?, Results.mapM_eq_some_iff hString]
  | _ => simp [strings?]

theorem itemValues?_eq_mapM (items : List Document) : itemValues? items = items.mapM value? := by
  induction items with
  | nil => rfl
  | cons item items ih => rw [itemValues?, ih, List.mapM_cons]

theorem depth_strings (texts : List String) : (documentOf (strings texts)).depth = 1 := by
  have hItems : depthOfItems (texts.map fun text => .str (some text)) = 0 := by
    induction texts with
    | nil => rfl
    | cons text texts ih => rw [List.map_cons, depthOfItems, ih]; rfl
  rw [documentOf_strings, depth, hItems]

theorem value?_eq_strings_iff {document : Document} {texts : List String} :
    document.value? = some (strings texts) ↔ document = documentOf (strings texts) := by
  have hString : ∀ (item : Document), ∀ value ∈ texts.map Json.str,
      item.value? = some value ↔ item = documentOf value := by
    intro item value hMem
    obtain ⟨text, -, rfl⟩ := List.mem_map.1 hMem
    cases item <;> simp [value?, documentOf]
  cases document with
  | arr items =>
      simp [value?, strings, documentOf, documentsOf_eq_map, itemValues?_eq_mapM,
        Results.mapM_eq_some_iff hString]
  | _ => simp [value?, strings, documentOf]

end Document

/-- A text has the array as its value exactly if it is read as the list of its strings. -/
theorem parse?_eq_strings_iff {text : String} {texts : List String} :
    parse? text = some (strings texts) ↔
      (Document.parse? text.toList).bind Document.strings? = some texts := by
  simp only [parse?, Option.bind_eq_bind, Option.bind_eq_some_iff, Document.strings?_eq_some_iff]
  refine exists_congr fun document => and_congr_right fun _ => ?_
  rw [← Document.value?_eq_strings_iff]
  constructor
  · intro h
    unfold Document.valueWithin? at h
    split at h
    · exact h
    · cases h
  · intro h
    have hDepth : 0 + document.depth ≤ Document.maxDepth := by
      rw [Document.value?_eq_strings_iff.1 h, Document.depth_strings]
      decide
    rw [Document.valueWithin?, if_pos hDepth, h]

/-- An array of strings is the value of its text. -/
theorem parse?_text_strings (texts : List String) :
    parse? (strings texts).text = some (strings texts) := by
  rw [parse?_eq_strings_iff, text, String.toList_ofList,
    Document.parse?_render (isWhole_strings texts), Option.bind_some,
    Document.strings?_eq_some_iff]

end Json

/-! ## Lists that texts spell -/

/-- A text spells a list of strings: it is a JSON text of their array, or of no array of strings
at all, and then the list is the text alone. -/
inductive SpelledBy (text : String) : List String → Prop
  | array {texts : List String} :
      Json.parse? text = some (.strings texts) → SpelledBy text texts
  | alone : (∀ texts, Json.parse? text ≠ some (.strings texts)) → SpelledBy text [text]

/-- **A text is read as the list that it spells.** -/
theorem tokensOfText_eq_iff {text : String} {texts : List String} :
    tokensOfText text = texts ↔ SpelledBy text texts := by
  unfold tokensOfText
  cases hRead : (Json.Document.parse? text.toList).bind Json.Document.strings? with
  | none =>
      have hAlone : ∀ others, Json.parse? text ≠ some (.strings others) := by
        intro others hParse
        rw [Json.parse?_eq_strings_iff, hRead] at hParse
        cases hParse
      constructor
      · rintro rfl
        exact .alone hAlone
      · intro hSpelled
        cases hSpelled with
        | array hParse => exact absurd hParse (hAlone texts)
        | alone _ => rfl
  | some others =>
      have hArray : Json.parse? text = some (.strings others) := Json.parse?_eq_strings_iff.2 hRead
      constructor
      · rintro rfl
        exact .array hArray
      · intro hSpelled
        cases hSpelled with
        | array hParse =>
            rw [Json.parse?_eq_strings_iff, hRead] at hParse
            exact Option.some.inj hParse
        | alone hAlone => exact absurd hArray (hAlone others)

/-! ## Words -/

theorem wordOfText?_ofList {digits : List Char} (hNe : digits ≠ [])
    (hDigit : ∀ c ∈ digits, c.isDigit) (hLt : Numeral.ofDigits digits < UInt64.size) :
    wordOfText? (String.ofList digits) = some (UInt64.ofNat (Numeral.ofDigits digits)) := by
  obtain ⟨c, rest, rfl⟩ := List.exists_cons_of_ne_nil hNe
  have hPlus : c ≠ '+' := by
    intro hEq
    have hBad := hDigit c List.mem_cons_self
    rw [hEq] at hBad
    exact absurd hBad (by decide)
  have hAll : (c :: rest).all Char.isDigit = true := List.all_eq_true.2 hDigit
  rw [wordOfText?, String.toList_ofList]
  split
  · rename_i hText
    exact absurd (List.cons.inj hText).1 hPlus
  · rw [hAll, if_neg (by simp), if_pos hLt]

/-- **A word is read back** from its decimal text. -/
theorem wordOfText?_wordText (n : UInt64) : wordOfText? (LinkQuery.wordText n) = some n := by
  have hDigit : ∀ c ∈ Nat.toDigits 10 n.toNat, c.isDigit :=
    fun c hMem => Numeral.isDigit_of_mem_toDigits hMem
  have hLt : Numeral.ofDigits (Nat.toDigits 10 n.toNat) < UInt64.size := by
    rw [Numeral.ofDigits_toDigits]
    exact n.toNat_lt_size
  rw [LinkQuery.wordText, wordOfText?_ofList Nat.toDigits_ne_nil hDigit hLt,
    Numeral.ofDigits_toDigits, UInt64.ofNat_toNat]

end Paging
