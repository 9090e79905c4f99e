import Mathlib.Data.Option.Basic
import Paging.Proofs.FormText
import Paging.Proofs.TokenLists

/-!
# Requests can be read back

A record is written without the fields that are absent, and its fields are found again by their
names, each as the document of its value (`fields?_record`); so are the pairs of a query string
(`pairValue?_present`). A list of tokens may be spelled in several ways (`Json.Spells`), all of which are
read as the list. So a request is read back from its own JSON text, from a JSON text with other
spellings of its lists, and from a query string (`Request.spellings_agree`).
-/

namespace Paging

/-! ## Fields that are present -/

/-- The fields of a record that are present, with their values. -/
def present {α : Type} (fields : List (String × Option α)) : List (String × α) :=
  fields.filterMap fun (name, value?) => value?.map fun value => (name, value)

/-- Under each name stands what the record has there, once if at all. -/
theorem filter_present {α : Type} {fields : List (String × Option α)} {name : String}
    {value? : Option α} (hNodup : (fields.map Prod.fst).Nodup) (hMem : (name, value?) ∈ fields) :
    (present fields).filter (fun entry => entry.1 == name) =
      (value?.map fun value => (name, value)).toList := by
  induction fields with
  | nil => cases hMem
  | cons first rest ih =>
      rw [List.map_cons, List.nodup_cons] at hNodup
      obtain ⟨hFresh, hNodup⟩ := hNodup
      have hSplit : present (first :: rest) =
          (first.2.map fun value => (first.1, value)).toList ++ present rest := by
        cases hFirst : first.2 <;> simp [present, hFirst]
      rw [hSplit, List.filter_append]
      rcases List.mem_cons.1 hMem with rfl | hRest
      · have hNone : (present rest).filter (fun entry => entry.1 == name) = [] := by
          rw [List.filter_eq_nil_iff]
          intro entry hEntry hEq
          obtain ⟨field, hField, hSome⟩ := List.mem_filterMap.1 hEntry
          obtain ⟨value, -, rfl⟩ := Option.map_eq_some_iff.1 hSome
          exact hFresh (List.mem_map.2 ⟨field, hField, by simpa using hEq⟩)
        rw [hNone, List.append_nil]
        cases value? <;> simp
      · have hOther : first.1 ≠ name := by
          rintro rfl
          exact hFresh (List.mem_map.2 ⟨_, hRest, rfl⟩)
        rw [ih hNodup hRest]
        cases first.2 <;> simp [hOther]

namespace Json

open Document

/-- The members of a record under a name. -/
theorem single?_present {fields : List (String × Option Json)} {name : String}
    {value? : Option Json} (hNodup : (fields.map Prod.fst).Nodup)
    (hMem : (name, value?) ∈ fields) :
    single? (membersOf (present fields)) name = some (value?.map documentOf) := by
  have hKey : (fun member : Option String × Document => member.1 == some name) ∘
      (fun entry : String × Json => (some entry.1, documentOf entry.2)) =
        fun entry => entry.1 == name := by
    funext entry
    simp
  rw [single?, membersOf_eq_map, List.filter_map, hKey, filter_present hNodup hMem]
  cases value? <;> rfl

/-- **The fields of a record are found by their names.** -/
theorem fields?_record {fields : List (String × Option Json)}
    (hNodup : (fields.map Prod.fst).Nodup) (required : Nat) :
    fields? (fields.map Prod.fst) required (documentOf (record fields)) =
      some (fields.map fun field => field.2.map documentOf) := by
  have hNames : (membersOf (present fields)).all (·.1.isSome) := by
    rw [membersOf_eq_map]
    simp
  have hEach : ∀ field ∈ fields, single? (membersOf (present fields)) field.1 =
      some (field.2.map documentOf) := fun field hMem => single?_present hNodup hMem
  show (if (membersOf (present fields)).all (·.1.isSome) then _ else none) = _
  rw [if_pos hNames, List.mapM_map]
  exact (Results.mapM_congr hEach).trans List.mapM_pure

theorem isWhole_record {fields : List (String × Option Json)}
    (hWhole : ∀ field ∈ fields, ∀ value ∈ field.2, value.IsWhole) : (record fields).IsWhole := by
  refine entriesWhole_iff.2 fun entry hMem => ?_
  obtain ⟨field, hField, hSome⟩ := List.mem_filterMap.1 hMem
  obtain ⟨value, hValue, rfl⟩ := Option.map_eq_some_iff.1 hSome
  exact hWhole field hField value hValue

end Json

namespace Request

/-- The pair of a query string under a name. -/
theorem pairValue?_present {fields : List (String × Option String)} {name : String}
    {value? : Option String} (hNodup : (fields.map Prod.fst).Nodup)
    (hMem : (name, value?) ∈ fields) : pairValue? (present fields) name = some value? := by
  rw [pairValue?, filter_present hNodup hMem]
  cases value? <;> rfl

end Request

/-! ## Spellings of lists -/

/-- A JSON value spells a list of strings: it is their array, or a string that spells the list. -/
inductive Json.Spells : Json → List String → Prop
  | array (texts : List String) : Spells (.strings texts) texts
  | text {text : String} {texts : List String} : SpelledBy text texts → Spells (.str text) texts

theorem Json.Spells.isWhole {value : Json} {texts : List String} (hSpells : value.Spells texts) :
    value.IsWhole := by
  cases hSpells with
  | array => exact Json.isWhole_strings texts
  | text => trivial

theorem Json.Spells.tokensOfDocument? {value : Json} {texts : List String}
    (hSpells : value.Spells texts) :
    tokensOfDocument? (Json.documentOf value) = some texts := by
  cases hSpells with
  | array => exact Json.Document.strings?_eq_some_iff.2 rfl
  | text hText => exact congrArg some (tokensOfText_eq_iff.2 hText)

/-! ## Requests -/

namespace Request

/-- A request as an object, with the given spellings of its lists. -/
def spelledJson (request : Request) (sort filter nestedFilter : Option Json) : Json :=
  .record [
    ("page", request.page.map fun n => .nat n.toNat),
    ("size", request.size.map fun n => .nat n.toNat),
    ("sort", sort),
    ("filter", filter),
    ("nestedFilter", nestedFilter),
    ("route", request.route.map .str)]

/-- A request as the pairs of a query string, with the given spellings of its lists. -/
def spelledPairs (request : Request) (sort filter nestedFilter : Option String) :
    List (String × String) :=
  present [
    ("page", request.page.map LinkQuery.wordText),
    ("size", request.size.map LinkQuery.wordText),
    ("sort", sort),
    ("filter", filter),
    ("nestedFilter", nestedFilter),
    ("route", request.route)]

section Fields

open Json Json.Document

theorem word?_nat (n : UInt64) : word? (documentOf (.nat n.toNat)) = some n := by
  have hSize : n.toNat < UInt64.size := n.toNat_lt_size
  simp [word?, documentOf, Json.nat, numeralOf, Numeral.ofInt, Numeral.isWhole,
    Numeral.ofDigits_toDigits, hSize]

theorem optional?_word (number : Option UInt64) :
    optional? word? ((number.map fun n => Json.nat n.toNat).map documentOf) = some number := by
  cases number with
  | none => rfl
  | some n => exact congrArg (Option.map some) (word?_nat n)

theorem optional?_string (text : Option String) :
    optional? string? ((text.map Json.str).map documentOf) = some text := by
  cases text <;> rfl

/-- A field is read as the list that it spells, and as absent if it is absent. -/
theorem optional?_tokens {value? : Option Json} {list? : Option (List String)}
    (hSpells : Option.Rel Json.Spells value? list?) :
    optional? tokensOfDocument? (value?.map documentOf) = some list? := by
  cases hSpells with
  | none => rfl
  | some hValue =>
      have hRead := congrArg (Option.map some) hValue.tokensOfDocument?
      cases hValue with
      | array => exact hRead
      | text => exact hRead

end Fields

theorem isWhole_spelledJson (request : Request) {sort filter nestedFilter : Option Json}
    (hSort : Option.Rel Json.Spells sort request.sort)
    (hFilter : Option.Rel Json.Spells filter request.filter)
    (hNested : Option.Rel Json.Spells nestedFilter request.nestedFilter) :
    (request.spelledJson sort filter nestedFilter).IsWhole := by
  have hList : ∀ {value? : Option Json} {list? : Option (List String)},
      Option.Rel Json.Spells value? list? → ∀ value ∈ value?, value.IsWhole := by
    intro value? list? hSpells value hMem
    cases hSpells with
    | none => cases hMem
    | some hValue =>
        cases hMem
        exact hValue.isWhole
  have hNumber : ∀ (number : Option UInt64),
      ∀ value ∈ number.map fun n => Json.nat n.toNat, value.IsWhole := by
    intro number value hMem
    obtain ⟨n, -, rfl⟩ := Option.map_eq_some_iff.1 hMem
    trivial
  have hText : ∀ value ∈ request.route.map Json.str, value.IsWhole := by
    intro value hMem
    obtain ⟨text, -, rfl⟩ := Option.map_eq_some_iff.1 hMem
    trivial
  apply Json.isWhole_record
  simp only [List.forall_mem_cons, List.not_mem_nil, false_implies, implies_true, and_true]
  exact ⟨hNumber request.page, hNumber request.size, hList hSort, hList hFilter, hList hNested,
    hText⟩

/-- A request is read from its JSON text, however its lists are spelled. -/
theorem ofText?_spelledJson (request : Request) {sort filter nestedFilter : Option Json}
    (hSort : Option.Rel Json.Spells sort request.sort)
    (hFilter : Option.Rel Json.Spells filter request.filter)
    (hNested : Option.Rel Json.Spells nestedFilter request.nestedFilter) :
    ofText? (request.spelledJson sort filter nestedFilter).text = some request := by
  have hWhole := isWhole_spelledJson request hSort hFilter hNested
  have hFields : (Json.documentOf (request.spelledJson sort filter nestedFilter)).fields?
      fieldNames 6 = some _ := Json.fields?_record (by simp) 6
  rw [ofText?, Json.text, String.toList_ofList, Json.Document.parse?_render hWhole,
    Option.bind_some, ofDocument?, hFields]
  simp only [List.map_cons, List.map_nil, Option.bind_eq_bind, Option.bind_some, optional?_word,
    optional?_string, optional?_tokens hSort, optional?_tokens hFilter, optional?_tokens hNested]
  rfl

theorem map_tokensOfText {text? : Option String} {list? : Option (List String)}
    (hSpelled : Option.Rel SpelledBy text? list?) : text?.map tokensOfText = list? := by
  cases hSpelled with
  | none => rfl
  | some hText => exact congrArg some (tokensOfText_eq_iff.2 hText)

/-- A request is read from the pairs of a query string, however its lists are spelled. -/
theorem ofPairs?_spelledPairs (request : Request) {sort filter nestedFilter : Option String}
    (hSort : Option.Rel SpelledBy sort request.sort)
    (hFilter : Option.Rel SpelledBy filter request.filter)
    (hNested : Option.Rel SpelledBy nestedFilter request.nestedFilter) :
    ofPairs? (request.spelledPairs sort filter nestedFilter) = some request := by
  let pairs := request.spelledPairs sort filter nestedFilter
  have hPage : pairValue? pairs "page" = some (request.page.map LinkQuery.wordText) :=
    pairValue?_present (by simp) (by simp)
  have hSize : pairValue? pairs "size" = some (request.size.map LinkQuery.wordText) :=
    pairValue?_present (by simp) (by simp)
  have hSorted : pairValue? pairs "sort" = some sort := pairValue?_present (by simp) (by simp)
  have hFiltered : pairValue? pairs "filter" = some filter := pairValue?_present (by simp) (by simp)
  have hNestedFiltered : pairValue? pairs "nestedFilter" = some nestedFilter :=
    pairValue?_present (by simp) (by simp)
  have hRoute : pairValue? pairs "route" = some request.route :=
    pairValue?_present (by simp) (by simp)
  show ofPairs? pairs = _
  unfold ofPairs?
  dsimp only
  rw [hPage, hSize, hSorted, hFiltered, hNestedFiltered, hRoute]
  have hSortRead := map_tokensOfText hSort
  have hFilterRead := map_tokensOfText hFilter
  have hNestedRead := map_tokensOfText hNested
  obtain ⟨page, size, _, _, _, route⟩ := request
  cases page <;> cases size <;>
    simp [wordOfText?_wordText, hSortRead, hFilterRead, hNestedRead]

/-- Lists spelled as their arrays. -/
theorem spells_strings (list? : Option (List String)) :
    Option.Rel Json.Spells (list?.map .strings) list? := by
  cases list? with
  | none => exact .none
  | some texts => exact .some (.array texts)

/-- Lists spelled by the texts of their arrays. -/
theorem spelledBy_text (list? : Option (List String)) :
    Option.Rel SpelledBy (list?.map fun texts => (Json.strings texts).text) list? := by
  cases list? with
  | none => exact .none
  | some texts => exact .some (.array (Json.parse?_text_strings texts))

/-- A request is read back from its JSON text. -/
theorem ofText?_toJson (request : Request) : ofText? request.toJson.text = some request :=
  ofText?_spelledJson request (spells_strings request.sort) (spells_strings request.filter)
    (spells_strings request.nestedFilter)

/-- **Requests survive being written, and all spellings of a list agree.** The JSON text of an
array of strings is one of them. A request is read back from its own JSON text, from every JSON text
in which its lists are spelled as arrays or by strings, and from every query string in which they
are spelled by strings. So reading a text again that has been read and written gives the same. -/
theorem spellings_agree :
    (∀ texts, Json.parse? (Json.strings texts).text = some (.strings texts)) ∧
    ∀ request : Request,
      ofText? request.toJson.text = some request ∧
      (∀ sort filter nestedFilter : Option Json, Option.Rel Json.Spells sort request.sort →
        Option.Rel Json.Spells filter request.filter →
        Option.Rel Json.Spells nestedFilter request.nestedFilter →
        ofText? (request.spelledJson sort filter nestedFilter).text = some request) ∧
      (∀ sort filter nestedFilter : Option String, Option.Rel SpelledBy sort request.sort →
        Option.Rel SpelledBy filter request.filter →
        Option.Rel SpelledBy nestedFilter request.nestedFilter →
        ofQuery? (Text.Form.encode (request.spelledPairs sort filter nestedFilter)) =
          some request) ∧
      ∀ text, ofText? text = some request ∨ ofQuery? text.toList = some request →
        ofText? request.toJson.text = some request := by
  refine ⟨Json.parse?_text_strings, ?_⟩
  intro request
  refine ⟨ofText?_toJson request, ?_, ?_, ?_⟩
  · intro sort filter nestedFilter hSort hFilter hNested
    exact ofText?_spelledJson request hSort hFilter hNested
  · intro sort filter nestedFilter hSort hFilter hNested
    rw [ofQuery?, Text.Form.decode_encode]
    exact ofPairs?_spelledPairs request hSort hFilter hNested
  · intro _ _
    exact ofText?_toJson request

/-- A list in a string, a text that only begins like one, and an empty list. -/
theorem spellings_agree_name :
    ∃ request : Request, request.sort = some ["name=asc"] ∧ request.filter = some ["[\"name\""] ∧
      request.nestedFilter = some [] ∧
      ofText? (request.spelledJson (some (.str "[\"name=asc\"]")) (some (.str "[\"name\""))
        (some (.strings []))).text = some request ∧
      ofQuery? (Text.Form.encode (request.spelledPairs (some "[\"name=asc\"]")
        (some "[\"name\"") (some "[]"))) = some request := by
  let request : Request := {
    page := some 2
    sort := some ["name=asc"]
    filter := some ["[\"name\""]
    nestedFilter := some [] }
  have hText : (Json.strings ["name=asc"]).text = "[\"name=asc\"]" := by
    decide
  have hArray : SpelledBy "[\"name=asc\"]" ["name=asc"] := by
    rw [← hText]
    exact .array (Json.parse?_text_strings ["name=asc"])
  have hAlone : SpelledBy "[\"name\"" ["[\"name\""] := by
    refine .alone fun texts => ?_
    rw [show Json.parse? "[\"name\"" = none by rfl]
    nofun
  have hEmpty : SpelledBy "[]" [] := .array (by rfl)
  obtain ⟨-, hJson, hQuery, -⟩ := spellings_agree.2 request
  exact ⟨request, rfl, rfl, rfl,
    hJson _ _ _ (.some (.text hArray)) (.some (.text hAlone)) (.some (.array [])),
    hQuery _ _ _ (.some hArray) (.some hAlone) (.some hEmpty)⟩

end Request

end Paging
