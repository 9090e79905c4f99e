import Paging.Json.Reader
import Paging.Proofs.JsonStrings
import Paging.Proofs.Numerals

/-!
# JSON texts can be read back

The text of a value without fractions is read as the document of the value (`parse?_render`). This
goes by way of tokens: the text is cut into the tokens of the value (`Cuts.render`), and from any
state in which a value may come the tokens lead to the state behind this value (`run?_tokensOf`).
What follows the value does not matter, except that a number has to end where it ends.
-/

namespace Paging.Json

/-! ## Documents and tokens of values -/

mutual

/-- A value without fractions: all its numbers are integers. -/
def IsWhole : Json → Prop
  | .num (.float _) => False
  | .arr items => AreWhole items
  | .obj entries => EntriesWhole entries
  | _ => True

/-- Items without fractions. -/
def AreWhole : List Json → Prop
  | [] => True
  | item :: items => IsWhole item ∧ AreWhole items

/-- Entries without fractions. -/
def EntriesWhole : List (String × Json) → Prop
  | [] => True
  | (_, value) :: entries => IsWhole value ∧ EntriesWhole entries

end

/-- The numeral that a number is written as, if it is an integer. -/
def numeralOf : Number → Numeral
  | .int n => .ofInt n
  | .float _ => .ofInt 0

mutual

/-- The document of a value without fractions. -/
def documentOf : Json → Document
  | .null => .null
  | .bool b => .bool b
  | .num n => .num (numeralOf n)
  | .str s => .str (some s)
  | .arr items => .arr (documentsOf items)
  | .obj entries => .obj (membersOf entries)

/-- The documents of items. -/
def documentsOf : List Json → List Document
  | [] => []
  | item :: items => documentOf item :: documentsOf items

/-- The members of an object with the given entries. -/
def membersOf : List (String × Json) → List (Option String × Document)
  | [] => []
  | (key, value) :: entries => (some key, documentOf value) :: membersOf entries

end

mutual

/-- The tokens of a value without fractions. -/
def tokensOf : Json → List Token
  | .null => [.null]
  | .bool b => [.bool b]
  | .num n => [.num (numeralOf n)]
  | .str s => [.str (some s)]
  | .arr [] => [.leftBracket, .rightBracket]
  | .arr (item :: items) => .leftBracket :: (tokensOf item ++ itemTokens items)
  | .obj [] => [.leftBrace, .rightBrace]
  | .obj ((key, value) :: entries) =>
      .leftBrace :: .str (some key) :: .colon :: (tokensOf value ++ entryTokens entries)

/-- The tokens of the items of an array after the first, and of the bracket that closes it. -/
def itemTokens : List Json → List Token
  | [] => [.rightBracket]
  | item :: items => .comma :: (tokensOf item ++ itemTokens items)

/-- The tokens of the entries of an object after the first, and of the brace that closes it. -/
def entryTokens : List (String × Json) → List Token
  | [] => [.rightBrace]
  | (key, value) :: entries =>
      .comma :: .str (some key) :: .colon :: (tokensOf value ++ entryTokens entries)

end

theorem documentsOf_eq_map (items : List Json) : documentsOf items = items.map documentOf := by
  induction items with
  | nil => rfl
  | cons item items ih => rw [documentsOf, ih, List.map_cons]

theorem membersOf_eq_map (entries : List (String × Json)) :
    membersOf entries = entries.map fun entry => (some entry.1, documentOf entry.2) := by
  induction entries with
  | nil => rfl
  | cons entry entries ih => rw [membersOf, ih, List.map_cons]

theorem areWhole_iff {items : List Json} : AreWhole items ↔ ∀ item ∈ items, IsWhole item := by
  induction items with
  | nil => simp [AreWhole]
  | cons item items ih => rw [AreWhole, ih, List.forall_mem_cons]

theorem entriesWhole_iff {entries : List (String × Json)} :
    EntriesWhole entries ↔ ∀ entry ∈ entries, IsWhole entry.2 := by
  induction entries with
  | nil => simp [EntriesWhole]
  | cons entry entries ih => rw [EntriesWhole, ih, List.forall_mem_cons]

/-! ## Cutting texts -/

namespace Token

/-- A text is cut into tokens, however many steps are allowed beyond its length. -/
def Cuts (text : List Char) (tokens : List Token) : Prop :=
  ∀ fuel, text.length < fuel → takeAll? fuel text = some tokens

theorem takeAll?_cons {fuel : Nat} {c : Char} {rest after : List Char} {token : Token}
    {tokens : List Token} (hSpace : isSpace c = false)
    (hTake : take? (c :: rest) = some (token, after))
    (hAfter : takeAll? fuel after = some tokens) :
    takeAll? (fuel + 1) (c :: rest) = some (token :: tokens) := by
  rw [takeAll?, hSpace, hTake]
  show (do return token :: (← takeAll? fuel after) : Option (List Token)) = _
  rw [hAfter]
  rfl

namespace Cuts

theorem ofText? {text : List Char} {tokens : List Token} (hCuts : Cuts text tokens) :
    Token.ofText? text = some tokens :=
  hCuts (text.length + 1) (Nat.lt_succ_self _)

theorem nil : Cuts [] [] := by
  intro fuel hFuel
  obtain ⟨less, rfl⟩ := Nat.exists_eq_add_one_of_ne_zero (Nat.ne_of_gt hFuel)
  rfl

variable {rest : List Char} {tokens : List Token}

/-- A token that takes its first character at least. -/
theorem cons {c : Char} {more : List Char} {token : Token} (hSpace : isSpace c = false)
    (hTake : take? (c :: more) = some (token, rest)) (hShorter : rest.length ≤ more.length)
    (hRest : Cuts rest tokens) : Cuts (c :: more) (token :: tokens) := by
  intro fuel hFuel
  rw [List.length_cons] at hFuel
  obtain ⟨less, rfl⟩ : ∃ less, fuel = less + 1 := ⟨fuel - 1, by omega⟩
  exact takeAll?_cons hSpace hTake (hRest less (by omega))

theorem endsNumber_renderItems (items : List Json) (rest : List Char) :
    Numeral.EndsNumber (Json.renderItems items ++ rest) := by
  cases items <;> simp [Json.renderItems, Numeral.EndsNumber]

theorem endsNumber_renderEntries (entries : List (String × Json)) (rest : List Char) :
    Numeral.EndsNumber (Json.renderEntries entries ++ rest) := by
  cases entries <;> simp [Json.renderEntries, Numeral.EndsNumber]

theorem quoted (text : String) (hRest : Cuts rest tokens) :
    Cuts (Json.quoted text ++ rest) (.str (some text) :: tokens) := by
  have hTake := take?_quoted text rest
  have hQuoted : Json.quoted text ++ rest =
      '"' :: (text.toList.flatMap escapeChar ++ '"' :: rest) := by
    simp [Json.quoted]
  rw [hQuoted] at hTake ⊢
  refine cons (by decide) hTake ?_ hRest
  simp only [List.length_append, List.length_cons]
  omega

/-- No other token begins like a number. -/
theorem take?_of_isStart {c : Char} (hStart : Numeral.IsStart c) (more : List Char) :
    take? (c :: more) = (do
      let (numeral, after) ← Numeral.takeJson? (c :: more)
      return (.num numeral, after)) := by
  unfold take?
  split
  case h_11 => rfl
  all_goals
    rename_i hEq
    exact absurd (List.cons.inj hEq).1 (hStart.ne (by decide) (by decide))

theorem int (n : Int) (hEnds : Numeral.EndsNumber rest) (hRest : Cuts rest tokens) :
    Cuts (intChars n ++ rest) (.num (.ofInt n) :: tokens) := by
  have hTake := Numeral.takeJson?_intChars n hEnds
  obtain ⟨c, more, hCons, hStart⟩ := Numeral.exists_intChars_eq n
  have hSpace : isSpace c = false := by
    have hNe : ∀ space, space ≠ '-' → ¬space.isDigit → c ≠ space := fun _ => hStart.ne
    simp [isSpace, hNe ' ', hNe '\t', hNe '\n', hNe '\r']
  rw [hCons, List.cons_append] at hTake ⊢
  refine cons hSpace ?_ (by simp) hRest
  rw [take?_of_isStart hStart, hTake]
  rfl

/-- Punctuation is a token of one character. -/
theorem punctuation {c : Char} {token : Token} (hSpace : isSpace c = false)
    (hTake : take? (c :: rest) = some (token, rest)) (hRest : Cuts rest tokens) :
    Cuts (c :: rest) (token :: tokens) :=
  cons hSpace hTake le_rfl hRest

/-- A key, and the colon that stands behind it. -/
theorem member (key : String) (hRest : Cuts rest tokens) :
    Cuts (Json.quoted key ++ ':' :: rest) (.str (some key) :: .colon :: tokens) :=
  quoted key (punctuation (by decide) rfl hRest)

mutual

/-- The text of a value is cut into the tokens of the value. -/
theorem render (value : Json) {rest : List Char} {tokens : List Token} (hWhole : value.IsWhole)
    (hEnds : Numeral.EndsNumber rest) (hRest : Cuts rest tokens) :
    Cuts (Json.render value ++ rest) (tokensOf value ++ tokens) :=
  match value with
  | .null => cons (c := 'n') (by decide) rfl (by simp; omega) hRest
  | .bool true => cons (c := 't') (by decide) rfl (by simp; omega) hRest
  | .bool false => cons (c := 'f') (by decide) rfl (by simp; omega) hRest
  | .num (.int n) => int n hEnds hRest
  | .num (.float _) => hWhole.elim
  | .str s => quoted s hRest
  | .arr [] => punctuation (c := '[') (by decide) rfl (punctuation (c := ']') (by decide) rfl hRest)
  | .arr (item :: items) => by
      obtain ⟨hItem, hItems⟩ : IsWhole item ∧ AreWhole items := hWhole
      have hBehind := renderItems items hItems hRest
      have hAfter := render item hItem (endsNumber_renderItems items rest) hBehind
      simp only [Json.render, tokensOf, List.cons_append, List.append_assoc]
      exact punctuation (by decide) rfl hAfter
  | .obj [] =>
      punctuation (c := '\x7b') (by decide) rfl (punctuation (c := '\x7d') (by decide) rfl hRest)
  | .obj ((key, value) :: entries) => by
      obtain ⟨hValue, hEntries⟩ : IsWhole value ∧ EntriesWhole entries := hWhole
      have hBehind := renderEntries entries hEntries hRest
      have hAfter := render value hValue (endsNumber_renderEntries entries rest) hBehind
      simp only [Json.render, tokensOf, List.cons_append, List.append_assoc]
      exact punctuation (by decide) rfl (member key hAfter)

theorem renderItems (items : List Json) {rest : List Char} {tokens : List Token}
    (hWhole : AreWhole items) (hRest : Cuts rest tokens) :
    Cuts (Json.renderItems items ++ rest) (itemTokens items ++ tokens) :=
  match items with
  | [] => punctuation (c := ']') (by decide) rfl hRest
  | item :: items => by
      obtain ⟨hItem, hItems⟩ : IsWhole item ∧ AreWhole items := hWhole
      have hBehind := renderItems items hItems hRest
      have hAfter := render item hItem (endsNumber_renderItems items rest) hBehind
      simp only [Json.renderItems, itemTokens, List.cons_append, List.append_assoc]
      exact punctuation (by decide) rfl hAfter

theorem renderEntries (entries : List (String × Json)) {rest : List Char} {tokens : List Token}
    (hWhole : EntriesWhole entries) (hRest : Cuts rest tokens) :
    Cuts (Json.renderEntries entries ++ rest) (entryTokens entries ++ tokens) :=
  match entries with
  | [] => punctuation (c := '\x7d') (by decide) rfl hRest
  | (key, value) :: entries => by
      obtain ⟨hValue, hEntries⟩ : IsWhole value ∧ EntriesWhole entries := hWhole
      have hBehind := renderEntries entries hEntries hRest
      have hAfter := render value hValue (endsNumber_renderEntries entries rest) hBehind
      simp only [Json.renderEntries, entryTokens, List.cons_append, List.append_assoc]
      exact punctuation (by decide) rfl (member key hAfter)

end

end Cuts

end Token

/-! ## Running over tokens -/

namespace Document

/-- A value closes no array, so that the first item of one is read like any value. -/
theorem run?_firstItem (item : Json) (frames : List Frame) (tokens : List Token) :
    run? .firstItem (.arr [] :: frames) (tokensOf item ++ tokens) =
      run? .value (.arr [] :: frames) (tokensOf item ++ tokens) := by
  cases item with
  | arr items => cases items <;> rfl
  | obj entries => cases entries <;> rfl
  | _ => rfl

mutual

/-- The tokens of a value lead to the state behind the value. -/
theorem run?_tokensOf (value : Json) (frames : List Frame) (tokens : List Token) :
    run? .value frames (tokensOf value ++ tokens) = run? (.after (documentOf value)) frames tokens :=
  match value with
  | .null | .bool _ | .num _ | .str _ => rfl
  | .arr [] => rfl
  | .arr (item :: items) => by
      simp only [tokensOf, List.cons_append, List.append_assoc]
      show run? .firstItem (.arr [] :: frames) (tokensOf item ++ (itemTokens items ++ tokens)) = _
      rw [run?_firstItem, run?_tokensOf item, run?_itemTokens items]
      rfl
  | .obj [] => rfl
  | .obj ((key, value) :: entries) => by
      simp only [tokensOf, List.cons_append, List.append_assoc]
      show run? .value (.member [] (some key) :: frames)
        (tokensOf value ++ (entryTokens entries ++ tokens)) = _
      rw [run?_tokensOf value, run?_entryTokens entries]
      rfl

/-- The tokens of further items close the array. -/
theorem run?_itemTokens (items : List Json) (last : Document) (done : List Document)
    (frames : List Frame) (tokens : List Token) :
    run? (.after last) (.arr done :: frames) (itemTokens items ++ tokens) =
      run? (.after (.arr (done.reverse ++ last :: documentsOf items))) frames tokens :=
  match items with
  | [] => by
      show run? (.after (.arr (last :: done).reverse)) frames tokens = _
      rw [List.reverse_cons]
      rfl
  | item :: items => by
      simp only [itemTokens, List.cons_append, List.append_assoc]
      show run? .value (.arr (last :: done) :: frames)
        (tokensOf item ++ (itemTokens items ++ tokens)) = _
      rw [run?_tokensOf item, run?_itemTokens items, List.reverse_cons, List.append_assoc]
      rfl

/-- The tokens of further entries close the object. -/
theorem run?_entryTokens (entries : List (String × Json)) (last : Document) (name : Option String)
    (done : List (Option String × Document)) (frames : List Frame) (tokens : List Token) :
    run? (.after last) (.member done name :: frames) (entryTokens entries ++ tokens) =
      run? (.after (.obj (done.reverse ++ (name, last) :: membersOf entries))) frames tokens :=
  match entries with
  | [] => by
      show run? (.after (.obj ((name, last) :: done).reverse)) frames tokens = _
      rw [List.reverse_cons]
      rfl
  | (key, value) :: entries => by
      simp only [entryTokens, List.cons_append, List.append_assoc]
      show run? .value (.member ((name, last) :: done) (some key) :: frames)
        (tokensOf value ++ (entryTokens entries ++ tokens)) = _
      rw [run?_tokensOf value, run?_entryTokens entries, List.reverse_cons, List.append_assoc]
      rfl

end

/-- **The text of a value without fractions is read back** as the document of the value. -/
theorem parse?_render {value : Json} (hWhole : value.IsWhole) :
    parse? (render value) = some (documentOf value) := by
  have hCuts := Token.Cuts.render value hWhole Numeral.endsNumber_nil Token.Cuts.nil
  rw [List.append_nil, List.append_nil] at hCuts
  have hRun := run?_tokensOf value [] []
  rw [List.append_nil] at hRun
  rw [parse?, hCuts.ofText?]
  exact hRun

end Document

end Paging.Json
