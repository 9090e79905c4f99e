import Paging.Proofs.Orders

/-!
# Projections

What a statement fetches of each record stands in its text between `SELECT` and `FROM`: a star, or
the names of columns. Names are quoted, and quotes in them are doubled, so that they can be read
back (`unquote?_append`); so the text tells one projection from another whatever the names are
(`Statement.Fetches.unique`).

A selection enables the columns whose value is `true`, and the statement for records fetches those
in the order of their keys. A selection that enables none is not told from one that is absent: in
both cases all columns are fetched (`Select.fetches_enabled_iff`).
-/

namespace Paging.Sql

/-! ## Reading quoted names -/

/-- Reads on behind an opening quote: the text up to the closing one, and what follows. -/
def unquote? (quote : Char) : List Char → Option (List Char × List Char)
  | [] => none
  | [c] => if c = quote then some ([], []) else none
  | c :: d :: rest =>
      if c ≠ quote then (unquote? quote (d :: rest)).map (Prod.map (c :: ·) id)
      else if d ≠ quote then some ([], d :: rest)
      else (unquote? quote rest).map (Prod.map (quote :: ·) id)

/-- A name is read back, unless the text goes on with a quote. -/
theorem unquote?_append {quote : Char} (text : List Char) {rest : List Char}
    (hRest : rest.head? ≠ some quote) :
    unquote? quote (text.flatMap (fun c => if c = quote then [c, c] else [c]) ++ quote :: rest) =
      some (text, rest) := by
  induction text with
  | nil =>
      cases rest with
      | nil => simp [unquote?]
      | cons d more =>
          have hNe : d ≠ quote := fun h => hRest (congrArg some h)
          simp [unquote?, hNe]
  | cons c others ih =>
      by_cases hQuote : c = quote
      · subst hQuote
        simp [unquote?, ih]
      · obtain ⟨d, more, hMore⟩ : ∃ d more,
            others.flatMap (fun c => if c = quote then [c, c] else [c]) ++ quote :: rest =
              d :: more := List.exists_cons_of_ne_nil (by simp)
        rw [List.flatMap_cons, if_neg hQuote, List.append_assoc, List.singleton_append, hMore,
          unquote?, if_pos hQuote, ← hMore, ih]
        rfl

/-- The character between two of which names stand. -/
def Dialect.quote : Dialect → Char
  | .mysql => '\x60'
  | .sqlite | .postgres => '"'

theorem identifier_eq (dialect : Dialect) (name : String) :
    dialect.identifier name = doubling dialect.quote name := by
  cases dialect <;> rfl

/-- Where names are followed by other characters than quotes, the names and what follows can be
told. -/
theorem identifier_append_inj {dialect : Dialect} {first second : String} {rest more : List Char}
    (hRest : rest.head? ≠ some dialect.quote) (hMore : more.head? ≠ some dialect.quote)
    (hEq : dialect.identifier first ++ rest = dialect.identifier second ++ more) :
    first = second ∧ rest = more := by
  have hRead := unquote?_append first.toList hRest
  simp only [identifier_eq, doubling, List.cons_append, List.append_assoc, List.nil_append,
    List.cons.injEq, true_and] at hEq
  rw [hEq, unquote?_append second.toList hMore] at hRead
  simp only [Option.some.injEq, Prod.mk.injEq, String.toList_inj] at hRead
  exact ⟨hRead.1.symm, hRead.2.symm⟩

/-- Each of the names behind the first one is written with a comma in front of it. -/
def furtherNames (dialect : Dialect) (names : List String) : List Char :=
  names.flatMap fun name => ',' :: ' ' :: dialect.identifier name

theorem identifiers_cons (dialect : Dialect) (name : String) (rest : List String) :
    identifiers dialect (name :: rest) = dialect.identifier name ++ furtherNames dialect rest := by
  induction rest generalizing name with
  | nil => simp [identifiers, furtherNames]
  | cons next others ih =>
      have hStep : identifiers dialect (name :: next :: others) =
          dialect.identifier name ++ ([',', ' '] ++ identifiers dialect (next :: others)) := by
        simp [identifiers, List.intercalate]
      rw [hStep, ih]
      rfl

section Separators

variable {dialect : Dialect} {rest more : List Char}

theorem head?_furtherNames_ne (names : List String) :
    (furtherNames dialect names ++ ' ' :: rest).head? ≠ some dialect.quote := by
  cases names <;> cases dialect <;> simp [furtherNames, Dialect.quote]

theorem furtherNames_append_inj {names others : List String}
    (hEq : furtherNames dialect names ++ ' ' :: rest = furtherNames dialect others ++ ' ' :: more) :
    names = others := by
  induction names generalizing others with
  | nil =>
      cases others with
      | nil => rfl
      | cons other _ => simp [furtherNames] at hEq
  | cons name names ih =>
      cases others with
      | nil => simp [furtherNames] at hEq
      | cons other others =>
          have hFirst (name : String) (names : List String) (after : List Char) :
              furtherNames dialect (name :: names) ++ after =
                ',' :: ' ' :: (dialect.identifier name ++ (furtherNames dialect names ++ after)) := by
            simp [furtherNames]
          rw [hFirst, hFirst, List.cons.injEq, List.cons.injEq] at hEq
          obtain ⟨rfl, hRest⟩ := identifier_append_inj (head?_furtherNames_ne names)
            (head?_furtherNames_ne others) hEq.2.2
          rw [ih hRest]

/-- Lists of names that are followed by a blank. -/
theorem identifiers_append_inj {names others : List String}
    (hEq : identifiers dialect names ++ ' ' :: rest = identifiers dialect others ++ ' ' :: more) :
    names = others := by
  -- A name begins with a quote and not with the blank behind an empty list.
  have hBlank (name : String) (names : List String) (after before : List Char) :
      identifiers dialect (name :: names) ++ after ≠ ' ' :: before := by
    cases dialect <;> simp [identifiers_cons, identifier_eq, doubling, Dialect.quote]
  match names, others with
  | [], [] => rfl
  | [], other :: others => exact absurd hEq.symm (hBlank other others _ _)
  | name :: names, [] => exact absurd hEq (hBlank name names _ _)
  | name :: names, other :: others =>
      rw [identifiers_cons, identifiers_cons, List.append_assoc, List.append_assoc] at hEq
      obtain ⟨rfl, hRest⟩ := identifier_append_inj (head?_furtherNames_ne names)
        (head?_furtherNames_ne others) hEq
      rw [furtherNames_append_inj hRest]

end Separators

/-! ## What a statement fetches -/

/-- What is fetched of each record. -/
inductive Projection where
  /-- All columns. -/
  | everything
  /-- The columns with the given names, in this order. -/
  | columns (names : List String)

/-- A projection as it is written. -/
def Projection.chars (dialect : Dialect) : Projection → List Char
  | .everything => ['*']
  | .columns names => identifiers dialect names

/-- The projection stands in the statement between `SELECT` and `FROM`. -/
def Statement.Fetches (statement : Statement) (projection : Projection) : Prop :=
  ∃ rest, statement.sql.toList =
    "SELECT ".toList ++ projection.chars statement.dialect ++ " FROM ".toList ++ rest

/-- The text of a statement says what is fetched. -/
theorem Statement.Fetches.unique {statement : Statement} {first second : Projection}
    (hFirst : statement.Fetches first) (hSecond : statement.Fetches second) : first = second := by
  obtain ⟨rest, hRest⟩ := hFirst
  obtain ⟨more, hMore⟩ := hSecond
  have hFrom : " FROM ".toList = ' ' :: "FROM ".toList := rfl
  rw [hRest, hFrom, List.append_assoc, List.append_assoc, List.append_assoc, List.append_assoc,
    List.append_right_inj, List.cons_append, List.cons_append] at hMore
  -- Neither a quote nor the blank behind an empty list of names is a star.
  have hStar (names : List String) (after before : List Char) :
      identifiers statement.dialect names ++ ' ' :: after ≠ '*' :: before := by
    cases names <;> cases statement.dialect <;>
      simp [identifier_eq, doubling, Dialect.quote, identifiers]
  match first, second with
  | .everything, .everything => rfl
  | .everything, .columns names => exact absurd hMore.symm (hStar names _ _)
  | .columns names, .everything => exact absurd hMore (hStar names _ _)
  | .columns names, .columns others => rw [identifiers_append_inj hMore]

/-- What the statement for records fetches. -/
def Select.projection (select : Select) : Projection :=
  if select.columns = [] then .everything else .columns select.columns

theorem Select.fetches_iff (dialect : Dialect) (select : Select) (projection : Projection) :
    (select.statement dialect).Fetches projection ↔ projection = select.projection := by
  have hChars : (if select.columns.isEmpty then ['*'] else identifiers dialect select.columns) =
      select.projection.chars dialect := by
    by_cases hNone : select.columns = [] <;> simp [Select.projection, hNone, Projection.chars]
  have hSelf : (select.statement dialect).Fetches select.projection := by
    refine ⟨Statement.sqlFrom dialect 1 (.text (dialect.identifier select.model) ::
      (whereClause dialect select.where? ++ orderClause dialect select.order ++
        [word " LIMIT ", .value (.word select.limit), word " OFFSET ",
          .value (.word select.offset)])), ?_⟩
    rw [Statement.sql, String.toList_ofList, Select.statement, hChars]
    simp [Statement.sqlFrom, word]
  constructor
  · intro hFetches
    exact hFetches.unique hSelf
  · rintro rfl
    exact hSelf

/-! ## Selections -/

/-- Whether a value is `true`. -/
def isTrue : Json → Bool
  | .bool true => true
  | _ => false

theorem isTrue_iff {value : Json} : isTrue value ↔ value = .bool true := by
  cases value with
  | bool b => cases b <;> simp [isTrue]
  | _ => simp [isTrue]

/-- The keys whose value is `true`, in the order of the entries. -/
def enabled (entries : List (String × Json)) : List String :=
  (entries.filter fun entry => isTrue entry.2).map Prod.fst

theorem enabled_sublist_keys (entries : List (String × Json)) :
    (enabled entries).Sublist (Table.keys entries) :=
  List.filter_sublist.map Prod.fst

theorem enabled_eq_nil_iff {entries : List (String × Json)} :
    enabled entries = [] ↔ ∀ entry ∈ entries, entry.2 ≠ .bool true := by
  simp only [enabled, List.map_eq_nil_iff, List.filter_eq_nil_iff, isTrue_iff, ne_eq]

theorem mem_enabled_iff {entries : List (String × Json)} {column : String} :
    column ∈ enabled entries ↔ (column, .bool true) ∈ entries := by
  simp only [enabled, List.mem_map, List.mem_filter, isTrue_iff]
  constructor
  · rintro ⟨⟨column, value⟩, ⟨hMem, rfl⟩, rfl⟩
    exact hMem
  · intro hMem
    exact ⟨_, ⟨hMem, rfl⟩, rfl⟩

theorem selectedColumns_obj (entries : List (String × Json)) :
    selectedColumns (some (.obj entries)) = .ok (enabled entries) := by
  refine congrArg Except.ok ?_
  induction entries with
  | nil => rfl
  | cons entry rest ih =>
      obtain ⟨column, value⟩ := entry
      have hEnabled : enabled ((column, value) :: rest) =
          if isTrue value then column :: enabled rest else enabled rest := by
        rw [enabled, List.filter_cons]
        split <;> rfl
      rw [hEnabled, ← ih]
      cases value with
      | bool b => cases b <;> rfl
      | _ => rfl

/-- A selection that is accepted is an object, and its columns are those that it enables. -/
theorem exists_of_selectedColumns_eq_ok {selection : Json} {columns : List String}
    (hOk : selectedColumns (some selection) = .ok columns) :
    ∃ entries, selection = .obj entries ∧ columns = enabled entries := by
  obtain ⟨entries, hEntries, -⟩ := Results.bind_eq_ok_iff.1 hOk
  obtain rfl := objectEntries_eq_ok_iff.1 hEntries
  rw [selectedColumns_obj, Except.ok.injEq] at hOk
  exact ⟨entries, rfl, hOk.symm⟩

/-- **A projection fetches what its selection enables, if it enables anything.** A query without a
selection fetches all columns. With one, which has to be an object, it fetches the columns whose
value is `true`, in the order of their keys, exactly if there are any; if there are none, then it
fetches all columns. -/
theorem Select.fetches_enabled_iff (dialect : Dialect) {model : String} {args : Args}
    {select : Select} (hOk : (Select.ofArgs model args).run.value = .ok select) :
    (args.select? = none → (select.statement dialect).Fetches .everything) ∧
    ∀ selection, args.select? = some selection → ∃ entries, selection = .obj entries ∧
      (enabled entries).Sublist (Table.keys entries) ∧
      (∀ column, column ∈ enabled entries ↔ (column, .bool true) ∈ entries) ∧
      ((select.statement dialect).Fetches (.columns (enabled entries)) ↔
        ∃ entry ∈ entries, entry.2 = .bool true) ∧
      ((select.statement dialect).Fetches .everything ↔
        ∀ entry ∈ entries, entry.2 ≠ .bool true) := by
  rw [Select.value_ofArgs] at hOk
  obtain ⟨columns, hColumns, hOk⟩ := Results.bind_eq_ok_iff.1 hOk
  obtain ⟨where?, -, hOk⟩ := Results.bind_eq_ok_iff.1 hOk
  obtain ⟨order, -, hOk⟩ := Results.bind_eq_ok_iff.1 hOk
  cases hOk
  simp only [Select.fetches_iff, Select.projection]
  constructor
  · intro hNone
    rw [hNone] at hColumns
    cases hColumns
    rfl
  · intro selection hSome
    rw [hSome] at hColumns
    obtain ⟨entries, rfl, rfl⟩ := exists_of_selectedColumns_eq_ok hColumns
    refine ⟨entries, rfl, enabled_sublist_keys entries, fun _ => mem_enabled_iff, ?_⟩
    have hAny : enabled entries ≠ [] ↔ ∃ entry ∈ entries, entry.2 = .bool true := by
      rw [ne_eq, enabled_eq_nil_iff]
      push Not
      rfl
    by_cases hEmpty : enabled entries = []
    · rw [if_pos hEmpty, ← hAny, ← enabled_eq_nil_iff]
      simp [hEmpty]
    · rw [if_neg hEmpty, ← hAny, ← enabled_eq_nil_iff]
      simp [hEmpty]

/-- A column that is enabled beside one that is not. -/
theorem Select.fetches_enabled_name :
    let args : Args :=
      { skip := 0, take := 20, select? := some (.obj [("name", .bool true), ("secret", .bool false)]) }
    ∃ select, (Select.ofArgs "users" args).run.value = .ok select ∧
      (select.statement .postgres).Fetches (.columns ["name"]) ∧
      ¬(select.statement .postgres).Fetches .everything := by
  intro args
  let select : Select :=
    { model := "users", columns := ["name"], where? := none, order := [], limit := 20, offset := 0 }
  have hOk : (Select.ofArgs "users" args).run.value = .ok select := rfl
  obtain ⟨-, hSelection⟩ := Select.fetches_enabled_iff .postgres hOk
  obtain ⟨entries, hEntries, -, -, hColumns, hEverything⟩ := hSelection _ rfl
  cases hEntries
  have hName : ∃ entry ∈ [("name", Json.bool true), ("secret", Json.bool false)],
      entry.2 = .bool true := ⟨_, List.mem_cons_self, rfl⟩
  refine ⟨select, hOk, hColumns.2 hName, ?_⟩
  intro hAll
  exact hEverything.1 hAll _ List.mem_cons_self rfl

/-- With the only column disabled all columns are fetched, it among them. -/
theorem Select.fetches_everything_of_disabled :
    ∃ select, (Select.ofArgs "users"
        { skip := 0, take := 20, select? := some (.obj [("secret", .bool false)]) }).run.value =
          .ok select ∧
      (select.statement .postgres).Fetches .everything ∧
      ¬(select.statement .postgres).Fetches (.columns []) := by
  let select : Select :=
    { model := "users", columns := [], where? := none, order := [], limit := 20, offset := 0 }
  refine ⟨select, rfl, (Select.fetches_iff .postgres select .everything).2 rfl, ?_⟩
  intro hNone
  cases (Select.fetches_iff .postgres select (.columns [])).1 hNone

end Paging.Sql
