import Paging.Proofs.Operands

/-!
# Values stay out of the text

The form of a where-object is what is left of it when all its scalars other than null are made the
same: its keys, its nulls and its shape. Compiling commutes with taking forms at each level, from
operands (`comparison?_form`) through conditions (`toOption_filterCondition_form`) to queries
(`Select.toOption_ofArgs_form`), and the text of a statement depends on its form only
(`Select.sql_form`). So two runs on where-objects of one form are accepted together, and send the
same text with different values (`statements_of_form_eq`).
-/

namespace Paging

/-! ## Forms of where-objects -/

mutual

/-- A value with all scalars other than null made the same. -/
def Json.form : Json → Json
  | .null => .null
  | .bool _ | .num _ | .str _ => .bool true
  | .arr items => .arr (itemForms items)
  | .obj entries => .obj (entryForms entries)

/-- The forms of items. -/
def itemForms : List Json → List Json
  | [] => []
  | item :: rest => item.form :: itemForms rest

/-- Entries with the forms of their values; the keys stay. -/
def entryForms : List (String × Json) → List (String × Json)
  | [] => []
  | (key, value) :: rest => (key, value.form) :: entryForms rest

end

/-- Arguments with the form of their condition, without the bounds of the page. -/
def Args.form (args : Args) : Args :=
  { args with skip := 0, take := 0, where? := args.where?.map Json.form }

theorem itemForms_eq_map (items : List Json) : itemForms items = items.map Json.form := by
  induction items with
  | nil => rfl
  | cons item rest ih => rw [itemForms, ih, List.map_cons]

theorem entryForms_eq_map (entries : List (String × Json)) :
    entryForms entries = entries.map fun entry => (entry.1, entry.2.form) := by
  induction entries with
  | nil => rfl
  | cons entry rest ih => rw [entryForms, ih, List.map_cons]

namespace Sql

/-- The value that stands in the place of every value. -/
def Value.blank : Value := .bool true

/-! ## Forms of statements -/

/-- A comparison with its values made the same. -/
def Atom.form : Atom → Atom
  | .isNull column => .isNull column
  | .isNotNull column => .isNotNull column
  | .compare column relation _ => .compare column relation .blank
  | .isIn column values => .isIn column (values.map fun _ => .blank)

mutual

/-- A term with the values in it made the same. -/
def Term.form : Term → Term
  | .atom a => .atom a.form
  | .group negated connective terms => .group negated connective (termForms terms)

/-- The forms of terms. -/
def termForms : List Term → List Term
  | [] => []
  | term :: rest => term.form :: termForms rest

end

/-- A condition with the values in it made the same. -/
def Condition.form (condition : Condition) : Condition :=
  { condition with terms := termForms condition.terms }

/-- An expression with the values in it made the same. -/
def Expr.form : Expr → Expr
  | .constant value => .constant value
  | .atom a => .atom a.form
  | .binary connective left right => .binary connective left.form right.form
  | .not expr => .not expr.form

/-- A piece, with its value made the same. -/
def Piece.form : Piece → Piece
  | .text chars => .text chars
  | .value _ => .value .blank

/-- A query with the values in its condition made the same, without the bounds of the page. -/
def Select.form (select : Select) : Select :=
  { select with where? := select.where?.map Condition.form, limit := 0, offset := 0 }

/-- A query for a number with the values in its condition made the same. -/
def Count.form (count : Count) : Count :=
  { count with where? := count.where?.map Condition.form }

theorem termForms_eq_map (terms : List Term) : termForms terms = terms.map Term.form := by
  induction terms with
  | nil => rfl
  | cons term rest ih => rw [termForms, ih, List.map_cons]

namespace Condition

theorem form_toTerm (condition : Condition) : condition.form.toTerm = condition.toTerm.form := by
  obtain ⟨negated, connective, terms⟩ := condition
  match negated, terms with
  | true, _ => rfl
  | false, [] => rfl
  | false, [_] => rfl
  | false, _ :: _ :: _ => rfl

theorem form_ofAtoms (connective : Connective) (atoms : List Atom) :
    ofAtoms connective (atoms.map Atom.form) = (ofAtoms connective atoms).form := by
  show (⟨_, _, _⟩ : Condition) = ⟨_, _, termForms (atoms.map .atom)⟩
  rw [termForms_eq_map, List.map_map, List.map_map]
  rfl

theorem form_join (connective : Connective) (conditions : List Condition) :
    join connective (conditions.map form) = (join connective conditions).form := by
  have hTerms : (conditions.map form).map toTerm = (conditions.map toTerm).map Term.form := by
    rw [List.map_map, List.map_map]
    exact List.map_congr_left fun condition _ => form_toTerm condition
  show (⟨_, _, _⟩ : Condition) = ⟨_, _, termForms (conditions.map toTerm)⟩
  rw [termForms_eq_map, hTerms]
  rfl

end Condition

theorem Joint.form_join (joint : Joint) (conditions : List Condition) :
    joint.join (conditions.map Condition.form) = (joint.join conditions).form := by
  cases joint with
  | all => exact Condition.form_join .all conditions
  | any => exact Condition.form_join .any conditions
  | none => exact congrArg Condition.negate (Condition.form_join .all conditions)

namespace Expr

theorem form_negatedIf (negated : Bool) (expr : Expr) :
    negatedIf negated expr.form = (negatedIf negated expr).form := by
  cases negated <;> rfl

theorem form_foldl_binary (connective : Connective) (first : Expr) (rest : List Expr) :
    (rest.map form).foldl (.binary connective) first.form =
      (rest.foldl (.binary connective) first).form := by
  induction rest generalizing first with
  | nil => rfl
  | cons next rest ih => exact ih (.binary connective first next)

theorem form_fold (connective : Connective) (exprs : List Expr) :
    fold connective (exprs.map form) = (fold connective exprs).form := by
  cases exprs with
  | nil => rfl
  | cons first rest => exact form_foldl_binary connective first rest

mutual

theorem form_ofTerm (term : Term) : ofTerm term.form = (ofTerm term).form :=
  match term with
  | .atom _ => rfl
  | .group negated connective terms => by
      rw [Term.form, ofTerm, ofTerm, form_ofTerms terms, form_fold, form_negatedIf]

theorem form_ofTerms (terms : List Term) : ofTerms (termForms terms) = (ofTerms terms).map form :=
  match terms with
  | [] => rfl
  | term :: rest => by
      rw [termForms, ofTerms, ofTerms, form_ofTerm term, form_ofTerms rest, List.map_cons]

end

theorem form_ofCondition (condition : Condition) :
    ofCondition condition.form = (ofCondition condition).form := by
  show negatedIf condition.negated (fold condition.connective (ofTerms (termForms _))) = _
  rw [form_ofTerms, form_fold, form_negatedIf]
  rfl

end Expr

/-! ## The text depends on the form -/

theorem sqlFrom_form (dialect : Dialect) (number : Nat) (pieces : List Piece) :
    Statement.sqlFrom dialect number (pieces.map Piece.form) =
      Statement.sqlFrom dialect number pieces := by
  induction pieces generalizing number with
  | nil => rfl
  | cons piece rest ih =>
      cases piece with
      | text chars => exact congrArg (chars ++ ·) (ih number)
      | value value => exact congrArg (Statement.placeholder dialect number ++ ·) (ih (number + 1))

theorem listed_form (values : List Value) :
    (listed (values.map fun _ => .blank)).map Piece.form = (listed values).map Piece.form := by
  induction values with
  | nil => rfl
  | cons value rest ih =>
      cases rest with
      | nil => rfl
      | cons next rest =>
          exact congrArg (fun pieces => Piece.value .blank :: word ", " :: pieces) ih

theorem Atom.pieces_form (dialect : Dialect) (a : Atom) :
    (a.form.pieces dialect).map Piece.form = (a.pieces dialect).map Piece.form := by
  cases a with
  | isNull column => rfl
  | isNotNull column => rfl
  | compare column relation value => rfl
  | isIn column values =>
      cases values with
      | nil => rfl
      | cons value rest =>
          show Piece.text _ :: word " IN (" :: (listed _ ++ [word ")"]).map Piece.form =
            Piece.text _ :: word " IN (" :: (listed _ ++ [word ")"]).map Piece.form
          rw [List.map_append, List.map_append, listed_form (value :: rest)]

namespace Expr

theorem isSimple_form (expr : Expr) : expr.form.isSimple = expr.isSimple := by
  cases expr <;> rfl

theorem joinsBy_form (connective : Connective) (expr : Expr) :
    expr.form.joinsBy connective = expr.joinsBy connective := by
  cases expr <;> rfl

theorem parenthesized_form (bare : Bool) {pieces pieces' : List Piece}
    (hForm : pieces.map Piece.form = pieces'.map Piece.form) :
    (parenthesized bare pieces).map Piece.form = (parenthesized bare pieces').map Piece.form := by
  cases bare <;> simp [parenthesized, hForm]

/-- Expressions of one form are written with the same text and as many values. -/
theorem pieces_form (dialect : Dialect) (expr : Expr) :
    (expr.form.pieces dialect).map Piece.form = (expr.pieces dialect).map Piece.form := by
  induction expr with
  | constant value => rfl
  | atom a => exact a.pieces_form dialect
  | binary connective left right ihLeft ihRight =>
      simp only [form, pieces, isSimple_form, joinsBy_form, List.map_append, List.map_cons,
        parenthesized_form _ ihLeft, parenthesized_form _ ihRight]
  | not expr ih =>
      simp only [form, pieces, isSimple_form, List.map_cons, parenthesized_form _ ih]

end Expr

theorem whereClause_form (dialect : Dialect) (where? : Option Condition) :
    (whereClause dialect (where?.map Condition.form)).map Piece.form =
      (whereClause dialect where?).map Piece.form := by
  cases where? with
  | none => rfl
  | some condition =>
      simp only [Option.map_some, whereClause, Expr.form_ofCondition, List.map_cons,
        Expr.pieces_form]

/-- Statements whose pieces have the same forms have the same text. -/
theorem sql_eq_of_pieces {dialect : Dialect} {pieces pieces' : List Piece}
    (hForm : pieces.map Piece.form = pieces'.map Piece.form) :
    (⟨dialect, pieces⟩ : Statement).sql = (⟨dialect, pieces'⟩ : Statement).sql := by
  refine congrArg String.ofList ?_
  show Statement.sqlFrom dialect 1 pieces = Statement.sqlFrom dialect 1 pieces'
  rw [← sqlFrom_form, hForm, sqlFrom_form]

/-- The text of a query depends on its form only. -/
theorem Select.sql_form (dialect : Dialect) (select : Select) :
    (select.form.statement dialect).sql = (select.statement dialect).sql := by
  apply sql_eq_of_pieces
  simp [Select.form, whereClause_form, Piece.form]

/-- So does the text of a query for a number. -/
theorem Count.sql_form (dialect : Dialect) (count : Count) :
    (count.form.statement dialect).sql = (count.statement dialect).sql := by
  apply sql_eq_of_pieces
  simp [Count.form, whereClause_form]

/-! ## Compiling keeps forms -/

theorem bound?_form (value : Json) : bound? value.form = (bound? value).map fun _ => .blank := by
  cases value <;> rfl

theorem isNull_form (value : Json) : value.form.isNull = value.isNull := by
  cases value <;> rfl

theorem listItems_form (value : Json) : listItems value.form = (listItems value).map Json.form := by
  cases value with
  | arr items => exact itemForms_eq_map items
  | _ => rfl

theorem operators_form (value : Json) :
    operators value.form = (operators value).map fun entry => (entry.1, entry.2.form) := by
  cases value with
  | obj entries => exact entryForms_eq_map entries
  | _ => rfl

theorem nullComparison?_form (column : String) (relation : Relation) :
    nullComparison? column relation = (nullComparison? column relation).map Atom.form := by
  cases relation <;> rfl

/-- No operator looks at more of its operand than whether it is null, and how it is made up. -/
theorem comparison?_form (column : String) (operator : String × Json) :
    comparison? column (operator.1, operator.2.form) =
      (comparison? column operator).map Atom.form := by
  obtain ⟨key, operand⟩ := operator
  unfold comparison?
  dsimp only
  split
  · rw [listItems_form, List.mapM_map, Option.map_map]
    have hBlank : (fun item => bound? (Json.form item)) =
        fun item => (bound? item).map fun _ => Value.blank := funext bound?_form
    rw [show bound? ∘ Json.form = fun item => (bound? item).map fun _ => Value.blank from hBlank,
      Results.mapM_map_eq, Option.map_map]
    rfl
  · cases relations.lookup key with
    | none => rfl
    | some relation =>
        rw [Option.bind_some, Option.bind_some, isNull_form]
        split
        · exact nullComparison?_form column relation
        · rw [bound?_form, Option.map_map, Option.map_map]
          rfl

theorem toOption_columnCondition_form (column : String) (value : Json) :
    (columnCondition column value.form).toOption =
      (columnCondition column value).toOption.map Condition.form := by
  have hAtoms : (fun operator : String × Json =>
      (comparison column operator.1 operator.2).toOption) = comparison? column :=
    funext (toOption_comparison column)
  have hForms : (fun operator : String × Json => comparison? column (operator.1, operator.2.form)) =
      fun operator => (comparison? column operator).map Atom.form :=
    funext (comparison?_form column)
  rw [columnCondition_eq, columnCondition_eq, Results.toOption_bind_pure,
    Results.toOption_bind_pure, Results.toOption_mapM, Results.toOption_mapM, hAtoms,
    operators_form, List.mapM_map]
  rw [show comparison? column ∘ (fun entry : String × Json => (entry.1, entry.2.form)) =
    fun operator => (comparison? column operator).map Atom.form from hForms, Results.mapM_map_eq,
    Option.map_map, Option.map_map]
  refine congrArg (Option.map · _) (funext fun atoms => ?_)
  exact Condition.form_ofAtoms .all atoms

mutual

/-- **Compiling looks at the form of a where-object only**: that of a where-object compiles exactly
if the object itself does, and to the form of its condition. -/
theorem toOption_filterCondition_form (value : Json) :
    (filterCondition value.form).toOption = (filterCondition value).toOption.map Condition.form :=
  match value with
  | .obj entries => by
      rw [Json.form, filterCondition, filterCondition, Results.toOption_bind_pure,
        Results.toOption_bind_pure, toOption_entryConditions_form entries, Option.map_map,
        Option.map_map]
      exact congrArg (Option.map · _) (funext (Condition.form_join .all))
  | .null | .bool _ | .num _ | .str _ | .arr _ => rfl

theorem toOption_entryConditions_form (entries : List (String × Json)) :
    (entryConditions (entryForms entries)).toOption =
      (entryConditions entries).toOption.map (List.map Condition.form) :=
  match entries with
  | [] => rfl
  | (key, value) :: rest => by
      have hEntry : (entryCondition (key, value.form)).toOption =
          (entryCondition (key, value)).toOption.map Condition.form := by
        rw [entryCondition, entryCondition]
        dsimp only
        cases Joint.ofKey? key with
        | none => exact toOption_columnCondition_form key value
        | some joint =>
            have hMembers := toOption_memberConditions_form value
            show ((memberConditions value.form).map joint.join).toOption =
              ((memberConditions value).map joint.join).toOption.map Condition.form
            rw [Results.toOption_map, Results.toOption_map, hMembers, Option.map_map,
              Option.map_map]
            exact congrArg (Option.map · _) (funext (Joint.form_join joint))
      rw [entryForms, entryConditions_eq_mapM, entryConditions_eq_mapM, List.mapM_cons,
        List.mapM_cons, ← entryConditions_eq_mapM, ← entryConditions_eq_mapM]
      exact Results.toOption_map_cons hEntry (toOption_entryConditions_form rest)

theorem toOption_memberConditions_form (value : Json) :
    (memberConditions value.form).toOption =
      (memberConditions value).toOption.map (List.map Condition.form) :=
  match value with
  | .arr items => toOption_itemConditions_form items
  | .obj entries => by
      rw [Json.form, memberConditions, memberConditions, Results.toOption_bind_pure,
        Results.toOption_bind_pure, toOption_entryConditions_form entries, Option.map_map,
        Option.map_map]
      refine congrArg (Option.map · _) (funext fun conditions => ?_)
      exact congrArg (fun condition => [condition]) (Condition.form_join .all conditions)
  | .null | .bool _ | .num _ | .str _ => rfl

theorem toOption_itemConditions_form (items : List Json) :
    (itemConditions (itemForms items)).toOption =
      (itemConditions items).toOption.map (List.map Condition.form) :=
  match items with
  | [] => rfl
  | item :: rest =>
      Results.toOption_map_cons (toOption_filterCondition_form item)
        (toOption_itemConditions_form rest)

end

theorem toOption_whereCondition_form (filter : Option Json) :
    (whereCondition (filter.map Json.form)).toOption =
      (whereCondition filter).toOption.map (Option.map Condition.form) := by
  cases filter with
  | none => rfl
  | some value =>
      show ((filterCondition value.form).map some).toOption =
        ((filterCondition value).map some).toOption.map (Option.map Condition.form)
      rw [Results.toOption_map, Results.toOption_map, toOption_filterCondition_form,
        Option.map_map, Option.map_map]
      rfl

/-- Arguments of one form are accepted together, and become queries of one form. -/
theorem Select.toOption_ofArgs_form (model : String) (args : Args) :
    (Select.ofArgs model args.form).run.value.toOption =
      (Select.ofArgs model args).run.value.toOption.map Select.form := by
  rw [Select.value_ofArgs, Select.value_ofArgs]
  have hWhere := toOption_whereCondition_form args.where?
  simp only [Args.form, Results.toOption_bind, hWhere]
  cases selectedColumns args.select? with
  | error e => rfl
  | ok columns =>
      cases whereCondition args.where? with
      | error e => rfl
      | ok where? => cases orderPairs args.orderBy? <;> rfl

theorem Count.toOption_ofFilter_form (model : String) (filter : Option Json) :
    (Count.ofFilter model (filter.map Json.form)).toOption =
      (Count.ofFilter model filter).toOption.map Count.form := by
  rw [Count.ofFilter, Count.ofFilter, Results.toOption_bind_pure, Results.toOption_bind_pure,
    toOption_whereCondition_form, Option.map_map, Option.map_map]
  rfl

/-! ## Operands of one form -/

theorem isEmptyList_form (value : Json) : isEmptyList value.form = isEmptyList value := by
  cases value with
  | arr items => cases items <;> rfl
  | _ => rfl

mutual

/-- The operands of the form of a value are the forms of its operands. -/
theorem operands_form (value : Json) : operands value.form = (operands value).map Json.form :=
  match value with
  | .null | .bool _ | .num _ | .str _ => rfl
  | .arr items => itemOperands_form items
  | .obj entries => entryOperands_form entries

theorem itemOperands_form (items : List Json) :
    itemOperands (itemForms items) = (itemOperands items).map Json.form :=
  match items with
  | [] => rfl
  | item :: rest => by
      rw [itemForms, itemOperands, itemOperands, operands_form item, itemOperands_form rest,
        List.map_append]

theorem entryOperands_form (entries : List (String × Json)) :
    entryOperands (entryForms entries) = (entryOperands entries).map Json.form :=
  match entries with
  | [] => rfl
  | (key, value) :: rest => by
      rw [entryForms, entryOperands, entryOperands, operands_form value, entryOperands_form rest,
        isEmptyList_form, List.map_append]
      split <;> rfl

end

theorem whereOperands_form (filter : Option Json) :
    whereOperands (filter.map Json.form) = (whereOperands filter).map Json.form := by
  cases filter with
  | none => rfl
  | some value => exact operands_form value

/-! ## Two runs -/

/-- Conditions of one form have operands of one form. -/
theorem whereOperands_eq_of_form_eq {filter filter' : Option Json}
    (hForm : filter.map Json.form = filter'.map Json.form) :
    (whereOperands filter).map Json.form = (whereOperands filter').map Json.form := by
  rw [← whereOperands_form, hForm, whereOperands_form]

/-- Queries that become equal when their values are made the same have the same text. -/
theorem Select.sql_eq_of_form_eq (dialect : Dialect) {select select' : Select}
    (hForm : select.form = select'.form) :
    (select.statement dialect).sql = (select'.statement dialect).sql := by
  rw [← sql_form, hForm, sql_form]

theorem Count.sql_eq_of_form_eq (dialect : Dialect) {count count' : Count}
    (hForm : count.form = count'.form) :
    (count.statement dialect).sql = (count'.statement dialect).sql := by
  rw [← sql_form, hForm, sql_form]

/-- Arguments of one form are accepted together or rejected together, and what is sent for them has
one text. -/
theorem Select.ofArgs_of_form_eq (dialect : Dialect) (model : String) {args args' : Args}
    (hForm : args.form = args'.form) :
    (ofArgs model args).run.value.isOk = (ofArgs model args').run.value.isOk ∧
    ∀ select select', (ofArgs model args).run.value = .ok select →
      (ofArgs model args').run.value = .ok select' →
      (select.statement dialect).sql = (select'.statement dialect).sql := by
  have hSame : (ofArgs model args).run.value.toOption.map form =
      (ofArgs model args').run.value.toOption.map form := by
    rw [← toOption_ofArgs_form, hForm, toOption_ofArgs_form]
  constructor
  · rw [← Results.isSome_toOption, ← Results.isSome_toOption, ← Option.isSome_map, hSame,
      Option.isSome_map]
  · intro select select' hOk hOk'
    rw [hOk, hOk'] at hSame
    exact sql_eq_of_form_eq dialect (Option.some.inj hSame)

/-- So are conditions of one form when records are counted. -/
theorem Count.ofFilter_of_form_eq (dialect : Dialect) (model : String) {filter filter' : Option Json}
    (hForm : filter.map Json.form = filter'.map Json.form) :
    (ofFilter model filter).isOk = (ofFilter model filter').isOk ∧
    ∀ count count', ofFilter model filter = .ok count → ofFilter model filter' = .ok count' →
      (count.statement dialect).sql = (count'.statement dialect).sql := by
  have hSame : (ofFilter model filter).toOption.map form =
      (ofFilter model filter').toOption.map form := by
    rw [← toOption_ofFilter_form, hForm, toOption_ofFilter_form]
  constructor
  · rw [← Results.isSome_toOption, ← Results.isSome_toOption, ← Option.isSome_map, hSame,
      Option.isSome_map]
  · intro count count' hOk hOk'
    rw [hOk, hOk'] at hSame
    exact sql_eq_of_form_eq dialect (Option.some.inj hSame)

/-- **Values stay out of the text.** Arguments that differ only in the scalars of their conditions
and in the bounds of the page are accepted together or rejected together. If they are accepted, then
their statements have the same text, and operands at the same places. What is bound are these
operands, in their order, and behind them the bounds of the page. Statements that count records are
alike, without the bounds. -/
theorem statements_of_form_eq (dialect : Dialect) (model : String) :
    (∀ args args' : Args, args.form = args'.form →
      ((Select.ofArgs model args).run.value.isOk = (Select.ofArgs model args').run.value.isOk) ∧
      ∀ select select', (Select.ofArgs model args).run.value = .ok select →
        (Select.ofArgs model args').run.value = .ok select' →
        (select.statement dialect).sql = (select'.statement dialect).sql ∧
        (whereOperands args.where?).map Json.form = (whereOperands args'.where?).map Json.form ∧
        (select.statement dialect).values =
          (whereOperands args.where?).flatMap bindings ++ [.word args.take, .word args.skip] ∧
        (select'.statement dialect).values =
          (whereOperands args'.where?).flatMap bindings ++ [.word args'.take, .word args'.skip]) ∧
    (∀ filter filter' : Option Json, filter.map Json.form = filter'.map Json.form →
      ((Count.ofFilter model filter).isOk = (Count.ofFilter model filter').isOk) ∧
      ∀ count count', Count.ofFilter model filter = .ok count →
        Count.ofFilter model filter' = .ok count' →
        (count.statement dialect).sql = (count'.statement dialect).sql ∧
        (whereOperands filter).map Json.form = (whereOperands filter').map Json.form ∧
        (count.statement dialect).values = (whereOperands filter).flatMap bindings ∧
        (count'.statement dialect).values = (whereOperands filter').flatMap bindings) := by
  constructor
  · intro args args' hForm
    obtain ⟨hAccepted, hText⟩ := Select.ofArgs_of_form_eq dialect model hForm
    refine ⟨hAccepted, ?_⟩
    intro select select' hOk hOk'
    exact ⟨hText select select' hOk hOk',
      whereOperands_eq_of_form_eq (congrArg Args.where? hForm),
      Select.values_ofArgs dialect hOk, Select.values_ofArgs dialect hOk'⟩
  · intro filter filter' hForm
    obtain ⟨hAccepted, hText⟩ := Count.ofFilter_of_form_eq dialect model hForm
    refine ⟨hAccepted, ?_⟩
    intro count count' hOk hOk'
    exact ⟨hText count count' hOk hOk', whereOperands_eq_of_form_eq hForm,
      Count.values_ofFilter dialect hOk, Count.values_ofFilter dialect hOk'⟩

/-- A string that looks like the end of a statement is sent as a value like any other. -/
theorem statements_of_form_eq_quote :
    ∃ args args' : Args, ∃ select select' : Select, args.form = args'.form ∧
      (Select.ofArgs "users" args).run.value = .ok select ∧
      (Select.ofArgs "users" args').run.value = .ok select' ∧
      (select.statement .sqlite).sql = (select'.statement .sqlite).sql ∧
      (select.statement .sqlite).values = [.text "Ada", .int 1, .int 2, .word 20, .word 0] ∧
      (select'.statement .sqlite).values =
        [.text "'; DROP TABLE users; --", .int 1, .int 2, .word 5, .word 10] := by
  let filter := fun operand : Json => Json.obj [
    ("NOT", .obj [("OR", .arr [
      .obj [("name", .obj [("equals", operand)])],
      .obj [("age", .null)]])]),
    ("id", .obj [("in", .arr [])])]
  let args : Args := { skip := 0, take := 20, where? := some (filter (.str "Ada")) }
  let args' : Args :=
    { skip := 10, take := 5, where? := some (filter (.str "'; DROP TABLE users; --")) }
  have hForm : args.form = args'.form := rfl
  obtain ⟨select, hOk⟩ : ∃ select, (Select.ofArgs "users" args).run.value = .ok select := ⟨_, rfl⟩
  obtain ⟨select', hOk'⟩ : ∃ select, (Select.ofArgs "users" args').run.value = .ok select :=
    ⟨_, rfl⟩
  obtain ⟨hText, -, hValues, hValues'⟩ :=
    ((statements_of_form_eq .sqlite "users").1 args args' hForm).2 select select' hOk hOk'
  exact ⟨args, args', select, select', hForm, hOk, hOk', hText, hValues, hValues'⟩

end Sql

end Paging
