import Paging.Proofs.WhereObjects

/-!
# The values that a statement binds

A where-object compares with the values that stand in it: its operands, in the order in which they
are met. A null is not among them, since it has comparisons of its own, and a list without items is
an operand that stands for a comparison of two constants.

The pieces of a statement hold the values of the comparisons in it, one by one
(`Expr.values_pieces`), and the comparisons of a compiled where-object hold what its operands are
bound as (`values_filterCondition`). So the values of a statement are those of the operands, in
their order, and behind them the bounds of the page (`Select.values_statement`).
-/

namespace Paging.Sql

/-! ## Values of pieces -/

/-- The values among pieces. -/
def pieceValues (pieces : List Piece) : List Value :=
  pieces.filterMap fun
    | .text _ => none
    | .value value => some value

@[simp]
theorem pieceValues_nil : pieceValues [] = [] := rfl

@[simp]
theorem pieceValues_text (chars : List Char) (rest : List Piece) :
    pieceValues (.text chars :: rest) = pieceValues rest := rfl

@[simp]
theorem pieceValues_word (text : String) (rest : List Piece) :
    pieceValues (word text :: rest) = pieceValues rest := rfl

@[simp]
theorem pieceValues_value (value : Value) (rest : List Piece) :
    pieceValues (.value value :: rest) = value :: pieceValues rest := rfl

@[simp]
theorem pieceValues_append (first second : List Piece) :
    pieceValues (first ++ second) = pieceValues first ++ pieceValues second :=
  List.filterMap_append

@[simp]
theorem pieceValues_listed (values : List Value) : pieceValues (listed values) = values := by
  induction values with
  | nil => rfl
  | cons value rest ih =>
      cases rest with
      | nil => rfl
      | cons next rest => simp [listed, ih]

@[simp]
theorem pieceValues_parenthesized (bare : Bool) (pieces : List Piece) :
    pieceValues (Expr.parenthesized bare pieces) = pieceValues pieces := by
  cases bare <;> simp [Expr.parenthesized]

/-- The values that a comparison binds. A list without items is written as a comparison of two
constants. -/
def Atom.values : Atom → List Value
  | .isNull _ | .isNotNull _ => []
  | .compare _ _ value => [value]
  | .isIn _ [] => [.int 1, .int 2]
  | .isIn _ values => values

theorem Atom.values_pieces (dialect : Dialect) (a : Atom) :
    pieceValues (a.pieces dialect) = a.values := by
  cases a with
  | isNull column => rfl
  | isNotNull column => rfl
  | compare column relation value => rfl
  | isIn column values =>
      cases values with
      | nil => rfl
      | cons value rest => simp [Atom.pieces, Atom.values]

namespace Expr

/-- The comparisons in an expression, from left to right. -/
def atoms : Expr → List Atom
  | .constant _ => []
  | .atom a => [a]
  | .binary _ left right => left.atoms ++ right.atoms
  | .not expr => expr.atoms

/-- An expression is written with the values of its comparisons. -/
theorem values_pieces (dialect : Dialect) (expr : Expr) :
    pieceValues (expr.pieces dialect) = expr.atoms.flatMap Atom.values := by
  induction expr with
  | constant value => cases value <;> rfl
  | atom a => simp [pieces, atoms, Atom.values_pieces]
  | binary connective left right ihLeft ihRight => simp [pieces, atoms, ihLeft, ihRight]
  | not expr ih => simp [pieces, atoms, ih]

theorem atoms_negatedIf (negated : Bool) (expr : Expr) :
    (negatedIf negated expr).atoms = expr.atoms := by
  cases negated <;> rfl

theorem atoms_foldl_binary (connective : Connective) (first : Expr) (rest : List Expr) :
    (rest.foldl (.binary connective) first).atoms = first.atoms ++ rest.flatMap atoms := by
  induction rest generalizing first with
  | nil => simp
  | cons next rest ih => rw [List.foldl_cons, ih]; simp [atoms]

theorem atoms_fold (connective : Connective) (exprs : List Expr) :
    (fold connective exprs).atoms = exprs.flatMap atoms := by
  cases exprs with
  | nil => rfl
  | cons first rest => exact atoms_foldl_binary connective first rest

mutual

theorem atoms_ofTerm (term : Term) : (ofTerm term).atoms = term.atoms :=
  match term with
  | .atom _ => rfl
  | .group negated connective terms => by
      rw [ofTerm, atoms_negatedIf, atoms_fold, flatMap_atoms_ofTerms terms, Term.atoms]

theorem flatMap_atoms_ofTerms (terms : List Term) :
    (ofTerms terms).flatMap atoms = atomsOfTerms terms :=
  match terms with
  | [] => rfl
  | term :: rest => by
      rw [ofTerms, List.flatMap_cons, atoms_ofTerm term, flatMap_atoms_ofTerms rest, atomsOfTerms]

end

theorem atoms_ofCondition (condition : Condition) :
    (ofCondition condition).atoms = condition.atoms := by
  rw [ofCondition, atoms_negatedIf, atoms_fold, flatMap_atoms_ofTerms, Condition.atoms]

end Expr

/-- The values that a condition binds. -/
def Condition.values (condition : Condition) : List Value := condition.atoms.flatMap Atom.values

theorem Condition.values_ofAtoms (connective : Connective) (atoms : List Atom) :
    (ofAtoms connective atoms).values = atoms.flatMap Atom.values := by
  rw [values, atoms_ofAtoms]

theorem Joint.values_join (joint : Joint) (conditions : List Condition) :
    (joint.join conditions).values = conditions.flatMap Condition.values := by
  have hAtoms : (joint.join conditions).atoms = conditions.flatMap Condition.atoms := by
    cases joint with
    | all => exact Condition.atoms_join .all conditions
    | any => exact Condition.atoms_join .any conditions
    | none => exact Condition.atoms_join .all conditions
  rw [Condition.values, hAtoms, List.flatMap_assoc]
  rfl

/-! ## Operands -/

/-- Whether a value is a list without items. -/
def isEmptyList : Json → Bool
  | .arr [] => true
  | _ => false

theorem isEmptyList_iff {value : Json} : isEmptyList value ↔ value = .arr [] := by
  cases value with
  | arr items => cases items <;> simp [isEmptyList]
  | _ => simp [isEmptyList]

mutual

/-- The operands in a value, in the order in which they are met: scalars other than null, and lists
without items in the place of the operand of `in`. -/
def operands : Json → List Json
  | .null => []
  | .arr items => itemOperands items
  | .obj entries => entryOperands entries
  | scalar => [scalar]

/-- The operands in items. -/
def itemOperands : List Json → List Json
  | [] => []
  | item :: rest => operands item ++ itemOperands rest

/-- The operands in entries. -/
def entryOperands : List (String × Json) → List Json
  | [] => []
  | (key, value) :: rest =>
      (if key = "in" ∧ isEmptyList value then [value] else operands value) ++ entryOperands rest

end

/-- What an operand is bound as: a scalar as its value, a list without items as the constants of a
comparison that fails. -/
def bindings (operand : Json) : List Value :=
  match bound? operand with
  | some value => [value]
  | none => [.int 1, .int 2]

/-- The operands in one entry. -/
def operandsOfEntry (entry : String × Json) : List Json :=
  if entry.1 = "in" ∧ isEmptyList entry.2 then [entry.2] else operands entry.2

theorem itemOperands_eq_flatMap (items : List Json) : itemOperands items = items.flatMap operands := by
  induction items with
  | nil => rfl
  | cons item rest ih => rw [itemOperands, ih, List.flatMap_cons]

theorem entryOperands_eq_flatMap (entries : List (String × Json)) :
    entryOperands entries = entries.flatMap operandsOfEntry := by
  induction entries with
  | nil => rfl
  | cons entry rest ih => rw [entryOperands, ih, List.flatMap_cons, operandsOfEntry]

theorem operandsOfEntry_of_ne {key : String} (hKey : key ≠ "in") (value : Json) :
    operandsOfEntry (key, value) = operands value :=
  if_neg fun h => hKey h.1

/-- A value that is bound is its own operand. -/
theorem operands_of_bound? {value : Json} {bound : Value} (hBound : bound? value = some bound) :
    operands value = [value] ∧ bindings value = [bound] := by
  refine ⟨?_, by rw [bindings, hBound]⟩
  cases value with
  | null => cases hBound
  | arr items => cases hBound
  | obj entries => cases hBound
  | bool b => rfl
  | num n => rfl
  | str s => rfl

/-- Values that are bound one by one are the operands of their list. -/
theorem operands_of_mapM_bound? {items : List Json} {values : List Value}
    (hValues : items.mapM bound? = some values) :
    (items.flatMap operands).flatMap bindings = values := by
  have hSame := Results.flatMap_of_mapM_eq_some hValues
    (fun item value hBound => show [value] = (operands item).flatMap bindings by
      obtain ⟨hOperands, hBindings⟩ := operands_of_bound? hBound
      rw [hOperands, List.flatMap_singleton, hBindings])
  rw [List.flatMap_assoc, ← hSame, List.flatMap_singleton']

/-! ## Values of compiled objects -/

/-- A comparison binds what stands under its operator. -/
theorem values_of_comparison? {column : String} {operator : String × Json} {a : Atom}
    (hSome : comparison? column operator = some a) :
    a.values = (operandsOfEntry operator).flatMap bindings := by
  obtain ⟨key, operand⟩ := operator
  unfold comparison? at hSome
  by_cases hIn : key = "in"
  · subst hIn
    rw [if_pos rfl] at hSome
    obtain ⟨values, hValues, rfl⟩ := Option.map_eq_some_iff.1 hSome
    by_cases hEmpty : isEmptyList operand
    · obtain rfl := isEmptyList_iff.1 hEmpty
      cases hValues
      simp [operandsOfEntry, isEmptyList, bindings, bound?, Atom.values]
    · have hOperands : operandsOfEntry ("in", operand) = (listItems operand).flatMap operands := by
        rw [operandsOfEntry, if_neg fun h => hEmpty h.2]
        cases operand with
        | arr items => exact itemOperands_eq_flatMap items
        | _ => exact (List.flatMap_singleton operands _).symm
      have hItems : listItems operand ≠ [] := by
        intro hNil
        cases operand with
        | arr items => exact hEmpty (isEmptyList_iff.2 (congrArg Json.arr hNil))
        | _ => cases hNil
      obtain ⟨item, rest, hCons⟩ := List.exists_cons_of_ne_nil hItems
      rw [hOperands, operands_of_mapM_bound? hValues]
      rw [hCons] at hValues
      obtain ⟨first, others, -, -, rfl⟩ := Results.mapM_cons_eq_some_iff.1 hValues
      rfl
  · rw [operandsOfEntry_of_ne hIn]
    simp only [hIn, ↓reduceIte, Option.bind_eq_some_iff] at hSome
    obtain ⟨relation, -, hSome⟩ := hSome
    cases operand with
    | null => cases relation <;> cases hSome <;> rfl
    | arr items => cases hSome
    | obj entries => cases hSome
    | bool b => cases hSome; rfl
    | num n => cases hSome; rfl
    | str s => cases hSome; rfl

/-- The operands of a column that compiles are those of its operators. -/
theorem operandsOfEntry_of_columnCondition {column : String} {value : Json} {condition : Condition}
    (hOk : columnCondition column value = .ok condition) :
    operandsOfEntry (column, value) = (operators value).flatMap operandsOfEntry := by
  have hList : ¬isEmptyList value := by
    intro hEmpty
    rw [isEmptyList_iff.1 hEmpty] at hOk
    cases hOk
  rw [operandsOfEntry, if_neg fun h => hList h.2]
  cases value with
  | obj entries => exact entryOperands_eq_flatMap entries
  | _ => simp [operators, operandsOfEntry]

/-- A condition on a column binds what stands under the column. -/
theorem values_of_columnCondition {column : String} {value : Json} {condition : Condition}
    (hOk : columnCondition column value = .ok condition) :
    condition.values = (operandsOfEntry (column, value)).flatMap bindings := by
  rw [operandsOfEntry_of_columnCondition hOk, List.flatMap_assoc]
  rw [columnCondition_eq] at hOk
  obtain ⟨atoms, hAtoms, hEq⟩ := Results.bind_eq_ok_iff.1 hOk
  cases hEq
  rw [Condition.values_ofAtoms]
  refine Results.flatMap_of_mapM_eq_ok hAtoms fun operator a hOperator => ?_
  apply values_of_comparison?
  rw [← toOption_comparison, hOperator]
  rfl

theorem Joint.ne_in_of_ofKey? {key : String} {joint : Joint} (hJoint : ofKey? key = some joint) :
    key ≠ "in" := by
  rintro rfl
  cases hJoint

mutual

/-- **A compiled where-object binds its operands**, in the order in which they stand in it. -/
theorem values_filterCondition (value : Json) {condition : Condition}
    (hOk : filterCondition value = .ok condition) :
    condition.values = (operands value).flatMap bindings :=
  match value with
  | .obj entries => by
      obtain ⟨conditions, hConditions, hEq⟩ := Results.bind_eq_ok_iff.1 hOk
      cases hEq
      rw [operands, ← values_entryConditions entries hConditions]
      exact Joint.values_join .all conditions
  | .null | .bool _ | .num _ | .str _ | .arr _ => by cases hOk

theorem values_entryConditions (entries : List (String × Json)) {conditions : List Condition}
    (hOk : entryConditions entries = .ok conditions) :
    conditions.flatMap Condition.values = (entryOperands entries).flatMap bindings :=
  match entries with
  | [] => by
      cases hOk
      rfl
  | (key, value) :: rest => by
      rw [entryConditions_eq_mapM, List.mapM_cons, ← entryConditions_eq_mapM] at hOk
      obtain ⟨first, hFirst, hRest⟩ := Results.bind_eq_ok_iff.1 hOk
      obtain ⟨others, hOthers, hEq⟩ := Results.bind_eq_ok_iff.1 hRest
      cases hEq
      have hEntry : first.values = (operandsOfEntry (key, value)).flatMap bindings := by
        rw [entryCondition] at hFirst
        cases hJoint : Joint.ofKey? key with
        | none =>
            rw [hJoint] at hFirst
            exact values_of_columnCondition hFirst
        | some joint =>
            rw [hJoint] at hFirst
            obtain ⟨members, hMembers, rfl⟩ := Results.map_eq_ok_iff.1 hFirst
            rw [Joint.values_join, values_memberConditions value hMembers,
              operandsOfEntry_of_ne (Joint.ne_in_of_ofKey? hJoint)]
      rw [List.flatMap_cons, hEntry, values_entryConditions rest hOthers, entryOperands,
        List.flatMap_append, operandsOfEntry]

theorem values_memberConditions (value : Json) {conditions : List Condition}
    (hOk : memberConditions value = .ok conditions) :
    conditions.flatMap Condition.values = (operands value).flatMap bindings :=
  match value with
  | .arr items => by
      rw [operands]
      exact values_itemConditions items hOk
  | .obj entries => by
      obtain ⟨inner, hInner, hEq⟩ := Results.bind_eq_ok_iff.1 hOk
      cases hEq
      rw [List.flatMap_singleton, operands, ← values_entryConditions entries hInner]
      exact Joint.values_join .all inner
  | .null | .bool _ | .num _ | .str _ => by cases hOk

theorem values_itemConditions (items : List Json) {conditions : List Condition}
    (hOk : itemConditions items = .ok conditions) :
    conditions.flatMap Condition.values = (itemOperands items).flatMap bindings :=
  match items with
  | [] => by
      cases hOk
      rfl
  | item :: rest => by
      obtain ⟨first, hFirst, hRest⟩ := Results.bind_eq_ok_iff.1 hOk
      obtain ⟨others, hOthers, hEq⟩ := Results.bind_eq_ok_iff.1 hRest
      cases hEq
      rw [List.flatMap_cons, values_filterCondition item hFirst,
        values_itemConditions rest hOthers, itemOperands, List.flatMap_append]

end

/-! ## Values of statements -/

/-- The operands of a condition that may be absent. -/
def whereOperands : Option Json → List Json
  | none => []
  | some value => operands value

theorem values_whereClause (dialect : Dialect) {filter : Option Json} {where? : Option Condition}
    (hOk : whereCondition filter = .ok where?) :
    pieceValues (whereClause dialect where?) = (whereOperands filter).flatMap bindings := by
  cases filter with
  | none =>
      cases hOk
      rfl
  | some value =>
      obtain ⟨condition, hCondition, rfl⟩ := Results.map_eq_ok_iff.1 hOk
      rw [whereClause, pieceValues_word, Expr.values_pieces, Expr.atoms_ofCondition, whereOperands,
        ← values_filterCondition value hCondition, Condition.values]

/-- A query for records binds the values of its condition, and behind them how many records it takes
and how many it skips. -/
theorem Select.values_statement_eq_append (dialect : Dialect) (select : Select) :
    (select.statement dialect).values =
      pieceValues (whereClause dialect select.where?) ++
        [.word select.limit, .word select.offset] := by
  have hOrder : pieceValues (orderClause dialect select.order) = [] := by
    unfold orderClause
    split <;> rfl
  show pieceValues (select.statement dialect).pieces = _
  simp [Select.statement, hOrder]

/-- The values of its condition are its operands. -/
theorem Select.values_statement (dialect : Dialect) {select : Select} {filter : Option Json}
    (hOk : whereCondition filter = .ok select.where?) :
    (select.statement dialect).values =
      (whereOperands filter).flatMap bindings ++ [.word select.limit, .word select.offset] := by
  rw [Select.values_statement_eq_append, values_whereClause dialect hOk]

/-- A query for a number binds its operands. -/
theorem Count.values_statement (dialect : Dialect) {count : Count} {filter : Option Json}
    (hOk : whereCondition filter = .ok count.where?) :
    (count.statement dialect).values = (whereOperands filter).flatMap bindings := by
  show pieceValues (count.statement dialect).pieces = _
  simp [Count.statement, values_whereClause dialect hOk]

/-- What becomes of a query does not depend on whether an inclusion is noted. -/
theorem Select.value_ofArgs (model : String) (args : Args) :
    (Select.ofArgs model args).run.value = (do
      let columns ← selectedColumns args.select?
      let where? ← whereCondition args.where?
      let order ← orderPairs args.orderBy?
      return { model, columns, where?, order, limit := args.take, offset := args.skip }) := by
  unfold Select.ofArgs
  cases selectedColumns args.select? with
  | error e => rfl
  | ok columns =>
      cases args.include? <;> cases whereCondition args.where? <;>
        cases orderPairs args.orderBy? <;> rfl

/-- A query for records has the condition and the order of its arguments, and the bounds of their
page, and is about the model. -/
theorem Select.of_ofArgs_eq_ok {model : String} {args : Args} {select : Select}
    (hOk : (Select.ofArgs model args).run.value = .ok select) :
    whereCondition args.where? = .ok select.where? ∧ orderPairs args.orderBy? = .ok select.order ∧
      select.limit = args.take ∧ select.offset = args.skip ∧ select.model = model := by
  rw [Select.value_ofArgs] at hOk
  obtain ⟨columns, -, hOk⟩ := Results.bind_eq_ok_iff.1 hOk
  obtain ⟨where?, hWhere, hOk⟩ := Results.bind_eq_ok_iff.1 hOk
  obtain ⟨order, hOrder, hOk⟩ := Results.bind_eq_ok_iff.1 hOk
  cases hOk
  exact ⟨hWhere, hOrder, rfl, rfl, rfl⟩

/-- A query for a number has the given condition and is about the model. -/
theorem Count.of_ofFilter_eq_ok {model : String} {filter : Option Json} {count : Count}
    (hOk : Count.ofFilter model filter = .ok count) :
    whereCondition filter = .ok count.where? ∧ count.model = model := by
  obtain ⟨where?, hWhere, hOk⟩ := Results.bind_eq_ok_iff.1 hOk
  cases hOk
  exact ⟨hWhere, rfl⟩

/-- The statement for records binds the operands of its arguments, and the bounds of their page. -/
theorem Select.values_ofArgs (dialect : Dialect) {model : String} {args : Args} {select : Select}
    (hOk : (Select.ofArgs model args).run.value = .ok select) :
    (select.statement dialect).values =
      (whereOperands args.where?).flatMap bindings ++ [.word args.take, .word args.skip] := by
  obtain ⟨hWhere, -, hLimit, hOffset, -⟩ := Select.of_ofArgs_eq_ok hOk
  rw [Select.values_statement dialect hWhere, hLimit, hOffset]

/-- The statement for a number binds the operands of its condition. -/
theorem Count.values_ofFilter (dialect : Dialect) {model : String} {filter : Option Json}
    {count : Count} (hOk : Count.ofFilter model filter = .ok count) :
    (count.statement dialect).values = (whereOperands filter).flatMap bindings :=
  Count.values_statement dialect (Count.of_ofFilter_eq_ok hOk).1

end Paging.Sql
