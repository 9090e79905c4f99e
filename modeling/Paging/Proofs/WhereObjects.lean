import Paging.Proofs.Columns

/-!
# What where-objects say

`meaning?` says what a where-object means, from the values of its comparisons and by nothing but
connectives: there are no conditions, no brackets and no errors in it. An object says all that its
entries say. `AND`, `OR` and `NOT` join what the objects below them say, and one object may stand
for an array of one. Every other key is a column, with operators that all have to hold.

An object has a meaning exactly if it compiles, and then the condition that it compiles to has this
value (`toOption_filterCondition`), and so has the expression in which the condition is written
(`truth_filterCondition`).
-/

namespace Paging.Sql

/-! ## Columns -/

/-- The operators that compare with one value. -/
def relations : List (String × Relation) :=
  [("equals", .eq), ("NOT", .ne), ("not", .ne), ("gt", .gt), ("gte", .gte), ("lt", .lt),
    ("lte", .lte)]

/-- What a value is bound as, if it is neither null nor made of other values. -/
def bound? : Json → Option Value
  | .bool b => some (.bool b)
  | .num n => some (ofNumber n)
  | .str s => some (.text s)
  | _ => none

/-- The comparison with null, which has no order. -/
def nullComparison? (column : String) : Relation → Option Atom
  | .eq => some (.isNull column)
  | .ne => some (.isNotNull column)
  | _ => none

/-- The items of a list; a single value is a list of one. -/
def listItems : Json → List Json
  | .arr items => items
  | item => [item]

/-- The comparison that an operator on a column makes. -/
def comparison? (column : String) (operator : String × Json) : Option Atom :=
  if operator.1 = "in" then ((listItems operator.2).mapM bound?).map (.isIn column)
  else (relations.lookup operator.1).bind fun relation =>
    if operator.2.isNull then nullComparison? column relation
    else (bound? operator.2).map (.compare column relation)

/-- The operators on a column; a value without operators is one to be equal to. -/
def operators : Json → List (String × Json)
  | .obj entries => entries
  | value => [("equals", value)]

/-! ## Objects -/

section Meaning

variable (interp : Atom → Truth)

/-- What a value says about a column: all that its operators say. -/
def columnMeaning? (column : String) (value : Json) : Option Truth :=
  ((operators value).mapM fun operator => (comparison? column operator).map interp).map Truth.all

mutual

/-- What a where-object says: all that its entries say. -/
def meaning? : Json → Option Truth
  | .obj entries => (entryMeanings? entries).map Truth.all
  | _ => none

/-- What each entry of an object says. -/
def entryMeanings? : List (String × Json) → Option (List Truth)
  | [] => some []
  | (key, value) :: rest => do
      let first ←
        if key = "AND" then (memberMeanings? value).map Truth.all
        else if key = "OR" then (memberMeanings? value).map Truth.any
        else if key = "NOT" then (memberMeanings? value).map fun members => (Truth.all members).not
        else columnMeaning? interp key value
      return first :: (← entryMeanings? rest)

/-- What each object of an array says; a single object is an array of one. -/
def memberMeanings? : Json → Option (List Truth)
  | .arr items => itemMeanings? items
  | .obj entries => (entryMeanings? entries).map fun values => [Truth.all values]
  | _ => none

/-- What each item of an array says. -/
def itemMeanings? : List Json → Option (List Truth)
  | [] => some []
  | item :: rest => do return (← meaning? item) :: (← itemMeanings? rest)

end

end Meaning

/-! ## Compiled columns -/

theorem toOption_scalar (value : Json) : (scalar value).toOption = bound? value := by
  cases value <;> rfl

theorem toOption_listValues (value : Json) :
    (listValues value).toOption = (listItems value).mapM bound? := by
  have hScalar : (fun item => (scalar item).toOption) = bound? := funext toOption_scalar
  cases value with
  | arr items =>
      rw [listValues, listItems, Results.toOption_mapM, hScalar]
  | _ => rfl

/-- An operator compiles to the comparison that it makes. -/
theorem toOption_comparison (column : String) (operator : String × Json) :
    (comparison column operator.1 operator.2).toOption = comparison? column operator := by
  obtain ⟨key, operand⟩ := operator
  by_cases hIn : key = "in"
  · subst hIn
    show ((listValues operand).map (Atom.isIn column)).toOption =
      ((listItems operand).mapM bound?).map (.isIn column)
    rw [← toOption_listValues]
    cases listValues operand <;> rfl
  by_cases hKnown : key ∈ relations.map Prod.fst
  · simp only [relations, List.map_cons, List.map_nil, List.mem_cons, List.not_mem_nil,
      or_false] at hKnown
    rcases hKnown with rfl | rfl | rfl | rfl | rfl | rfl | rfl <;> cases operand <;> rfl
  · have hLookup : relations.lookup key = none := by
      rw [List.lookup_eq_none_iff]
      intro entry hMem
      have hNe : key ≠ entry.1 := fun hEq => hKnown (hEq ▸ List.mem_map_of_mem hMem)
      simpa using hNe
    simp only [relations, List.map_cons, List.map_nil, List.mem_cons, List.not_mem_nil, or_false,
      not_or] at hKnown
    obtain ⟨hEq, hNe, hNot, hGt, hGte, hLt, hLte⟩ := hKnown
    simp only [comparison, comparison?, hLookup, hEq, hNe, hNot, hGt, hGte, hLt, hLte, hIn, or_self,
      ↓reduceIte, Option.bind_none]
    split <;> rfl

/-- A value without operators compiles as it would under `equals`. -/
theorem columnCondition_eq (column : String) (value : Json) :
    columnCondition column value = (do
      let atoms ← (operators value).mapM fun operator => comparison column operator.1 operator.2
      return .ofAtoms .all atoms) := by
  have hBare : ∀ bare, (do return .ofAtoms .all [← equals column bare] :
      Except QueryError Condition) = (do
        let atoms ← [("equals", bare)].mapM fun operator => comparison column operator.1 operator.2
        return .ofAtoms .all atoms) := by
    intro bare
    rw [List.mapM_cons, List.mapM_nil]
    show _ = (equals column bare >>= _) >>= _
    cases equals column bare <;> rfl
  cases value with
  | obj entries => rfl
  | _ => exact hBare _

/-- The condition on a column has the value of what is said about the column. -/
theorem toOption_columnCondition (interp : Atom → Truth) (column : String) (value : Json) :
    (columnCondition column value).toOption.map (Condition.truth interp) =
      columnMeaning? interp column value := by
  have hAtoms : (fun operator : String × Json =>
      (comparison column operator.1 operator.2).toOption) = comparison? column :=
    funext (toOption_comparison column)
  rw [columnCondition_eq, Results.toOption_bind_pure, Results.toOption_mapM, hAtoms, columnMeaning?,
    Results.mapM_map_eq, Option.map_map, Option.map_map]
  refine congrArg (Option.map · _) (funext fun atoms => ?_)
  exact Condition.truth_ofAtoms interp .all atoms

/-! ## Compiled objects -/

/-- What a joint makes of what the objects below it say. -/
def Joint.joined : Joint → List Truth → Truth
  | .all => Truth.all
  | .any => Truth.any
  | .none => fun members => (Truth.all members).not

theorem Joint.truth_join (interp : Atom → Truth) (joint : Joint) (conditions : List Condition) :
    (joint.join conditions).truth interp =
      joint.joined (conditions.map (Condition.truth interp)) := by
  cases joint with
  | all => exact Condition.truth_join interp .all conditions
  | any => exact Condition.truth_join interp .any conditions
  | none =>
      show (Condition.truth interp (Condition.join .all conditions)).not = _
      rw [Condition.truth_join]
      rfl

section Compile

variable (interp : Atom → Truth)

/-- Under a key that joins objects, what the objects say is joined. -/
theorem toOption_map_join (joint : Joint) (result : Except QueryError (List Condition)) :
    (result.map joint.join).toOption.map (Condition.truth interp) =
      (result.toOption.map (List.map (Condition.truth interp))).map joint.joined := by
  cases result with
  | error error => rfl
  | ok conditions => exact congrArg some (Joint.truth_join interp joint conditions)

/-- An entry joins what the objects below its key say, or says what its column does. -/
theorem toOption_entryCondition (key : String) (value : Json) :
    (entryCondition (key, value)).toOption.map (Condition.truth interp) =
      let members := (memberConditions value).toOption.map (List.map (Condition.truth interp))
      if key = "AND" then members.map Truth.all
      else if key = "OR" then members.map Truth.any
      else if key = "NOT" then members.map fun values => (Truth.all values).not
      else columnMeaning? interp key value := by
  rw [entryCondition, Joint.ofKey?]
  dsimp only
  split_ifs
  · exact toOption_map_join interp .all (memberConditions value)
  · exact toOption_map_join interp .any (memberConditions value)
  · exact toOption_map_join interp .none (memberConditions value)
  · exact toOption_columnCondition interp key value

theorem toOption_cons (first : Except QueryError Condition)
    (rest : Except QueryError (List Condition)) :
    (do return (← first) :: (← rest) : Except QueryError (List Condition)).toOption.map
        (List.map (Condition.truth interp)) = (do
      return (← first.toOption.map (Condition.truth interp)) ::
        (← rest.toOption.map (List.map (Condition.truth interp)))) := by
  cases first <;> cases rest <;> rfl

mutual

/-- A where-object has a meaning exactly if it compiles, and then the condition has this value. -/
theorem toOption_filterCondition (value : Json) :
    (filterCondition value).toOption.map (Condition.truth interp) = meaning? interp value :=
  match value with
  | .obj entries => by
      rw [filterCondition, meaning?, ← toOption_entryConditions entries]
      exact toOption_map_join interp .all (entryConditions entries)
  | .null | .bool _ | .num _ | .str _ | .arr _ => rfl

theorem toOption_entryConditions (entries : List (String × Json)) :
    (entryConditions entries).toOption.map (List.map (Condition.truth interp)) =
      entryMeanings? interp entries :=
  match entries with
  | [] => rfl
  | (key, value) :: rest => by
      rw [entryConditions_eq_mapM, List.mapM_cons, ← entryConditions_eq_mapM, toOption_cons,
        toOption_entryCondition, entryMeanings?, toOption_memberConditions value,
        toOption_entryConditions rest]
      dsimp only
      split_ifs <;> rfl

theorem toOption_memberConditions (value : Json) :
    (memberConditions value).toOption.map (List.map (Condition.truth interp)) =
      memberMeanings? interp value :=
  match value with
  | .arr items => by
      rw [memberConditions, memberMeanings?, toOption_itemConditions items]
  | .obj entries => by
      rw [memberConditions, memberMeanings?, ← toOption_entryConditions entries]
      cases entryConditions entries with
      | error error => rfl
      | ok conditions =>
          exact congrArg (fun value => some [value]) (Condition.truth_join interp .all conditions)
  | .null | .bool _ | .num _ | .str _ => rfl

theorem toOption_itemConditions (items : List Json) :
    (itemConditions items).toOption.map (List.map (Condition.truth interp)) =
      itemMeanings? interp items :=
  match items with
  | [] => rfl
  | item :: rest => by
      rw [itemConditions, itemMeanings?, ← toOption_filterCondition item,
        ← toOption_itemConditions rest]
      exact toOption_cons interp (filterCondition item) (itemConditions rest)

end

end Compile

/-- **A condition means what its where-object says**, and so does the expression in which it is
written, whichever comparisons hold. -/
theorem filterCondition_says {value : Json} {condition : Condition}
    (hOk : filterCondition value = .ok condition) (interp : Atom → Truth) :
    meaning? interp value = some (condition.truth interp) ∧
      meaning? interp value = some ((Expr.ofCondition condition).truth interp) := by
  have hMeaning : meaning? interp value = some (condition.truth interp) := by
    rw [← toOption_filterCondition, hOk]
    rfl
  refine ⟨hMeaning, ?_⟩
  rw [hMeaning, Expr.truth_ofCondition]

/-- Records with a number in a list of one that are neither of age nor named. -/
theorem filterCondition_says_nested :
    ∃ condition, filterCondition (.obj [
        ("NOT", .obj [("OR", .arr [
          .obj [("age", .obj [("gte", .num (.int 18))])],
          .obj [("name", .obj [("NOT", .null)])]])]),
        ("id", .obj [("in", .num (.int 7))])]) = .ok condition ∧
      ∀ interp, (Expr.ofCondition condition).truth interp =
        ((interp (.compare "age" .gte (.bigInt 18))).or (interp (.isNotNull "name"))).not.and
          (interp (.isIn "id" [.bigInt 7])) := by
  let value : Json := .obj [
    ("NOT", .obj [("OR", .arr [
      .obj [("age", .obj [("gte", .num (.int 18))])],
      .obj [("name", .obj [("NOT", .null)])]])]),
    ("id", .obj [("in", .num (.int 7))])]
  obtain ⟨condition, hOk⟩ : ∃ condition, filterCondition value = .ok condition := ⟨_, rfl⟩
  refine ⟨condition, hOk, ?_⟩
  intro interp
  obtain ⟨-, hWritten⟩ := filterCondition_says hOk interp
  have hMeaning : meaning? interp value = some (Truth.all [
      (Truth.all [Truth.all [Truth.any [
        Truth.all [Truth.all [interp (.compare "age" .gte (.bigInt 18))]],
        Truth.all [Truth.all [interp (.isNotNull "name")]]]]]).not,
      Truth.all [interp (.isIn "id" [.bigInt 7])]]) := rfl
  rw [← Option.some.inj (hMeaning.symm.trans hWritten)]
  simp [Truth.all, Truth.any]

end Paging.Sql
