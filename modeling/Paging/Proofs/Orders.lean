import Paging.Proofs.Acceptance
import Paging.Proofs.PlanLayers
import Paging.Proofs.Validity

/-!
# Orders

An order is a list of objects whose entries name columns with their directions, in any letter case
(`Orders`). The entries that sort tokens ask for are an order by themselves (`orders_specs`), and
orders one after the other are an order again (`Orders.append`). So behind an order that the store
accepts, sort tokens are accepted as well, and behind a value that it refuses they change nothing
(`ofArgs_orders_by_tokens`).
-/

namespace Paging.Sql

/-! ## Entries -/

/-- The value is the word for the direction, in any letter case. -/
def NamesDirection (value : Json) (direction : Sort.Direction) : Prop :=
  ∃ word : String, value = .str word ∧ word.toList.map Char.toLower = direction.word.toList

/-- The entry names the column with its direction. -/
structure NamesPair (entry : String × Json) (pair : String × Sort.Direction) : Prop where
  column : entry.1 = pair.1
  direction : NamesDirection entry.2 pair.2

theorem direction?_eq_some_iff {value : Json} {direction : Sort.Direction} :
    direction? value = some direction ↔ NamesDirection value direction := by
  constructor
  · intro hSome
    cases value with
    | str word =>
        refine ⟨word, rfl, ?_⟩
        unfold direction? at hSome
        dsimp only at hSome
        split at hSome
        · rename_i hWord
          cases hSome
          exact beq_iff_eq.1 hWord
        · split at hSome
          · rename_i hWord
            cases hSome
            exact beq_iff_eq.1 hWord
          · cases hSome
    | _ => cases hSome
  · intro h
    obtain ⟨word, rfl, hWord⟩ := h
    cases direction <;> simp [direction?, Text.sameWord, hWord, Sort.Direction.word]

theorem orderPair_eq_ok_iff {entry : String × Json} {pair : String × Sort.Direction} :
    orderPair entry = .ok pair ↔ NamesPair entry pair := by
  obtain ⟨column, direction⟩ := pair
  unfold orderPair
  constructor
  · intro hOk
    split at hOk
    · rename_i hDirection
      cases hOk
      exact ⟨rfl, direction?_eq_some_iff.1 hDirection⟩
    · cases hOk
  · intro hNames
    obtain ⟨rfl, hDirection⟩ := hNames
    rw [direction?_eq_some_iff.2 hDirection]

theorem decides_orderPair (entry : String × Json) :
    Decides (∃ direction, NamesDirection entry.2 direction) (orderPair entry) := by
  unfold orderPair
  cases hDirection : direction? entry.2 with
  | some direction => exact .of_ok ⟨direction, direction?_eq_some_iff.1 hDirection⟩ _
  | none =>
      refine .of_unsupported (fun h => ?_) _
      obtain ⟨direction, hNames⟩ := h
      cases hDirection.symm.trans (direction?_eq_some_iff.2 hNames)

theorem objectEntries_eq_ok_iff {value : Json} {entries : List (String × Json)} :
    objectEntries value = .ok entries ↔ value = .obj entries := by
  cases value <;> simp [objectEntries]

theorem decides_objectEntries (value : Json) :
    Decides (∃ entries, value = .obj entries) (objectEntries value) := by
  cases value with
  | obj entries => exact .of_ok ⟨entries, rfl⟩ entries
  | _ => exact .of_unsupported nofun _

/-! ## Orders -/

/-- The values are objects, and their entries name the columns with their directions, one object
after the other. -/
def Orders (items : List Json) (pairs : List (String × Sort.Direction)) : Prop :=
  ∃ objects : List (List (String × Json)), items = objects.map .obj ∧
    List.Forall₂ NamesPair objects.flatten pairs

/-- The value is an object that gives every key a direction. -/
def IsOrder (item : Json) : Prop :=
  ∃ entries, item = .obj entries ∧ ∀ entry ∈ entries, ∃ direction, NamesDirection entry.2 direction

theorem Orders.append {items more : List Json} {pairs others : List (String × Sort.Direction)}
    (hItems : Orders items pairs) (hMore : Orders more others) :
    Orders (items ++ more) (pairs ++ others) := by
  obtain ⟨objects, rfl, hPairs⟩ := hItems
  obtain ⟨further, rfl, hOthers⟩ := hMore
  refine ⟨objects ++ further, (List.map_append ..).symm, ?_⟩
  rw [List.flatten_append]
  exact List.rel_append hPairs hOthers

/-- The entries of sort tokens name the fields with their directions. -/
theorem orders_specs (specs : List Sort.Spec) :
    Orders (specs.map Sort.Spec.toJson) (specs.map fun spec => (spec.field, spec.direction)) := by
  induction specs with
  | nil => exact ⟨[], rfl, .nil⟩
  | cons spec rest ih =>
      have hLower : spec.direction.word.toList.map Char.toLower = spec.direction.word.toList := by
        cases spec.direction <;> decide
      have hSpec : Orders [spec.toJson] [(spec.field, spec.direction)] :=
        ⟨[[(spec.field, .str spec.direction.word)]], rfl, .cons ⟨rfl, _, rfl, hLower⟩ .nil⟩
      exact hSpec.append ih

/-- An order with an object alone is the order with the list of that object. -/
theorem orderPairs_eq (orderBy : Option Json) : orderPairs orderBy = (do
    let objects ← (orderBy.elim [] listItems).mapM objectEntries
    objects.flatten.mapM orderPair) := by
  cases orderBy with
  | none => rfl
  | some value => cases value <;> rfl

theorem orderPairs_eq_ok_iff {orderBy : Option Json} {pairs : List (String × Sort.Direction)} :
    orderPairs orderBy = .ok pairs ↔ Orders (orderBy.elim [] listItems) pairs := by
  rw [orderPairs_eq, Results.bind_eq_ok_iff]
  refine exists_congr fun objects => and_congr ?_ ?_
  · rw [Results.mapM_eq_ok_iff fun _ _ => objectEntries_eq_ok_iff, ← List.forall₂_map_right_iff,
      List.forall₂_eq_eq_eq]
  · exact Results.mapM_eq_ok_iff fun _ _ => orderPair_eq_ok_iff

/-- Values are an order together exactly if each of them is one. -/
theorem exists_orders_iff {items : List Json} :
    (∃ pairs, Orders items pairs) ↔ ∀ item ∈ items, IsOrder item := by
  constructor
  · intro h item hMem
    obtain ⟨pairs, objects, rfl, hPairs⟩ := h
    obtain ⟨entries, hEntries, rfl⟩ := List.mem_map.1 hMem
    refine ⟨entries, rfl, fun entry hEntry => ?_⟩
    obtain ⟨pair, hPair⟩ := Results.exists_forall₂_iff.1 ⟨pairs, hPairs⟩ entry
      (List.mem_flatten.2 ⟨entries, hEntries, hEntry⟩)
    exact ⟨pair.2, hPair.direction⟩
  · intro hItems
    induction items with
    | nil => exact ⟨[], [], rfl, .nil⟩
    | cons item rest ih =>
        obtain ⟨others, hOthers⟩ :=
          ih fun other hMem => hItems other (List.mem_cons_of_mem item hMem)
        obtain ⟨entries, rfl, hEntries⟩ := hItems item List.mem_cons_self
        have hPairs : ∀ entry ∈ entries, ∃ pair, NamesPair entry pair := by
          intro entry hEntry
          obtain ⟨direction, hDirection⟩ := hEntries entry hEntry
          exact ⟨(entry.1, direction), rfl, hDirection⟩
        obtain ⟨pairs, hFirst⟩ := Results.exists_forall₂_iff.2 hPairs
        have hObject : Orders [.obj entries] pairs := ⟨[entries], rfl, by simpa using hFirst⟩
        exact ⟨pairs ++ others, hObject.append hOthers⟩

theorem decides_orderPairs (orderBy : Option Json) :
    Decides (∀ item ∈ orderBy.elim [] listItems, IsOrder item) (orderPairs orderBy) := by
  have hDecides : Decides (∃ pairs, orderPairs orderBy = .ok pairs) (orderPairs orderBy) := by
    rw [orderPairs_eq]
    exact (Decides.mapM fun item _ => decides_objectEntries item).bind_self fun _ =>
      Decides.mapM fun entry _ => decides_orderPair entry
  refine hDecides.congr ?_
  simp only [orderPairs_eq_ok_iff]
  exact exists_orders_iff

/-! ## Statements -/

theorem decides_selectedColumns (selection : Option Json) :
    Decides (∃ columns, selectedColumns selection = .ok columns) (selectedColumns selection) := by
  cases selection with
  | none => exact .of_ok ⟨[], rfl⟩ []
  | some value => exact (decides_objectEntries value).bind_self fun _ => .of_ok trivial _

theorem decides_whereCondition (filter : Option Json) :
    Decides (∃ where?, whereCondition filter = .ok where?) (whereCondition filter) := by
  cases filter with
  | none => exact .of_ok ⟨none, rfl⟩ none
  | some value => exact (decides_filterCondition value).map.self

/-- A query for records needs a selection, a condition and an order that the store accepts. -/
theorem Select.decides_ofArgs (model : String) (args : Args) :
    Decides ((∃ columns, selectedColumns args.select? = .ok columns) ∧
        (∃ where?, whereCondition args.where? = .ok where?) ∧
        ∀ item ∈ args.orderBy?.elim [] listItems, IsOrder item)
      (Select.ofArgs model args).run.value := by
  rw [Select.value_ofArgs]
  exact (decides_selectedColumns args.select?).bind fun _ =>
    (decides_whereCondition args.where?).bind fun _ => (decides_orderPairs args.orderBy?).map

/-- **Sort tokens are the end of the order.** A valid request with sort tokens is planned. Behind
the caller's order, if the store accepts it, come the fields of the distinct tokens with their
directions, as the plan reports them; the query is then accepted as far as its selection and its
condition are. If some value of the caller's is no order, the query is unsupported, whatever the
tokens say. -/
theorem ofArgs_orders_by_tokens (model : String) (params : Params) {request : Request}
    {settings : Settings} (hValid : request.Valid settings) (hTokens : request.sort.getD [] ≠ []) :
    ∃ plan specs, (Plan.make request params settings).run.value = .ok plan ∧
      plan.sort? = some specs ∧
      List.Forall₂ Sort.Spells (request.sort.getD []).eraseDups specs ∧
      (∀ pairs, orderPairs params.orderBy? = .ok pairs ↔
        Orders (params.orderBy?.elim [] listItems) pairs) ∧
      (∀ pairs, orderPairs params.orderBy? = .ok pairs →
        ((∃ select, (Select.ofArgs model plan.args).run.value = .ok select) ↔
          (∃ columns, selectedColumns params.select? = .ok columns) ∧
            ∃ where?, whereCondition plan.args.where? = .ok where?) ∧
        ∀ select, (Select.ofArgs model plan.args).run.value = .ok select →
          select.order = pairs ++ specs.map fun spec => (spec.field, spec.direction)) ∧
      ((∃ item ∈ params.orderBy?.elim [] listItems, ¬IsOrder item) →
        ∃ message, (Select.ofArgs model plan.args).run.value = .error (.unsupported message)) := by
  obtain ⟨plan, hPlan⟩ := (Plan.judges_make request params settings).ok_iff.2 hValid
  obtain ⟨_, _, _, hStages⟩ := Plan.exists_stages (Results.run_eq_of_value_eq hPlan)
  rcases Plan.order_eq_ok_iff.1 hStages.order with ⟨hNil, -⟩ | ⟨-, specs, hSpecs, hSort, hOrderBy⟩
  · exact absurd hNil hTokens
  have hItems : plan.args.orderBy?.elim [] listItems =
      params.orderBy?.elim [] listItems ++ specs.map Sort.Spec.toJson := by
    rw [hOrderBy, Plan.appendOrder_eq]
    rfl
  have hDecides := Select.decides_ofArgs model plan.args
  rw [hItems, hStages.selection] at hDecides
  refine ⟨plan, specs, hPlan, hSort, Sort.parseAll_eq_ok_iff.1 hSpecs,
    fun _ => orderPairs_eq_ok_iff, ?_, ?_⟩
  · intro pairs hPairs
    have hBoth := (orderPairs_eq_ok_iff.1 hPairs).append (orders_specs specs)
    refine ⟨hDecides.exists_ok_iff.trans ?_, ?_⟩
    · rw [and_iff_left (exists_orders_iff.1 ⟨_, hBoth⟩)]
    · intro select hOk
      have hOrdered := (Select.of_ofArgs_eq_ok hOk).2.1
      rw [← hItems] at hBoth
      exact Except.ok.inj (hOrdered.symm.trans (orderPairs_eq_ok_iff.2 hBoth))
  · intro h
    obtain ⟨item, hMem, hNot⟩ := h
    exact hDecides.exists_unsupported fun hAll =>
      hNot (hAll.2.2 item (List.mem_append_left _ hMem))

/-- A token that is repeated, a caller's direction in mixed letter case, and a word that is no
direction. -/
theorem ofArgs_orders_by_tokens_name :
    let request : Request := { sort := some ["name=asc", "age=DESC", "name=asc"] }
    (∃ plan select, (Plan.make request
        { orderBy? := some (.obj [("id", .str "Asc")]) } {}).run.value = .ok plan ∧
      (Select.ofArgs "users" plan.args).run.value = .ok select ∧
      select.order = [("id", .asc), ("name", .asc), ("age", .desc)]) ∧
    ∃ plan message, (Plan.make request
        { orderBy? := some (.arr [.obj [], .obj [("id", .str "up")]]) } {}).run.value = .ok plan ∧
      (Select.ofArgs "users" plan.args).run.value = .error (.unsupported message) := by
  intro request
  have hSort : ∀ token ∈ ["name=asc", "age=DESC", "name=asc"], Sort.IsToken token := by
    have hName : Sort.IsToken "name=asc" := ⟨⟨"name", .asc⟩, Sort.parse_eq_ok_iff.1 rfl⟩
    have hAge : Sort.IsToken "age=DESC" := ⟨⟨"age", .desc⟩, Sort.parse_eq_ok_iff.1 rfl⟩
    exact List.forall_mem_cons.2
      ⟨hName, List.forall_mem_cons.2 ⟨hAge, List.forall_mem_singleton.2 hName⟩⟩
  have hValid : request.Valid {} := ⟨by decide, by decide, nofun, nofun, hSort⟩
  have hTokens : request.sort.getD [] ≠ [] := List.cons_ne_nil _ _
  constructor
  · let params : Params := { orderBy? := some (.obj [("id", .str "Asc")]) }
    obtain ⟨plan, specs, hPlan, hSpecs, -, -, hAccepted, -⟩ :=
      ofArgs_orders_by_tokens "users" params hValid hTokens
    cases (show (Plan.make request params {}).run.value = .ok _ from rfl).symm.trans hPlan
    cases hSpecs
    obtain ⟨hSelect, hOrder⟩ := hAccepted [("id", .asc)] rfl
    obtain ⟨select, hOk⟩ := hSelect.2 ⟨⟨[], rfl⟩, ⟨none, rfl⟩⟩
    exact ⟨_, select, hPlan, hOk, hOrder select hOk⟩
  · let params : Params := { orderBy? := some (.arr [.obj [], .obj [("id", .str "up")]]) }
    obtain ⟨plan, -, hPlan, -, -, -, -, hRefused⟩ :=
      ofArgs_orders_by_tokens "users" params hValid hTokens
    have hNot : ¬IsOrder (.obj [("id", .str "up")]) := by
      intro hOrder
      obtain ⟨entries, hEntries, hDirections⟩ := hOrder
      cases hEntries
      obtain ⟨direction, word, hWord, hLower⟩ := hDirections ("id", .str "up") List.mem_cons_self
      cases hWord
      cases direction <;> exact absurd hLower (by decide)
    obtain ⟨message, hError⟩ :=
      hRefused ⟨.obj [("id", .str "up")], List.mem_cons_of_mem _ List.mem_cons_self, hNot⟩
    exact ⟨plan, message, hPlan, hError⟩

end Paging.Sql
