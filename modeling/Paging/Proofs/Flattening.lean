import Paging.Proofs.FlatFilters

/-!
# Clauses can be read off their JSON

Keys of clauses, names of relations, operators and the words `is` and `AND` share the keys of one
tree of objects, and nothing keeps a field from being called `is`. Still no two clauses that compare
with literals become the same object (`toJson_tells_clauses_apart`): what stands under a key is a
literal for an equality, an object with keys of operators for other comparisons, and an object with
the key `is`, which no operator has, for related records; below `is` only a list of clauses makes
`AND` the key of an array.

The statements are about equal values, and about values that compare as equal, which leaves the sign
of a zero open.
-/

namespace Paging

/-! ## The sign of a zero -/

/-- Without the sign of a zero. -/
def Number.unsigned : Number → Number
  | .int n => .int n
  | .float x => .float (if x.isZero then .zero false else x)

mutual

/-- A value with none of its zeros negative. -/
def Json.unsigned : Json → Json
  | .null => .null
  | .bool b => .bool b
  | .num n => .num n.unsigned
  | .str s => .str s
  | .arr items => .arr (unsignedItems items)
  | .obj entries => .obj (unsignedEntries entries)

def Json.unsignedItems : List Json → List Json
  | [] => []
  | item :: rest => item.unsigned :: unsignedItems rest

def Json.unsignedEntries : List (String × Json) → List (String × Json)
  | [] => []
  | (key, value) :: rest => (key, value.unsigned) :: unsignedEntries rest

end

/-- Values that compare as equal: numbers are compared, so that neither zero is told from the
other. -/
def Json.Same (first second : Json) : Prop := first.unsigned = second.unsigned

theorem Json.unsignedEntries_eq_map (entries : List (String × Json)) :
    unsignedEntries entries = entries.map fun entry => (entry.1, entry.2.unsigned) := by
  induction entries with
  | nil => rfl
  | cons entry rest ih => rw [unsignedEntries, ih, List.map_cons]

namespace Filter

open Paging.Keyed

/-- The condition with none of its zeros negative. -/
def Condition.unsigned : Condition → Condition
  | .equals value => .equals value.unsigned
  | .operators entries => .operators (entries.map fun entry => (entry.1, entry.2.unsigned))

mutual

/-- A node with none of its zeros negative. -/
def Node.unsigned : Node → Node
  | .condition leaf => .condition leaf.unsigned
  | .related clause => .related (entriesUnsigned clause)
  | .relatedAll clauses => .relatedAll (clausesUnsigned clauses)

def entriesUnsigned : List (String × Node) → List (String × Node)
  | [] => []
  | (key, node) :: rest => (key, node.unsigned) :: entriesUnsigned rest

def clausesUnsigned : List (List (String × Node)) → List (List (String × Node))
  | [] => []
  | clause :: rest => entriesUnsigned clause :: clausesUnsigned rest

end

/-- Clauses that compare as equal. -/
def Clause.Same (first second : Clause) : Prop := entriesUnsigned first = entriesUnsigned second

theorem Condition.toJson_unsigned (condition : Condition) :
    condition.unsigned.toJson = condition.toJson.unsigned := by
  cases condition with
  | equals value => rfl
  | operators entries =>
      rw [unsigned, toJson, toJson, Json.unsigned, Json.unsignedEntries_eq_map, List.map_map,
        List.map_map]
      rfl

mutual

/-- It makes no difference whether the signs are dropped before a clause is flattened or after. -/
theorem Node.toJson_unsigned (node : Node) : node.unsigned.toJson = node.toJson.unsigned :=
  match node with
  | .condition leaf => leaf.toJson_unsigned
  | .related clause => by
      simp only [Node.unsigned, Node.toJson, Json.unsigned, Json.unsignedEntries]
      rw [entriesToJson_unsigned clause]
  | .relatedAll clauses => by
      simp only [Node.unsigned, Node.toJson, Json.unsigned, Json.unsignedEntries]
      rw [clausesToJson_unsigned clauses]

theorem entriesToJson_unsigned (clause : List (String × Node)) :
    entriesToJson (entriesUnsigned clause) = Json.unsignedEntries (entriesToJson clause) :=
  match clause with
  | [] => rfl
  | (key, node) :: rest => by
      rw [entriesUnsigned, entriesToJson, entriesToJson, Json.unsignedEntries,
        node.toJson_unsigned, entriesToJson_unsigned rest]

theorem clausesToJson_unsigned (clauses : List (List (String × Node))) :
    clausesToJson (clausesUnsigned clauses) = Json.unsignedItems (clausesToJson clauses) :=
  match clauses with
  | [] => rfl
  | clause :: rest => by
      rw [clausesUnsigned, clausesToJson, clausesToJson, Json.unsignedItems, Json.unsigned,
        entriesToJson_unsigned clause, clausesToJson_unsigned rest]

end

/-! ## Clauses that compare with literals -/

/-- A condition that compares with literals only. -/
def Condition.HoldsLiterals (condition : Condition) : Prop :=
  ∀ comparison ∈ condition.comparisons, IsLiteral comparison.2

mutual

/-- A node whose conditions, at any depth, compare with literals only. -/
def Node.HoldsLiterals : Node → Prop
  | .condition leaf => leaf.HoldsLiterals
  | .related clause => EntriesHoldLiterals clause
  | .relatedAll clauses => ClausesHoldLiterals clauses

def EntriesHoldLiterals : List (String × Node) → Prop
  | [] => True
  | (_, node) :: rest => node.HoldsLiterals ∧ EntriesHoldLiterals rest

def ClausesHoldLiterals : List (List (String × Node)) → Prop
  | [] => True
  | clause :: rest => EntriesHoldLiterals clause ∧ ClausesHoldLiterals rest

end

/-- A clause whose conditions, at any depth, compare with literals only. -/
def Clause.HoldsLiterals (clause : Clause) : Prop := EntriesHoldLiterals clause

theorem isLiteral_unsigned {value : Json} (hLiteral : IsLiteral value) :
    IsLiteral value.unsigned := by
  cases value with
  | arr items => exact hLiteral.elim
  | obj entries => exact hLiteral.elim
  | null => trivial
  | bool b => trivial
  | num n => trivial
  | str s => trivial

theorem Condition.HoldsLiterals.unsigned {condition : Condition}
    (hLiterals : condition.HoldsLiterals) : condition.unsigned.HoldsLiterals := by
  intro comparison hMem
  cases condition with
  | equals value =>
      rw [List.mem_singleton.1 hMem]
      exact isLiteral_unsigned (hLiterals (.eq, value) List.mem_cons_self)
  | operators entries =>
      obtain ⟨entry, hEntry, rfl⟩ := List.mem_map.1 hMem
      exact isLiteral_unsigned (hLiterals entry hEntry)

mutual

theorem Node.HoldsLiterals.unsigned {node : Node} (hLiterals : node.HoldsLiterals) :
    node.unsigned.HoldsLiterals :=
  match node with
  | .condition _ => Condition.HoldsLiterals.unsigned hLiterals
  | .related _ => entriesHoldLiterals_unsigned hLiterals
  | .relatedAll _ => clausesHoldLiterals_unsigned hLiterals

theorem entriesHoldLiterals_unsigned {clause : List (String × Node)}
    (hLiterals : EntriesHoldLiterals clause) : EntriesHoldLiterals (entriesUnsigned clause) :=
  match clause with
  | [] => trivial
  | _ :: _ => ⟨hLiterals.1.unsigned, entriesHoldLiterals_unsigned hLiterals.2⟩

theorem clausesHoldLiterals_unsigned {clauses : List (List (String × Node))}
    (hLiterals : ClausesHoldLiterals clauses) : ClausesHoldLiterals (clausesUnsigned clauses) :=
  match clauses with
  | [] => trivial
  | _ :: _ => ⟨entriesHoldLiterals_unsigned hLiterals.1, clausesHoldLiterals_unsigned hLiterals.2⟩

end

/-! ## Reading a clause off its object -/

section Injective

theorem Condition.eq_of_toJson_eq {first second : Condition} (hFirst : first.HoldsLiterals)
    (hSecond : second.HoldsLiterals) (hSame : first.toJson = second.toJson) : first = second := by
  cases first with
  | equals value =>
      cases second with
      | equals other => exact congrArg equals hSame
      | operators entries =>
          have hValue : IsLiteral value := hFirst (.eq, value) List.mem_cons_self
          rw [show value = _ from hSame] at hValue
          exact hValue.elim
  | operators entries =>
      cases second with
      | equals value =>
          have hValue : IsLiteral value := hSecond (.eq, value) List.mem_cons_self
          rw [show value = _ from hSame.symm] at hValue
          exact hValue.elim
      | operators others =>
          have hKeys : Function.Injective fun entry : Operator × Json => (entry.1.key, entry.2) := by
            intro entry other hEntry
            obtain ⟨hKey, hValue⟩ := Prod.mk.inj hEntry
            exact Prod.ext (Operator.key_injective hKey) hValue
          exact congrArg operators (List.map_injective_iff.2 hKeys (Json.obj.inj hSame))

/-- No operator has the key under which related records are asked for. -/
theorem Condition.toJson_ne_is {condition : Condition} (hLiterals : condition.HoldsLiterals)
    (body : Json) : condition.toJson ≠ .obj [("is", body)] := by
  intro hSame
  cases condition with
  | equals value =>
      have hValue : IsLiteral value := hLiterals (.eq, value) List.mem_cons_self
      rw [show value = _ from hSame] at hValue
      exact hValue
  | operators entries =>
      have hKeys : (entries.map fun entry => (entry.1.key, entry.2)).map Prod.fst = ["is"] :=
        congrArg (List.map Prod.fst) (Json.obj.inj hSame)
      have hMem : "is" ∈ (entries.map fun entry => (entry.1.key, entry.2)).map Prod.fst := by
        rw [hKeys]
        exact List.mem_cons_self
      rw [List.map_map] at hMem
      obtain ⟨⟨op, value⟩, -, hKey⟩ := List.mem_map.1 hMem
      cases op <;> simp [Operator.key] at hKey

/-- An array is what several clauses become, and never a node. -/
theorem Node.toJson_ne_arr {node : Node} (hLiterals : node.HoldsLiterals) (items : List Json) :
    node.toJson ≠ .arr items := by
  intro hSame
  cases node with
  | condition leaf =>
      cases leaf with
      | equals value =>
          have hValue : IsLiteral value := hLiterals (.eq, value) List.mem_cons_self
          rw [show value = _ from hSame] at hValue
          exact hValue
      | operators entries => cases hSame
  | related clause => cases hSame
  | relatedAll clauses => cases hSame

/-- So one clause about related records is told from several, whatever its keys are. -/
theorem entriesToJson_ne_all {clause : List (String × Node)} (hLiterals : EntriesHoldLiterals clause)
    (items : List Json) : entriesToJson clause ≠ [("AND", .arr items)] := by
  intro hSame
  match clause with
  | [] => cases hSame
  | (key, node) :: rest =>
      have hNode : node.toJson = .arr items := by
        have hFirst := (List.cons.inj hSame).1
        exact (Prod.mk.inj hFirst).2
      exact node.toJson_ne_arr hLiterals.1 items hNode

mutual

/-- The constructors of nodes are told apart by their objects, and what they hold is read off by
recursion. -/
theorem Node.eq_of_toJson_eq {first second : Node} (hFirst : first.HoldsLiterals)
    (hSecond : second.HoldsLiterals) (hSame : first.toJson = second.toJson) : first = second :=
  match first, second with
  | .condition _, .condition _ => by
      rw [Condition.eq_of_toJson_eq hFirst hSecond hSame]
  | .condition _, .related _ => absurd hSame (Condition.toJson_ne_is hFirst _)
  | .condition _, .relatedAll _ => absurd hSame (Condition.toJson_ne_is hFirst _)
  | .related _, .condition _ => absurd hSame.symm (Condition.toJson_ne_is hSecond _)
  | .relatedAll _, .condition _ => absurd hSame.symm (Condition.toJson_ne_is hSecond _)
  | .related clause, .related other => by
      simp only [Node.toJson, Json.obj.injEq, List.cons.injEq, Prod.mk.injEq, and_true,
        true_and] at hSame
      rw [eq_of_entriesToJson_eq hFirst hSecond hSame]
  | .related clause, .relatedAll others => by
      simp only [Node.toJson, Json.obj.injEq, List.cons.injEq, Prod.mk.injEq, and_true,
        true_and] at hSame
      exact absurd hSame (entriesToJson_ne_all hFirst _)
  | .relatedAll clauses, .related other => by
      simp only [Node.toJson, Json.obj.injEq, List.cons.injEq, Prod.mk.injEq, and_true,
        true_and] at hSame
      exact absurd hSame.symm (entriesToJson_ne_all hSecond _)
  | .relatedAll clauses, .relatedAll others => by
      simp only [Node.toJson, Json.obj.injEq, Json.arr.injEq, List.cons.injEq, Prod.mk.injEq,
        and_true, true_and] at hSame
      rw [eq_of_clausesToJson_eq hFirst hSecond hSame]

theorem eq_of_entriesToJson_eq {first second : List (String × Node)}
    (hFirst : EntriesHoldLiterals first) (hSecond : EntriesHoldLiterals second)
    (hSame : entriesToJson first = entriesToJson second) : first = second :=
  match first, second with
  | [], [] => rfl
  | [], _ :: _ => by cases hSame
  | _ :: _, [] => by cases hSame
  | (key, node) :: rest, (other, node') :: others => by
      obtain ⟨hEntry, hRest⟩ := List.cons.inj hSame
      obtain ⟨hKey, hNode⟩ := Prod.mk.inj hEntry
      rw [hKey, node.eq_of_toJson_eq hFirst.1 hSecond.1 hNode,
        eq_of_entriesToJson_eq hFirst.2 hSecond.2 hRest]

theorem eq_of_clausesToJson_eq {first second : List (List (String × Node))}
    (hFirst : ClausesHoldLiterals first) (hSecond : ClausesHoldLiterals second)
    (hSame : clausesToJson first = clausesToJson second) : first = second :=
  match first, second with
  | [], [] => rfl
  | [], _ :: _ => by cases hSame
  | _ :: _, [] => by cases hSame
  | clause :: rest, other :: others => by
      obtain ⟨hClause, hRest⟩ := List.cons.inj hSame
      rw [eq_of_entriesToJson_eq hFirst.1 hSecond.1 (Json.obj.inj hClause),
        eq_of_clausesToJson_eq hFirst.2 hSecond.2 hRest]

end

namespace Clause

variable {first second : Clause}

theorem eq_of_toJson_eq (hFirst : first.HoldsLiterals) (hSecond : second.HoldsLiterals)
    (hSame : first.toJson = second.toJson) : first = second :=
  eq_of_entriesToJson_eq hFirst hSecond (Json.obj.inj hSame)

theorem same_of_toJson_same (hFirst : first.HoldsLiterals) (hSecond : second.HoldsLiterals)
    (hSame : first.toJson.Same second.toJson) : first.Same second := by
  have hObjects : Json.unsignedEntries (entriesToJson first) =
      Json.unsignedEntries (entriesToJson second) := Json.obj.inj hSame
  rw [← entriesToJson_unsigned, ← entriesToJson_unsigned] at hObjects
  exact eq_of_entriesToJson_eq (entriesHoldLiterals_unsigned hFirst)
    (entriesHoldLiterals_unsigned hSecond) hObjects

end Clause

end Injective

/-! ## Compiled clauses -/

theorem condition_holdsLiterals {token : String} {filter : Filter}
    (hParse : parse token = .ok filter) : filter.condition.HoldsLiterals := by
  intro comparison hMem
  rw [comparisons_condition, List.mem_singleton] at hMem
  rw [hMem]
  exact isLiteral_of_parse hParse

namespace Clause

theorem holdsLiterals_iff {clause : Clause} :
    clause.HoldsLiterals ↔ ∀ entry ∈ clause, entry.2.HoldsLiterals := by
  induction clause with
  | nil => simp [HoldsLiterals, EntriesHoldLiterals]
  | cons entry rest ih =>
      rw [List.forall_mem_cons, ← ih]
      rfl

theorem holdsLiterals_single {key : String} {node : Node} :
    (single key node).HoldsLiterals ↔ node.HoldsLiterals := by
  rw [holdsLiterals_iff, single, List.forall_mem_singleton]

/-- A clause holds what it leads to. -/
theorem Leads.holdsLiterals {clause : Clause} {path : List String} {node : Node}
    (hLeads : clause.Leads path node) (hNode : node.HoldsLiterals) : clause.HoldsLiterals := by
  induction hLeads with
  | here => exact holdsLiterals_single.2 hNode
  | there _ _ ih => exact holdsLiterals_single.2 (ih hNode)

theorem holdsLiterals_ofPath {leaf : Condition} (hLeaf : leaf.HoldsLiterals) (path : List String) :
    (ofPath path leaf).HoldsLiterals := by
  cases path with
  | nil => trivial
  | cons relation rest => exact (leads_ofPath (List.cons_ne_nil relation rest) leaf).holdsLiterals hLeaf

theorem holdsLiterals_wrap? {relations : List String} {body : Body} {clause : Clause}
    (hBody : body.node.HoldsLiterals) (hWrap : wrap? relations body = some clause) :
    clause.HoldsLiterals := by
  cases relations with
  | nil => cases hWrap
  | cons relation rest =>
      obtain ⟨wrapped, hWrapped, hLeads⟩ :=
        exists_leads_wrap? (List.cons_ne_nil relation rest) body
      cases hWrap.symm.trans hWrapped
      exact hLeads.holdsLiterals hBody

end Clause

theorem clausesHoldLiterals_iff {clauses : List Clause} :
    ClausesHoldLiterals clauses ↔ ∀ clause ∈ clauses, clause.HoldsLiterals := by
  induction clauses with
  | nil => simp [ClausesHoldLiterals]
  | cons clause rest ih =>
      rw [List.forall_mem_cons, ← ih]
      rfl

section Reading

variable {mode : Mode} {read : String → Filter} {tokens : List String}

/-- The clause of a unit compares with the literals of its tokens. -/
theorem holdsLiterals_unitClause (hRead : ∀ token ∈ tokens, parse token = .ok (read token))
    {unit : List Filter} (hMem : unit ∈ units mode read tokens) :
    (unitClause mode unit).HoldsLiterals := by
  have hCondition : ∀ filter ∈ unit, filter.condition.HoldsLiterals := by
    intro filter hFilter
    obtain ⟨token, hToken, rfl⟩ := exists_token_of_mem_unit hMem hFilter
    exact condition_holdsLiterals (hRead token hToken)
  obtain ⟨key, hUnit, -⟩ := exists_isUnit_of_mem hMem
  obtain ⟨first, rest, rfl, hFirst⟩ := hUnit.exists_cons
  cases key with
  | field path =>
      rw [unitClause_of_field hFirst]
      exact Clause.holdsLiterals_single.2 (isLiteral_of_mem_mergedCondition hRead hMem)
  | below relations =>
      cases rest with
      | nil =>
          rw [unitClause_alone hFirst]
          exact Clause.holdsLiterals_ofPath (hCondition first List.mem_cons_self) _
      | cons next rest =>
          rw [unitClause_below hFirst, clauseBelow]
          cases hWrap : Clause.wrap? relations (.all ((first :: next :: rest).map fun filter =>
              .expand (segments filter.field) filter.condition relations.length)) with
          | none => trivial
          | some clause =>
              refine Clause.holdsLiterals_wrap? ?_ hWrap
              refine clausesHoldLiterals_iff.2 fun other hOther => ?_
              obtain ⟨filter, hFilter, rfl⟩ := List.mem_map.1 hOther
              exact Clause.holdsLiterals_ofPath (hCondition filter hFilter) _

end Reading

/-- What tokens compile to compares with their literals. -/
theorem holdsLiterals_compile {mode : Mode} {tokens : List String} {clause : Clause}
    (hOk : (compile mode tokens).run.value = .ok clause) : clause.HoldsLiterals := by
  have hRead := parse_eq_readD_of_compile hOk
  obtain ⟨compiled, hCompiled, -, hEntries⟩ := @exists_compile_eq_ok mode readD tokens hRead
  cases hOk.symm.trans hCompiled
  refine Clause.holdsLiterals_iff.2 fun entry hMem => ?_
  obtain ⟨unit, hLast, hEntry⟩ := (hEntries entry).1 hMem
  have hUnit := holdsLiterals_unitClause hRead (mem_of_mem_lastsBy hLast)
  exact Clause.holdsLiterals_iff.1 hUnit entry hEntry

/-- **Flattening loses nothing.** Clauses that compare with literals, at any depth and whatever their
keys are, become equal objects only if they are equal; so it is for values and clauses that compare
as equal. In particular no two lists of tokens that compile to different clauses, be it in one mode
or in both, give a store the same object. -/
theorem toJson_tells_clauses_apart :
    (∀ first second : Clause, first.HoldsLiterals → second.HoldsLiterals →
      (first.toJson = second.toJson → first = second) ∧
      (first.toJson.Same second.toJson → first.Same second)) ∧
    ∀ (mode mode' : Mode) (tokens tokens' : List String) (clause clause' : Clause),
      (compile mode tokens).run.value = .ok clause →
      (compile mode' tokens').run.value = .ok clause' →
      (clause.toJson = clause'.toJson → clause = clause') ∧
      (clause.toJson.Same clause'.toJson → clause.Same clause') := by
  have hApart : ∀ first second : Clause, first.HoldsLiterals → second.HoldsLiterals →
      (first.toJson = second.toJson → first = second) ∧
      (first.toJson.Same second.toJson → first.Same second) := by
    intro first second hFirst hSecond
    exact ⟨Clause.eq_of_toJson_eq hFirst hSecond, Clause.same_of_toJson_same hFirst hSecond⟩
  refine ⟨hApart, ?_⟩
  intro mode mode' tokens tokens' clause clause' hOk hOk'
  exact hApart clause clause' (holdsLiterals_compile hOk) (holdsLiterals_compile hOk')

/-- Names are no way to pass for something else: no clauses at all are told from an empty one, and a
field `NOT` of a relation `AND` from a list of clauses. -/
theorem toJson_tells_clauses_apart_is :
    (let several : Clause := [("is", .relatedAll [])]
      let one : Clause := [("is", .related [])]
      several.HoldsLiterals ∧ one.HoldsLiterals ∧ several.toJson ≠ one.toJson ∧
        ¬several.toJson.Same one.toJson) ∧
    ∃ one several : Clause,
      (compile .nested ["is.AND.NOT==1"]).run.value = .ok one ∧
      (compile .nested ["is.AND!=1", "is.NOT==2"]).run.value = .ok several ∧
      one.toJson ≠ several.toJson ∧ ¬one.toJson.Same several.toJson := by
  constructor
  · intro several one
    have hApart := toJson_tells_clauses_apart.1 several one ⟨trivial, trivial⟩ ⟨trivial, trivial⟩
    refine ⟨⟨trivial, trivial⟩, ⟨trivial, trivial⟩, ?_, ?_⟩
    · intro hSame
      have hEq := hApart.1 hSame
      simp [several, one] at hEq
    · intro hSame
      have hEq : entriesUnsigned several = entriesUnsigned one := hApart.2 hSame
      cases hEq
  · let one : Clause := [("is", .related [("AND", .related
      [("NOT", .condition (.equals (.num (.int 1))))])])]
    let several : Clause := [("is", .relatedAll
      [[("AND", .condition (.operators [(.neq, .num (.int 1))]))],
        [("NOT", .condition (.equals (.num (.int 2))))]])]
    have hOne : (compile .nested ["is.AND.NOT==1"]).run.value = .ok one := by rfl
    have hSeveral : (compile .nested ["is.AND!=1", "is.NOT==2"]).run.value = .ok several := by rfl
    have hApart := toJson_tells_clauses_apart.2 _ _ _ _ one several hOne hSeveral
    refine ⟨one, several, hOne, hSeveral, ?_, ?_⟩
    · intro hSame
      have hEq := hApart.1 hSame
      simp [one, several] at hEq
    · intro hSame
      have hEq : entriesUnsigned one = entriesUnsigned several := hApart.2 hSame
      cases hEq

end Filter

end Paging
