import Paging.Proofs.UnitClauses

/-!
# Paths through clauses

`paths` lists the ways from the root of a clause to its leaves: the keys that are passed, and the
condition at the end. A clause with a single entry on every level has one way only, and the end of
it may be a body that leads further (`Leads.append`). The clauses of paths and the chains of
relations around bodies are of this kind, and they are determined by where they lead
(`eq_ofPath_iff`, `wrap?_eq_iff`); so a path may be cut at any place, and its front wrapped around
the rest (`Clause.expand_composes`).
-/

namespace Paging.Filter

/-! ## All paths -/

mutual

/-- The ways from a node to its leaves. -/
def Node.paths : Node → List (List String × Condition)
  | .condition leaf => [([], leaf)]
  | .related clause => entryPaths clause
  | .relatedAll clauses => clausePaths clauses

/-- The ways that begin with one of the entries. -/
def entryPaths : List (String × Node) → List (List String × Condition)
  | [] => []
  | (key, node) :: rest => node.paths.map (Prod.map (key :: ·) id) ++ entryPaths rest

/-- The ways through several clauses. -/
def clausePaths : List (List (String × Node)) → List (List String × Condition)
  | [] => []
  | clause :: rest => entryPaths clause ++ clausePaths rest

end

/-- The ways from the root of a clause to its leaves. -/
def Clause.paths (clause : Clause) : List (List String × Condition) := entryPaths clause

namespace Clause

@[simp]
theorem paths_single (key : String) (node : Node) :
    paths [(key, node)] = node.paths.map (Prod.map (key :: ·) id) := by
  rw [paths, entryPaths, entryPaths, List.append_nil]

/-! ## Single paths -/

namespace Leads

variable {clause other inner : Clause} {path more : List String} {node : Node}

theorem ne_nil (hLeads : clause.Leads path node) : path ≠ [] := by
  cases hLeads <;> exact List.cons_ne_nil _ _

/-- A way and its end determine the clause. -/
theorem unique (hLeads : clause.Leads path node) (hOther : other.Leads path node) :
    clause = other := by
  induction hLeads generalizing other with
  | here name node =>
      cases hOther with
      | here => rfl
      | there _ hNone => exact absurd rfl hNone.ne_nil
  | there relation hLeads ih =>
      cases hOther with
      | here => exact absurd rfl hLeads.ne_nil
      | there _ hRest => rw [ih hRest]

/-- Behind a relation the way goes on through the clause of the related records. -/
theorem append (hLeads : clause.Leads path (.related inner)) (hInner : inner.Leads more node) :
    clause.Leads (path ++ more) node := by
  generalize hEnd : Node.related inner = last at hLeads
  induction hLeads with
  | here name last =>
      subst hEnd
      exact .there name hInner
  | there relation _ ih => exact .there relation (ih hEnd)

/-- A clause that leads to a node has the ways of the node. -/
theorem paths_eq (hLeads : clause.Leads path node) :
    clause.paths = node.paths.map (Prod.map (path ++ ·) id) := by
  induction hLeads with
  | here name node => exact paths_single name node
  | there relation hLeads ih =>
      rw [paths_single, Node.paths, ← Clause.paths, ih, List.map_map]
      rfl

/-- To a leaf there is one way. -/
theorem paths_of_condition {leaf : Condition} (hLeads : clause.Leads path (.condition leaf)) :
    clause.paths = [(path, leaf)] := by
  rw [hLeads.paths_eq, Node.paths, List.map_singleton, Prod.map_apply, List.append_nil]
  rfl

end Leads

/-- The clause of a path is the one that leads along it to its leaf. -/
theorem eq_ofPath_iff {clause : Clause} {path : List String} (hPath : path ≠ [])
    {leaf : Condition} : clause = ofPath path leaf ↔ clause.Leads path (.condition leaf) := by
  constructor
  · rintro rfl
    exact leads_ofPath hPath leaf
  · intro hLeads
    exact hLeads.unique (leads_ofPath hPath leaf)

/-- A chain of relations around a body is the clause that leads along it to the body. -/
theorem wrap?_eq_iff {clause : Clause} {relations : List String} (hSome : relations ≠ [])
    {body : Body} : wrap? relations body = some clause ↔ clause.Leads relations body.node := by
  obtain ⟨wrapped, hWrap, hLeads⟩ := exists_leads_wrap? hSome body
  rw [hWrap, Option.some.injEq]
  constructor
  · rintro rfl
    exact hLeads
  · intro hClause
    exact hLeads.unique hClause

/-! ## Cutting a path -/

theorem expand_append_eq (front rest : List String) (leaf : Condition) :
    expand (front ++ rest) leaf front.length = expand rest leaf 0 := by
  rw [expand, expand, List.drop_left, List.drop_zero]

theorem wrap?_ofPath {relations path : List String} (hSome : relations ≠ []) (hPath : path ≠ [])
    (leaf : Condition) :
    wrap? relations (.clause (ofPath path leaf)) = some (ofPath (relations ++ path) leaf) := by
  obtain ⟨clause, hWrap, hLeads⟩ := exists_leads_wrap? hSome (.clause (ofPath path leaf))
  rw [hWrap, (eq_ofPath_iff (List.append_ne_nil_of_right_ne_nil relations hPath)).2
    (hLeads.append (leads_ofPath hPath leaf))]

theorem wrap?_append {outer inner : List String} (hOuter : outer ≠ []) (hInner : inner ≠ [])
    (body : Body) :
    ∃ clause, wrap? inner body = some clause ∧
      wrap? (outer ++ inner) body = wrap? outer (.clause clause) := by
  obtain ⟨clause, hWrap, hLeads⟩ := exists_leads_wrap? hInner body
  obtain ⟨whole, hWhole, hFront⟩ := exists_leads_wrap? hOuter (.clause clause)
  refine ⟨clause, hWrap, ?_⟩
  rw [hWhole, wrap?_eq_iff (List.append_ne_nil_of_right_ne_nil outer hInner)]
  exact hFront.append hLeads

theorem ofPath_eq_nil_iff (path : List String) (leaf : Condition) :
    ofPath path leaf = [] ↔ path = [] := by
  constructor
  · intro hEmpty
    by_contra hPath
    have hLeads := leads_ofPath hPath leaf
    rw [hEmpty] at hLeads
    cases hLeads
  · rintro rfl
    rfl

/-- The clause of a path determines the path, and its leaf if the path is not empty. -/
theorem ofPath_eq_ofPath_iff {path other : List String} {leaf leaf' : Condition} :
    ofPath path leaf = ofPath other leaf' ↔ path = other ∧ (path = [] ∨ leaf = leaf') := by
  constructor
  · intro hEq
    by_cases hPath : path = []
    · have hOther : other = [] := by
        rw [← ofPath_eq_nil_iff other leaf', ← hEq, ofPath_eq_nil_iff]
        exact hPath
      exact ⟨hPath.trans hOther.symm, .inl hPath⟩
    · have hOther : other ≠ [] := by
        rwa [ne_eq, ← ofPath_eq_nil_iff other leaf', ← hEq, ofPath_eq_nil_iff]
      have hPaths := (leads_ofPath hPath leaf).paths_of_condition
      rw [hEq, (leads_ofPath hOther leaf').paths_of_condition] at hPaths
      simp only [List.cons.injEq, Prod.mk.injEq, and_true] at hPaths
      exact ⟨hPaths.1.symm, .inr hPaths.2.symm⟩
  · rintro ⟨rfl, rfl | rfl⟩ <;> rfl

/-- **A path may be cut anywhere.** The clause of what follows the skipped segments is the same
whatever they are, and leads to the leaf on that one way. Wrapped in the skipped segments, it is the
clause of the whole path; and so is a body wrapped in two chains of relations, one around the other,
the body wrapped in the chain of both. The clause is empty exactly if all segments are skipped, and
otherwise it determines the segments that are left and the leaf. -/
theorem expand_composes (leaf : Condition) :
    (∀ front rest : List String, rest ≠ [] →
      expand (front ++ rest) leaf front.length = expand rest leaf 0 ∧
      (expand rest leaf 0).Leads rest (.condition leaf) ∧
      (expand rest leaf 0).paths = [(rest, leaf)] ∧
      (front ≠ [] →
        wrap? front (.clause (expand (front ++ rest) leaf front.length)) =
          some (expand (front ++ rest) leaf 0))) ∧
    (∀ (outer inner : List String) (body : Body), outer ≠ [] → inner ≠ [] →
      ∃ clause whole, wrap? inner body = some clause ∧
        wrap? outer (.clause clause) = some whole ∧ wrap? (outer ++ inner) body = some whole) ∧
    (∀ (segments : List String) (skip : Nat),
      expand segments leaf skip = [] ↔ segments.length ≤ skip) ∧
    ∀ (segments segments' : List String) (skip skip' : Nat) (leaf' : Condition),
      expand segments leaf skip = expand segments' leaf' skip' ↔
        segments.drop skip = segments'.drop skip' ∧
          (segments.length ≤ skip ∨ leaf = leaf') := by
  refine ⟨?_, ?_, ?_, ?_⟩
  · intro front rest hRest
    have hLeads : (expand rest leaf 0).Leads rest (.condition leaf) := leads_ofPath hRest leaf
    refine ⟨expand_append_eq front rest leaf, hLeads, hLeads.paths_of_condition, ?_⟩
    intro hFront
    rw [expand_append_eq]
    exact wrap?_ofPath hFront hRest leaf
  · intro outer inner body hOuter hInner
    obtain ⟨clause, hWrap, hWhole⟩ := wrap?_append hOuter hInner body
    obtain ⟨whole, hOutside, -⟩ := exists_leads_wrap? hOuter (.clause clause)
    exact ⟨clause, whole, hWrap, hOutside, hWhole.trans hOutside⟩
  · intro segments skip
    rw [expand, ofPath_eq_nil_iff, List.drop_eq_nil_iff]
  · intro segments segments' skip skip' leaf'
    rw [expand, expand, ofPath_eq_ofPath_iff, List.drop_eq_nil_iff]

/-- The city of an address, seen from the address and from the user who has it. -/
theorem expand_composes_city :
    let leaf : Condition := .equals (.str "NY")
    ["addr", "city"] ≠ [] ∧ ["user"] ≠ [] ∧
      wrap? ["user"] (.clause (expand ["user", "addr", "city"] leaf 1)) =
        some (expand ["user", "addr", "city"] leaf 0) ∧
      (expand ["user", "addr", "city"] leaf 1).paths = [(["addr", "city"], leaf)] ∧
      ∃ whole, wrap? ["user", "addr"] (.all []) = some whole ∧
        wrap? ["user"] (.clause [("addr", .relatedAll [])]) = some whole := by
  intro leaf
  have hRest : ["addr", "city"] ≠ [] := List.cons_ne_nil _ _
  have hUser : ["user"] ≠ [] := List.cons_ne_nil _ _
  obtain ⟨hPath, hChain, -, -⟩ := expand_composes leaf
  obtain ⟨hSkip, -, hPaths, hWrap⟩ := hPath ["user"] ["addr", "city"] hRest
  obtain ⟨clause, whole, hInner, hOuter, hWhole⟩ :=
    hChain ["user"] ["addr"] (.all []) hUser (List.cons_ne_nil _ _)
  cases hInner
  exact ⟨hRest, hUser, hWrap hUser, hSkip ▸ hPaths, whole, hWhole, hOuter⟩

end Clause

end Paging.Filter
