import Mathlib.Data.List.Basic
import Paging.Sql.Condition

/-!
# What conditions mean

In SQL a comparison is true, false or unknown, and connectives take the unknown value into account.
`Condition.truth` evaluates a condition from the values of its comparisons, whatever these are. A
conjunction depends on nothing but which values it joins (`Truth.all_congr`), so a condition can be
described by its comparisons without their order.

Main results: joining conditions joins their values (`Condition.truth_join`), and the expression in
which a condition is written has the value of the condition (`Expr.truth_ofCondition`).
-/

namespace Paging.Sql

/-- The three values of a comparison. -/
inductive Truth where
  | no
  | unknown
  | yes
deriving DecidableEq, Repr

namespace Truth

def not : Truth → Truth
  | .no => .yes
  | .unknown => .unknown
  | .yes => .no

def and : Truth → Truth → Truth
  | .no, _ => .no
  | _, .no => .no
  | .yes, .yes => .yes
  | _, _ => .unknown

def or : Truth → Truth → Truth
  | .yes, _ => .yes
  | _, .yes => .yes
  | .no, .no => .no
  | _, _ => .unknown

/-- The conjunction of a list; that of none is true. -/
def all (values : List Truth) : Truth := values.foldr and .yes

/-- The disjunction of a list; that of none is false. -/
def any (values : List Truth) : Truth := values.foldr or .no

theorem all_nil : all [] = .yes := rfl

theorem all_cons (value : Truth) (rest : List Truth) :
    all (value :: rest) = value.and (all rest) := rfl

@[simp]
theorem and_yes (value : Truth) : value.and .yes = value := by
  cases value <;> rfl

@[simp]
theorem yes_and (value : Truth) : Truth.yes.and value = value := by
  cases value <;> rfl

@[simp]
theorem or_no (value : Truth) : value.or .no = value := by
  cases value <;> rfl

theorem and_assoc (a b c : Truth) : (a.and b).and c = a.and (b.and c) := by
  cases a <;> cases b <;> cases c <;> rfl

theorem or_assoc (a b c : Truth) : (a.or b).or c = a.or (b.or c) := by
  cases a <;> cases b <;> cases c <;> rfl

theorem all_append (first second : List Truth) :
    all (first ++ second) = (all first).and (all second) := by
  induction first with
  | nil => rw [List.nil_append, all_nil, yes_and]
  | cons value rest ih => rw [List.cons_append, all_cons, ih, all_cons, and_assoc]

theorem all_eq_yes_iff {values : List Truth} :
    all values = .yes ↔ ∀ value ∈ values, value = .yes := by
  induction values with
  | nil => simp [all_nil]
  | cons value rest ih =>
      rw [List.forall_mem_cons, ← ih, all_cons]
      cases value <;> cases all rest <;> decide

theorem all_eq_no_iff {values : List Truth} : all values = .no ↔ .no ∈ values := by
  induction values with
  | nil => simp [all_nil]
  | cons value rest ih =>
      rw [List.mem_cons, ← ih, all_cons]
      cases value <;> cases all rest <;> decide

/-- A conjunction depends on which values it joins only. -/
theorem all_congr {values values' : List Truth}
    (hSame : ∀ value, value ∈ values ↔ value ∈ values') : all values = all values' := by
  have hYes : all values = .yes ↔ all values' = .yes := by
    rw [all_eq_yes_iff, all_eq_yes_iff]
    exact forall_congr' fun value => by rw [hSame]
  have hNo : all values = .no ↔ all values' = .no := by
    rw [all_eq_no_iff, all_eq_no_iff, hSame]
  -- With three values, whether it is true and whether it is false say which one it is.
  revert hYes hNo
  cases all values <;> cases all values' <;> decide

/-- The value of a list under a connective. -/
def joined : Connective → List Truth → Truth
  | .all, values => all values
  | .any, values => any values

theorem joined_single (connective : Connective) (value : Truth) :
    joined connective [value] = value := by
  cases connective with
  | all => exact and_yes value
  | any => exact or_no value

/-- A value, or the opposite one. -/
def negatedIf (negated : Bool) (value : Truth) : Truth := if negated then value.not else value

end Truth

/-! ## Conditions -/

section Truth

variable (interp : Atom → Truth)

mutual

/-- The value of a term where `interp` says which comparisons hold. -/
def Term.truth : Term → Truth
  | .atom a => interp a
  | .group negated connective terms =>
      Truth.negatedIf negated (Truth.joined connective (truths terms))

/-- The values of terms. -/
def truths : List Term → List Truth
  | [] => []
  | term :: rest => term.truth :: truths rest

end

/-- The value of a condition. -/
def Condition.truth (condition : Condition) : Truth :=
  Truth.negatedIf condition.negated
    (Truth.joined condition.connective (truths interp condition.terms))

theorem truths_eq_map (terms : List Term) :
    truths interp terms = terms.map (Term.truth interp) := by
  induction terms with
  | nil => rfl
  | cons term rest ih => rw [truths, ih, List.map_cons]

end Truth

mutual

/-- The comparisons in a term. -/
def Term.atoms : Term → List Atom
  | .atom a => [a]
  | .group _ _ terms => atomsOfTerms terms

/-- The comparisons in terms. -/
def atomsOfTerms : List Term → List Atom
  | [] => []
  | term :: rest => term.atoms ++ atomsOfTerms rest

end

/-- The comparisons in a condition. -/
def Condition.atoms (condition : Condition) : List Atom := atomsOfTerms condition.terms

theorem atomsOfTerms_eq_flatMap (terms : List Term) :
    atomsOfTerms terms = terms.flatMap Term.atoms := by
  induction terms with
  | nil => rfl
  | cons term rest ih => rw [atomsOfTerms, ih, List.flatMap_cons]

namespace Condition

/-- Dropping the brackets around a single term changes nothing. -/
theorem truth_toTerm (interp : Atom → Truth) (condition : Condition) :
    condition.toTerm.truth interp = condition.truth interp := by
  unfold toTerm
  split
  · rename_i connective term
    rw [truth, truths, truths, Truth.joined_single]
    rfl
  · rfl

theorem atoms_toTerm (condition : Condition) : condition.toTerm.atoms = condition.atoms := by
  unfold toTerm
  split
  · rename_i connective term
    rw [atoms, atomsOfTerms, atomsOfTerms, List.append_nil]
  · rfl

theorem truth_join (interp : Atom → Truth) (connective : Connective) (conditions : List Condition) :
    (join connective conditions).truth interp =
      Truth.joined connective (conditions.map (truth interp)) := by
  have hTruths : truths interp (conditions.map toTerm) = conditions.map (truth interp) := by
    rw [truths_eq_map, List.map_map]
    exact List.map_congr_left fun condition _ => truth_toTerm interp condition
  show Truth.joined connective (truths interp (conditions.map toTerm)) = _
  rw [hTruths]

theorem atoms_join (connective : Connective) (conditions : List Condition) :
    (join connective conditions).atoms = conditions.flatMap atoms := by
  show atomsOfTerms (conditions.map toTerm) = _
  rw [atomsOfTerms_eq_flatMap, List.flatMap_map]
  exact List.flatMap_congr fun condition _ => atoms_toTerm condition

theorem truth_ofAtoms (interp : Atom → Truth) (connective : Connective) (atoms : List Atom) :
    (ofAtoms connective atoms).truth interp = Truth.joined connective (atoms.map interp) := by
  have hTruths : truths interp (atoms.map .atom) = atoms.map interp := by
    rw [truths_eq_map, List.map_map]
    rfl
  show Truth.joined connective (truths interp (atoms.map .atom)) = _
  rw [hTruths]

theorem atoms_ofAtoms (connective : Connective) (atoms : List Atom) :
    (ofAtoms connective atoms).atoms = atoms := by
  show atomsOfTerms (atoms.map .atom) = _
  rw [atomsOfTerms_eq_flatMap, List.flatMap_map]
  exact List.flatMap_singleton' atoms

end Condition

/-! ## Expressions -/

namespace Expr

/-- The value of an expression. -/
def truth (interp : Atom → Truth) : Expr → Truth
  | .constant true => .yes
  | .constant false => .no
  | .atom a => interp a
  | .binary .all left right => (left.truth interp).and (right.truth interp)
  | .binary .any left right => (left.truth interp).or (right.truth interp)
  | .not expr => (expr.truth interp).not

variable {interp : Atom → Truth}

theorem truth_negatedIf (negated : Bool) (expr : Expr) :
    (negatedIf negated expr).truth interp = Truth.negatedIf negated (expr.truth interp) := by
  cases negated <;> rfl

theorem truth_foldl_binary (connective : Connective) (first : Expr) (rest : List Expr) :
    (rest.foldl (.binary connective) first).truth interp =
      Truth.joined connective ((first :: rest).map (truth interp)) := by
  induction rest generalizing first with
  | nil => rw [List.foldl_nil, List.map_cons, List.map_nil, Truth.joined_single]
  | cons next rest ih =>
      rw [List.foldl_cons, ih]
      cases connective with
      | all => exact Truth.and_assoc _ _ _
      | any => exact Truth.or_assoc _ _ _

theorem truth_fold (connective : Connective) (exprs : List Expr) :
    (fold connective exprs).truth interp = Truth.joined connective (exprs.map (truth interp)) := by
  cases exprs with
  | nil => cases connective <;> rfl
  | cons first rest => exact truth_foldl_binary connective first rest

mutual

theorem truth_ofTerm (term : Term) : (ofTerm term).truth interp = term.truth interp :=
  match term with
  | .atom _ => rfl
  | .group negated connective terms => by
      rw [ofTerm, truth_negatedIf, truth_fold, map_truth_ofTerms terms, Term.truth]

theorem map_truth_ofTerms (terms : List Term) :
    (ofTerms terms).map (truth interp) = truths interp terms :=
  match terms with
  | [] => rfl
  | term :: rest => by
      rw [ofTerms, List.map_cons, truth_ofTerm term, map_truth_ofTerms rest, truths]

end

/-- What is written out has the value of the condition. -/
theorem truth_ofCondition (condition : Condition) :
    (ofCondition condition).truth interp = condition.truth interp := by
  rw [ofCondition, truth_negatedIf, truth_fold, map_truth_ofTerms, Condition.truth]

end Expr

end Paging.Sql
