import Paging.Table

/-!
# Comparison operators

Every operator has a symbol of two characters, by which tokens spell it, and a key, by which
condition objects name it. Operators are ordered by their keys, so that a table keyed by operators
lists its entries in the order of the object it becomes.
-/

namespace Paging.Filter

/-- How a token compares its field with its value. -/
inductive Operator where
  | eq
  | neq
  | lte
  | gte
  | lt
  | gt
  | isIn
deriving DecidableEq, Repr

namespace Operator

/-- All operators, in the order in which messages list them. -/
def all : List Operator := [.eq, .neq, .lte, .gte, .lt, .gt, .isIn]

/-- The two characters that spell the operator in a token. -/
def symbolChars : Operator → Char × Char
  | .eq => ('=', '=')
  | .neq => ('!', '=')
  | .lte => ('<', '=')
  | .gte => ('>', '=')
  | .lt => ('<', '<')
  | .gt => ('>', '>')
  | .isIn => ('[', ']')

/-- The symbol as a string. -/
def symbol (op : Operator) : String := String.ofList [op.symbolChars.1, op.symbolChars.2]

/-- The operator that two characters spell. -/
def ofChars? (a b : Char) : Option Operator := all.find? fun op => op.symbolChars == (a, b)

/-- The operator with a given symbol. -/
def ofSymbol? (symbol : String) : Option Operator := all.find? fun op => op.symbol == symbol

/-- The key of the operator in a condition object. -/
def key : Operator → String
  | .eq => "equals"
  | .neq => "NOT"
  | .gt => "gt"
  | .gte => "gte"
  | .lt => "lt"
  | .lte => "lte"
  | .isIn => "in"

theorem key_injective {a b : Operator} (h : a.key = b.key) : a = b := by
  revert h
  cases a <;> cases b <;> decide

theorem ofChars?_eq_some_iff {a b : Char} {op : Operator} :
    ofChars? a b = some op ↔ op.symbolChars = (a, b) := by
  constructor
  · intro h
    simpa using List.find?_some h
  · intro h
    have hSymbols : ∀ o : Operator, ofChars? o.symbolChars.1 o.symbolChars.2 = some o := by
      intro o; cases o <;> decide
    have := hSymbols op
    rwa [h] at this

/-! ## Order -/

instance : LT Operator := ⟨fun a b => a.key < b.key⟩

instance : DecidableLT Operator := fun a b => inferInstanceAs (Decidable (a.key < b.key))

instance : KeyOrder Operator where
  irrefl a := String.lt_irrefl a.key
  trans := String.lt_trans
  trichotomous a b := by
    rcases KeyOrder.trichotomous a.key b.key with h | h | h
    · exact .inl h
    · exact .inr (.inl (key_injective h))
    · exact .inr (.inr h)

end Operator

end Paging.Filter
