import Paging.Json.Printer

/-!
# Results with a log

Some steps leave a note for the operator: a constraint was replaced, an option was ignored, a store
failed. `Logged` pairs a value with the notes in the order in which they were made. `Outcome` is a
logged result that may be an error; under an error the notes made so far are kept.
-/

namespace Paging

/-- What a note says. -/
inductive Event where
  /-- A key of a clause was assigned again. Of the warning only the key is kept: the node that gave
  way, which is printed beside it, is left out. -/
  | keyReplaced (field : String)
  /-- The caller's condition was no object and gave way to the compiled one. -/
  | callerWhereReplaced (replaced : Json)
  /-- Both a selection and an inclusion were given. -/
  | includeDropped
  /-- The store cannot include related records. -/
  | includeIgnored (model : String)
  /-- A store error was hidden from the user. -/
  | storeFailed (error : String)

namespace Event

/-- How grave a note is. -/
inductive Level where
  | warning
  | error
deriving DecidableEq, Repr

/-- A store error is an error, all other notes are warnings. -/
def level : Event → Level
  | .storeFailed _ => .error
  | _ => .warning

/-- The text of a note. -/
def message : Event → String
  | .keyReplaced _ => "Filter key assigned twice; keeping the later predicate"
  | .callerWhereReplaced _ =>
      "Caller `where` is not an object; replacing it with compiled filters"
  | .includeDropped =>
      "Please either use `include` or `select`, but not both at the same time; dropping `include`"
  | .includeIgnored _ =>
      "Relation includes are not supported by the SQL store; ignoring `include`"
  | .storeFailed _ => "Store error occurred"

/-- What a note is about, by name. -/
def fields : Event → List (String × String)
  | .keyReplaced field => [("field", field)]
  | .callerWhereReplaced replaced => [("replaced", replaced.text)]
  | .includeDropped => []
  | .includeIgnored model => [("model", model)]
  | .storeFailed error => [("error", error)]

end Event

/-- A value and the notes made while computing it. -/
structure Logged (α : Type) where
  log : List Event
  value : α

namespace Logged

variable {α β γ : Type}

instance : Monad Logged where
  pure a := ⟨[], a⟩
  bind x f := ⟨x.log ++ (f x.value).log, (f x.value).value⟩

instance : LawfulMonad Logged := LawfulMonad.mk' Logged
  (fun _ => by simp [Functor.map])
  (fun _ _ => by simp [bind, pure])
  (fun _ _ _ => by simp [bind])

/-- A note and no value. -/
def note (event : Event) : Logged Unit := ⟨[event], ()⟩

@[simp]
theorem pure_log (a : α) : (pure a : Logged α).log = [] := rfl

@[simp]
theorem pure_value (a : α) : (pure a : Logged α).value = a := rfl

@[simp]
theorem bind_log (x : Logged α) (f : α → Logged β) :
    (x >>= f).log = x.log ++ (f x.value).log := rfl

@[simp]
theorem bind_value (x : Logged α) (f : α → Logged β) :
    (x >>= f).value = (f x.value).value := rfl

end Logged

/-- A logged result or a logged error. -/
abbrev Outcome (ε α : Type) := ExceptT ε Logged α

end Paging
