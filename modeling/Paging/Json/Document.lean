import Paging.Json.Token

/-!
# JSON documents

A document is what the grammar of JSON says about a text, before any value is asked for: numbers
are numerals, and an object keeps its members in the order in which they are written, repeated names
included.

The parser looks at each token once. Arrays and objects that are not closed yet are kept in a list
of frames, the innermost first.
-/

namespace Paging.Json

/-- The structure of a JSON text. -/
inductive Document where
  | null
  | bool (value : Bool)
  | num (numeral : Numeral)
  | str (text : Option String)
  | arr (items : List Document)
  | obj (members : List (Option String × Document))

namespace Document

/-- An array or an object that is not closed yet; what is done is in reverse order. -/
inductive Frame where
  | arr (done : List Document)
  | obj (done : List (Option String × Document))
  | member (done : List (Option String × Document)) (name : Option String)

/-- What may come next. -/
inductive Expect where
  /-- A value. -/
  | value
  /-- A value, or the end of the array that has just begun. -/
  | firstItem
  /-- A name, or the end of the object that has just begun. -/
  | firstName
  /-- A name. -/
  | name
  /-- The colon after a name. -/
  | colon
  /-- What follows a complete value. -/
  | after (value : Document)

/-- The state after a token that begins or is a value. -/
def startValue? (token : Token) (frames : List Frame) : Option (Expect × List Frame) :=
  match token with
  | .null => some (.after .null, frames)
  | .bool b => some (.after (.bool b), frames)
  | .num n => some (.after (.num n), frames)
  | .str s => some (.after (.str s), frames)
  | .leftBracket => some (.firstItem, .arr [] :: frames)
  | .leftBrace => some (.firstName, .obj [] :: frames)
  | _ => none

/-- The state after one token. -/
def step? : Expect → List Frame → Token → Option (Expect × List Frame)
  | .firstItem, .arr [] :: frames, .rightBracket => some (.after (.arr []), frames)
  | .firstName, .obj [] :: frames, .rightBrace => some (.after (.obj []), frames)
  | .value, frames, token => startValue? token frames
  | .firstItem, frames, token => startValue? token frames
  | .firstName, .obj done :: frames, .str name => some (.colon, .member done name :: frames)
  | .name, .obj done :: frames, .str name => some (.colon, .member done name :: frames)
  | .colon, frames, .colon => some (.value, frames)
  | .after value, .arr done :: frames, .comma => some (.value, .arr (value :: done) :: frames)
  | .after value, .arr done :: frames, .rightBracket =>
      some (.after (.arr (value :: done).reverse), frames)
  | .after value, .member done name :: frames, .comma =>
      some (.name, .obj ((name, value) :: done) :: frames)
  | .after value, .member done name :: frames, .rightBrace =>
      some (.after (.obj ((name, value) :: done).reverse), frames)
  | _, _, _ => none

/-- The document that the tokens complete. -/
def run? : Expect → List Frame → List Token → Option Document
  | .after value, [], [] => some value
  | _, _, [] => none
  | expect, frames, token :: rest => do
      let (expect, frames) ← step? expect frames token
      run? expect frames rest

/-- The document of a text. -/
def parse? (text : List Char) : Option Document := do
  run? .value [] (← Token.ofText? text)

/-! ## Nesting -/

mutual

/-- How many arrays and objects are nested in one another. -/
def depth : Document → Nat
  | .arr items => depthOfItems items + 1
  | .obj members => depthOfMembers members + 1
  | _ => 0

/-- The depth of the deepest item. -/
def depthOfItems : List Document → Nat
  | [] => 0
  | item :: items => max (depth item) (depthOfItems items)

/-- The depth of the deepest member. -/
def depthOfMembers : List (Option String × Document) → Nat
  | [] => 0
  | (_, value) :: members => max (depth value) (depthOfMembers members)

end

/-- How deep a value may be nested for it to be read. -/
def maxDepth : Nat := 127

end Document

end Paging.Json
