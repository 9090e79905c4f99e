import Paging.Json.Reader
import Paging.Request.Basic
import Paging.Text.Form

/-!
# Reading requests

Requests, parameters and settings are read from JSON documents, requests from query strings as well.

A document is an object with named fields or an array of their values in order. In an object unknown
fields are ignored, whatever stands in them, while a known field may occur once only. A null stands
for an absent value where a value may be absent.

A list of tokens has several spellings: an array of strings; a string that holds the JSON text of
such an array; any other string, which is a list of one. In query strings the last two are possible.
-/

namespace Paging

namespace Json.Document

/-! ## Fields -/

/-- What stands under a name, if anything does; nothing is read if the name is repeated. -/
def single? (members : List (Option String × Document)) (name : String) :
    Option (Option Document) :=
  match members.filter fun member => member.1 == some name with
  | [] => some none
  | [member] => some (some member.2)
  | _ => none

/-- The fields of a structure in the order of their names. An array gives the values themselves, of
which the first `required` may not be missing. -/
def fields? (names : List String) (required : Nat) : Document → Option (List (Option Document))
  | .obj members =>
      if members.all (·.1.isSome) then names.mapM (single? members) else none
  | .arr items =>
      if required ≤ items.length ∧ items.length ≤ names.length then
        some (items.map some ++ List.replicate (names.length - items.length) none)
      else none
  | _ => none

/-- Reads a field that may be absent or null. -/
def optional? {α : Type} (read : Document → Option α) : Option Document → Option (Option α)
  | none => some none
  | some .null => some none
  | some document => (read document).map some

/-- Reads a field that has a default, for which a null does not stand. -/
def withDefault? {α : Type} (read : Document → Option α) (default : α) :
    Option Document → Option α
  | none => some default
  | some document => read document

/-! ## Values of fields -/

/-- A 64-bit word: a whole number without a sign. -/
def word? : Document → Option UInt64
  | .num numeral =>
      if numeral.isWhole && !numeral.negative then
        let n := Numeral.ofDigits numeral.whole
        if n < UInt64.size then some (UInt64.ofNat n) else none
      else none
  | _ => none

/-- A string. -/
def string? : Document → Option String
  | .str text => text
  | _ => none

/-- An array of strings. -/
def strings? : Document → Option (List String)
  | .arr items => items.mapM string?
  | _ => none

end Json.Document

open Json (Document)

/-! ## Lists of tokens -/

/-- The list that a string stands for: the array of strings whose JSON text it is, or else the
string alone. -/
def tokensOfText (text : String) : List String :=
  ((Document.parse? text.toList).bind Document.strings?).getD [text]

/-- The list that a field of a document stands for. -/
def tokensOfDocument? : Document → Option (List String)
  | .str text => text.map tokensOfText
  | document => document.strings?

/-! ## Structures -/

/-- The names of a request's fields in order. -/
def Request.fieldNames : List String := ["page", "size", "sort", "filter", "nestedFilter", "route"]

/-- Reads a request. An array has to give all fields. -/
def Request.ofDocument? (document : Document) : Option Request := do
  match ← document.fields? fieldNames 6 with
  | [page, size, sort, filter, nestedFilter, route] =>
      return {
        page := ← page |> Document.optional? Document.word?
        size := ← size |> Document.optional? Document.word?
        sort := ← sort |> Document.optional? tokensOfDocument?
        filter := ← filter |> Document.optional? tokensOfDocument?
        nestedFilter := ← nestedFilter |> Document.optional? tokensOfDocument?
        route := ← route |> Document.optional? Document.string? }
  | _ => none

/-- The names of the parameters in order. -/
def Params.fieldNames : List String := ["where", "include", "select", "orderBy"]

/-- Reads parameters. An array has to give all of them. -/
def Params.ofDocument? (document : Document) : Option Params := do
  match ← document.fields? fieldNames 4 with
  | [where?, include?, select?, orderBy?] =>
      let read := Document.optional? (Document.valueWithin? 1)
      return {
        where? := ← read where?
        include? := ← read include?
        select? := ← read select?
        orderBy? := ← read orderBy? }
  | _ => none

/-- The names of the settings in order. -/
def Settings.fieldNames : List String := ["default_page", "default_size", "max_size"]

/-- Reads settings. An array may end early; what is missing has its default. -/
def Settings.ofDocument? (document : Document) : Option Settings := do
  match ← document.fields? fieldNames 0 with
  | [defaultPage, defaultSize, maxSize] =>
      let defaults : Settings := {}
      return {
        defaultPage := ← Document.withDefault? Document.word? defaults.defaultPage defaultPage
        defaultSize := ← Document.withDefault? Document.word? defaults.defaultSize defaultSize
        maxSize := ← Document.optional? Document.word? maxSize }
  | _ => none

/-- Reads a request from a JSON text. -/
def Request.ofText? (text : String) : Option Request :=
  (Document.parse? text.toList).bind ofDocument?

/-- Reads parameters from a JSON text. -/
def Params.ofText? (text : String) : Option Params :=
  (Document.parse? text.toList).bind ofDocument?

/-- Reads settings from a JSON text. -/
def Settings.ofText? (text : String) : Option Settings :=
  (Document.parse? text.toList).bind ofDocument?

/-! ## Query strings -/

/-- A 64-bit word in a query string: digits, with a plus sign before them perhaps. -/
def wordOfText? (text : String) : Option UInt64 :=
  let digits :=
    match text.toList with
    | '+' :: rest => rest
    | digits => digits
  if digits.isEmpty || !digits.all Char.isDigit then none
  else
    let n := Numeral.ofDigits digits
    if n < UInt64.size then some (UInt64.ofNat n) else none

/-- The value under a name, if there is one; nothing is read if the name is repeated. -/
def Request.pairValue? (pairs : List (String × String)) (name : String) :
    Option (Option String) :=
  match pairs.filter fun pair => pair.1 == name with
  | [] => some none
  | [pair] => some (some pair.2)
  | _ => none

/-- Reads a request from the pairs of a query string. Other names are ignored. -/
def Request.ofPairs? (pairs : List (String × String)) : Option Request := do
  let word := fun (name : String) => do
    match ← pairValue? pairs name with
    | none => return none
    | some text => return some (← wordOfText? text)
  let list := fun (name : String) => do return (← pairValue? pairs name).map tokensOfText
  return {
    page := ← word "page"
    size := ← word "size"
    sort := ← list "sort"
    filter := ← list "filter"
    nestedFilter := ← list "nestedFilter"
    route := ← pairValue? pairs "route" }

/-- Reads a request from a query string. -/
def Request.ofQuery? (query : List Char) : Option Request := ofPairs? (Text.Form.decode query)

end Paging
