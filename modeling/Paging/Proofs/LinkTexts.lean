import Paging.Proofs.Navigation

/-!
# What links say

The parameters of a link are put in by calls, each of which writes one parameter or none
(`exists_params_call`). A run of calls writes them in order (`exists_params_foldl`), whatever it has
begun with. The text of a link gives all of them back, behind what the query of its route says, and
the page, the size and the sort tokens are read from their values (`decode_url_foldl`).
-/

namespace Paging.LinkQuery

/-- A call that puts a parameter in. -/
inductive Call where
  | page (page : UInt64)
  | size (size : UInt64)
  | sort (tokens : Option (List String))

/-- The query after a call. -/
def call (query : LinkQuery) : Call → LinkQuery
  | .page page => query.page page
  | .size size => query.size size
  | .sort tokens => query.sort tokens

/-- What a call writes: a number is read back from its text, and a list of sort tokens is the value
of its JSON text. A list without tokens is not written. -/
inductive Call.Writes : Call → List (String × String) → Prop where
  | page {page : UInt64} {text : String} (hText : wordOfText? text = some page) :
      Writes (.page page) [("page", text)]
  | size {size : UInt64} {text : String} (hText : wordOfText? text = some size) :
      Writes (.size size) [("size", text)]
  | sort {tokens : List String} {text : String} (hTokens : tokens ≠ [])
      (hText : Json.parse? text = some (.strings tokens)) :
      Writes (.sort (some tokens)) [("sort", text)]
  | unsorted {list : Option (List String)} (hNone : list = none ∨ list = some []) :
      Writes (.sort list) []

/-- A call appends what it writes. -/
theorem exists_params_call (query : LinkQuery) (call : Call) :
    ∃ written, call.Writes written ∧ (query.call call).params = query.params ++ written := by
  cases call with
  | page page => exact ⟨_, .page (wordOfText?_wordText page), rfl⟩
  | size size => exact ⟨_, .size (wordOfText?_wordText size), rfl⟩
  | sort list =>
      match list with
      | none => exact ⟨[], .unsorted (.inl rfl), (List.append_nil _).symm⟩
      | some [] => exact ⟨[], .unsorted (.inr rfl), (List.append_nil _).symm⟩
      | some (token :: rest) =>
          exact ⟨_, .sort (List.cons_ne_nil token rest) (Json.parse?_text_strings _), rfl⟩

/-- A run of calls appends what they write, one after the other. -/
theorem exists_params_foldl (query : LinkQuery) (calls : List Call) :
    ∃ written, List.Forall₂ Call.Writes calls written ∧
      (calls.foldl call query).params = query.params ++ written.flatten := by
  induction calls generalizing query with
  | nil => exact ⟨[], .nil, (List.append_nil _).symm⟩
  | cons first rest ih =>
      obtain ⟨written, hFirst, hParams⟩ := exists_params_call query first
      obtain ⟨more, hRest, hMore⟩ := ih (query.call first)
      refine ⟨written :: more, .cons hFirst hRest, ?_⟩
      rw [List.foldl_cons, hMore, hParams, List.flatten_cons, List.append_assoc]

/-- A link begins with its route, as it stands. -/
theorem prefix_toList_url (query : LinkQuery) (route : String) :
    route.toList <+: (query.url route).toList := by
  rw [url, String.toList_ofList]
  exact List.prefix_append _ _

/-- **The text of a link is read as what was put in.** Whatever calls make up a query, its text
gives its parameters back in order. Behind a route the text continues the query that the route has,
if it has one, and the pairs of both are read one after the other. The parameters are those that the
calls write. -/
theorem decode_url_foldl (calls : List Call) (route : String) :
    let query := calls.foldl call {}
    Text.Form.decode query.encode = query.params ∧
    route.toList <+: (query.url route).toList ∧
    Link.pairs (query.url route) = Link.pairs route ++ query.params ∧
    ('?' ∉ route.toList → Link.pairs route = []) ∧
    ∃ written, List.Forall₂ Call.Writes calls written ∧ query.params = written.flatten := by
  intro query
  refine ⟨Text.Form.decode_encode query.params, prefix_toList_url query route,
    Link.pairs_url query route, ?_, exists_params_foldl {} calls⟩
  intro hNone
  rw [Link.pairs, Link.splitQuery, Text.cut_of_not_mem hNone]
  rfl

/-- A route with two question marks and nothing behind its ampersand; a token with a quote and with
the characters that separate parameters. -/
theorem decode_url_foldl_quote :
    '?' ∉ "/users".toList ∧ Link.pairs "/users" = [] ∧
    Link.pairs (((LinkQuery.page {} 2).sort (some ["a\"&b=asc"])).url "/users?q=1?&") =
      [("q", "1?"), ("page", "2"), ("sort", "[\"a\\\"&b=asc\"]")] := by
  have hNone : '?' ∉ "/users".toList := by decide
  obtain ⟨-, -, -, hOwn, -⟩ := decode_url_foldl [] "/users"
  obtain ⟨-, -, hPairs, -⟩ := decode_url_foldl [.page 2, .sort (some ["a\"&b=asc"])] "/users?q=1?&"
  exact ⟨hNone, hOwn hNone, hPairs⟩

end Paging.LinkQuery
