import Paging.Link.Basic
import Paging.Request.Reader

/-!
# Following links

A link is followed by reading its query string as a request. The text has to be the target of an
HTTP request: it starts with a slash, is not too long, and neither its path nor its query holds a
character that may not stand there. What comes after a number sign is not sent.
-/

namespace Paging.Link

/-- Why a link cannot be followed. -/
inductive FollowError where
  /-- The text is no request target. -/
  | invalidTarget
  /-- The query string is no request. -/
  | invalidQuery
deriving DecidableEq, Repr

/-- Whether a character is a blank or a control character of ASCII. Neither may stand in a target. -/
def isControl (c : Char) : Bool := c.toNat ≤ 0x20 || c.toNat = 0x7F

/-- The characters that may stand in a path. -/
def isPathChar (c : Char) : Bool := !isControl c && !(['#', '<', '>', '?', '\x60'].contains c)

/-- The characters that may stand in a query. -/
def isQueryChar (c : Char) : Bool := !isControl c && !(['"', '#', '<', '>'].contains c)

/-- The longest request target, in octets. -/
def maxTarget : Nat := 65534

/-- The text before the first question mark, and the text after it. -/
def splitQuery (target : List Char) : List Char × List Char := Text.cut '?' target

/-- The query of a request target, empty if there is none. -/
def targetQuery? (link : String) : Option (List Char) :=
  let (target, _) := Text.cut '#' link.toList
  let (path, query) := splitQuery target
  if (Text.Utf8.encode link.toList).length ≤ maxTarget ∧ path.head? = some '/'
      ∧ path.all isPathChar ∧ query.all isQueryChar then
    some query
  else none

/-- The request that a link stands for. -/
def follow (link : String) : Except FollowError Request :=
  match targetQuery? link with
  | none => .error .invalidTarget
  | some query =>
      match Request.ofQuery? query with
      | none => .error .invalidQuery
      | some request => .ok request

end Paging.Link
