/-!
# Comparing words without regard to letter case

Only the letters `A` to `Z` have a case here: words such as `TRUE` or `Desc` are ASCII, and no other
character is folded onto an ASCII one.
-/

namespace Paging.Text

/-- Equal up to the case of ASCII letters. -/
def sameWord (a b : List Char) : Bool := a.map Char.toLower == b.map Char.toLower

end Paging.Text
