/-!
# Blank characters

The characters with the Unicode property White_Space, and trimming by them. The table is the
property's own: it holds the control characters U+0009 to U+000D, NEXT LINE and NO-BREAK SPACE, but
neither ZERO WIDTH SPACE (U+200B) nor ZERO WIDTH NO-BREAK SPACE (U+FEFF).
-/

namespace Paging.Text

/-- The ranges, both ends included, of the code points with the property White_Space. -/
def blankRanges : List (Nat × Nat) :=
  [(0x9, 0xD), (0x20, 0x20), (0x85, 0x85), (0xA0, 0xA0), (0x1680, 0x1680), (0x2000, 0x200A),
    (0x2028, 0x2029), (0x202F, 0x202F), (0x205F, 0x205F), (0x3000, 0x3000)]

/-- Whether a character has the property White_Space. -/
def isBlank (c : Char) : Bool :=
  blankRanges.any fun (first, last) => first ≤ c.toNat && c.toNat ≤ last

/-- Drops the blanks at both ends. -/
def trim (text : List Char) : List Char :=
  ((text.dropWhile isBlank).reverse.dropWhile isBlank).reverse

end Paging.Text
