import Paging.QueryError
import Paging.Request.Basic

/-!
# Windows

A window is a page number, from one on, and a positive size. From it follow how many records come
before the page, how many pages a count of records fills, and whether there are pages on either side.
The arithmetic is on natural numbers; only the count of records before the page can leave the range
of words, and is then the greatest word.
-/

namespace Paging

/-- A page number and a size, both positive. -/
structure Window where
  page : UInt64
  size : UInt64
  page_pos : 0 < page.toNat
  size_pos : 0 < size.toNat
deriving DecidableEq

/-- The word nearest to a natural number: the number itself, or the greatest word. -/
def saturated (n : Nat) : UInt64 := UInt64.ofNat (min n (UInt64.size - 1))

theorem toNat_saturated (n : Nat) : (saturated n).toNat = min n (UInt64.size - 1) := by
  simp only [saturated, UInt64.toNat_ofNat', UInt64.size]
  omega

namespace Window

/-- The window of a page and a size; a zero is an error, of the page first. -/
def make (page size : UInt64) : Except QueryError Window :=
  if hPage : 0 < page.toNat then
    if hSize : 0 < size.toNat then .ok ⟨page, size, hPage, hSize⟩
    else .error (.invalidPage "size must be greater than 0")
  else .error (.invalidPage "page must be at least 1")

/-- The size that a request gets: its own or the default, at most the greatest one allowed. -/
def effectiveSize (request : Request) (settings : Settings) : UInt64 :=
  let size := request.size.getD settings.defaultSize
  match settings.maxSize with
  | some limit => if limit < size then limit else size
  | none => size

/-- The window of a request. -/
def resolve (request : Request) (settings : Settings) : Except QueryError Window :=
  make (request.page.getD settings.defaultPage) (effectiveSize request settings)

/-- How many records come before the page. -/
def skip (window : Window) : UInt64 := saturated ((window.page.toNat - 1) * window.size.toNat)

/-- How many records the page holds at most. -/
def take (window : Window) : UInt64 := window.size

/-- How many pages a number of records fills, the last one perhaps in part. -/
def totalPages (window : Window) (totalCount : UInt64) : UInt64 :=
  UInt64.ofNat ((totalCount.toNat + window.size.toNat - 1) / window.size.toNat)

/-- Whether there is a page before this one. -/
def hasPrev (window : Window) : Bool := 1 < window.page.toNat

/-- Whether there is a page after this one. -/
def hasNext (window : Window) (totalPages : UInt64) : Bool :=
  window.page.toNat < totalPages.toNat

end Window

end Paging
