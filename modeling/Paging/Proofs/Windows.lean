import Mathlib.Algebra.Order.Floor.Div
import Paging.Window

/-!
# Windows over counted records

The number of pages is the quotient of the number of records and the size, rounded up: there are
more than `n` pages exactly if `n` pages do not hold all records (`lt_totalPages_iff`). So every
page that there is begins at a record that there is, and neither the numbers of its neighbours nor
the number of records before it leave the range of words.
-/

namespace Paging.Window

variable {window : Window} {totalCount totalPages : UInt64}

theorem toNat_totalPages (window : Window) (totalCount : UInt64) :
    (window.totalPages totalCount).toNat = totalCount.toNat ⌈/⌉ window.size.toNat := by
  have hLe : totalCount.toNat ⌈/⌉ window.size.toNat ≤ totalCount.toNat := by
    rw [ceilDiv_le_iff_le_mul window.size_pos]
    exact Nat.le_mul_of_pos_left totalCount.toNat window.size_pos
  rw [Window.totalPages, UInt64.toNat_ofNat', ← Nat.ceilDiv_eq_add_pred_div]
  exact Nat.mod_eq_of_lt (Nat.lt_of_le_of_lt hLe totalCount.toNat_lt_size)

theorem totalPages_le_iff {n : Nat} :
    (window.totalPages totalCount).toNat ≤ n ↔ totalCount.toNat ≤ n * window.size.toNat := by
  rw [toNat_totalPages, ceilDiv_le_iff_le_mul window.size_pos, Nat.mul_comm]

/-- There are more than `n` pages exactly if `n` pages do not hold all records. -/
theorem lt_totalPages_iff {n : Nat} :
    n < (window.totalPages totalCount).toNat ↔ n * window.size.toNat < totalCount.toNat := by
  rw [← Nat.not_le, ← Nat.not_le, totalPages_le_iff]

/-- As long as there are words for it, the number of records before a page is exact. -/
theorem toNat_skip (hLt : (window.page.toNat - 1) * window.size.toNat < UInt64.size) :
    window.skip.toNat = (window.page.toNat - 1) * window.size.toNat := by
  rw [skip, toNat_saturated]
  omega

/-- The page before has a number, unless this is the first page. -/
theorem toNat_page_sub_one (hPrev : window.hasPrev = true) :
    (window.page - 1).toNat = window.page.toNat - 1 ∧ 0 < (window.page - 1).toNat := by
  have hOne : 1 < window.page.toNat := of_decide_eq_true hPrev
  have hNumber : (window.page - 1).toNat = window.page.toNat - 1 :=
    UInt64.toNat_sub_of_le _ _ (UInt64.le_iff_toNat_le.2 (Nat.le_of_lt hOne))
  exact ⟨hNumber, by omega⟩

/-- The page after has a number, if there is one. -/
theorem toNat_page_add_one (hNext : window.hasNext totalPages = true) :
    (window.page + 1).toNat = window.page.toNat + 1 := by
  have hLast : window.page.toNat < totalPages.toNat := of_decide_eq_true hNext
  have hMax := totalPages.toNat_lt_size
  rw [UInt64.toNat_add]
  exact Nat.mod_eq_of_lt (show window.page.toNat + 1 < UInt64.size by omega)

end Paging.Window
