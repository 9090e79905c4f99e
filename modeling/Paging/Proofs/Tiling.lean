import Paging.Link.Basic
import Paging.Proofs.Windows

/-!
# Pages tile the records

Records are numbered from zero, in the order of the store. The windows of one size cover all of them
and do not overlap: the only window that covers a record is the one on the page that the quotient of
its number by the size tells (`covers_iff`). Where the number of records before a page does not fit
into a word, it is cut down to the greatest word, which no record has for its number; so a page that
is cut down stays empty and takes no record from another page.

The pages that there are are told from those behind the last one by where they begin
(`skip_lt_iff`).
-/

namespace Paging

namespace Window

variable {window : Window} {totalCount : UInt64}

/-- The record with this number is on the page. -/
def Covers (window : Window) (index : Nat) : Prop :=
  window.skip.toNat ≤ index ∧ index < window.skip.toNat + window.take.toNat

/-- A page begins behind a record exactly if it would do so without being cut down. -/
theorem lt_skip_iff {index : Nat} (hIndex : index + 1 < UInt64.size) :
    index < window.skip.toNat ↔ index < (window.page.toNat - 1) * window.size.toNat := by
  rw [skip, toNat_saturated]
  omega

/-- The page that covers a record is told by the number of the record. -/
theorem covers_iff {index : Nat} (hIndex : index + 1 < UInt64.size) :
    window.Covers index ↔ window.page.toNat - 1 = index / window.size.toNat := by
  have hStart : window.skip.toNat ≤ index ↔
      (window.page.toNat - 1) * window.size.toNat ≤ index := by
    rw [← Nat.not_lt, lt_skip_iff hIndex, Nat.not_lt]
  rw [eq_comm, Nat.div_eq_iff window.size_pos, Covers, hStart]
  refine and_congr_right fun hLe => ?_
  -- A page that begins at a record is not cut down.
  rw [toNat_skip (by omega), take]
  have hSize := window.size_pos
  omega

/-- There is a page for every record. -/
theorem exists_covers (size : UInt64) (hSize : 0 < size.toNat) {index : Nat}
    (hIndex : index + 1 < UInt64.size) :
    ∃ window : Window, window.size = size ∧ window.Covers index := by
  have hPage : (UInt64.ofNat (index / size.toNat + 1)).toNat = index / size.toNat + 1 :=
    UInt64.toNat_ofNat_of_lt'
      (Nat.lt_of_le_of_lt (Nat.succ_le_succ (Nat.div_le_self index size.toNat)) hIndex)
  have hPos : 0 < (UInt64.ofNat (index / size.toNat + 1)).toNat := by
    rw [hPage]
    exact Nat.succ_pos _
  refine ⟨⟨_, size, hPos, hSize⟩, rfl, ?_⟩
  rw [covers_iff hIndex, hPage, Nat.add_sub_cancel]

/-- No two windows of one size cover the same record. -/
theorem eq_of_covers {other : Window} (hSize : window.size = other.size) {index : Nat}
    (hIndex : index + 1 < UInt64.size) (hCovers : window.Covers index)
    (hOther : other.Covers index) : window = other := by
  rw [covers_iff hIndex] at hCovers hOther
  rw [hSize, ← hOther] at hCovers
  have hFirst := window.page_pos
  have hSecond := other.page_pos
  have hPage : window.page = other.page := UInt64.toNat_inj.1 (by omega)
  rw [mk.injEq]
  exact ⟨hPage, hSize⟩

/-- The pages that there are begin at a record, and no other page does. -/
theorem skip_lt_iff :
    window.skip.toNat < totalCount.toNat ↔
      window.page.toNat ≤ (window.totalPages totalCount).toNat := by
  have hPage := window.page_pos
  have hTotal := totalCount.toNat_lt_size
  have hPages : window.page.toNat ≤ (window.totalPages totalCount).toNat ↔
      window.page.toNat - 1 < (window.totalPages totalCount).toNat := by omega
  rw [hPages, lt_totalPages_iff, skip, toNat_saturated]
  omega

/-- A page that covers a record is one of those that there are. -/
theorem page_le_totalPages_of_covers {index : Nat} (hIndex : index < totalCount.toNat)
    (hCovers : window.Covers index) :
    window.page.toNat ≤ (window.totalPages totalCount).toNat :=
  skip_lt_iff.1 (Nat.lt_of_le_of_lt hCovers.1 hIndex)

/-- There is a next page exactly if some record lies behind this one. -/
theorem hasNext_iff :
    window.hasNext (window.totalPages totalCount) = true ↔
      ∃ index < totalCount.toNat, window.page.toNat * window.size.toNat ≤ index := by
  rw [hasNext, decide_eq_true_iff, lt_totalPages_iff]
  constructor
  · intro hLt
    exact ⟨_, hLt, Nat.le_refl _⟩
  · intro h
    obtain ⟨index, hIndex, hBehind⟩ := h
    exact Nat.lt_of_le_of_lt hBehind hIndex

end Window

/-! ## Neighbours -/

namespace Links

/-- The link to a page of a number. -/
def toPage (route : String) (window : Window) (sort : Option (List String)) (page : UInt64) :
    String :=
  (((LinkQuery.page {} page).size window.size).sort sort).url route

variable (route : String) (window : Window) (totalPages : UInt64) (sort : Option (List String))

/-- The previous link is empty on the first page, and elsewhere names the number before. -/
theorem prev_make :
    (window.page.toNat = 1 ∧ (make route window totalPages sort).prev = "") ∨
      ∃ page : UInt64, 0 < page.toNat ∧ page.toNat + 1 = window.page.toNat ∧
        (make route window totalPages sort).prev = toPage route window sort page := by
  by_cases hPrev : window.hasPrev = true
  · obtain ⟨hNumber, hPos⟩ := Window.toNat_page_sub_one hPrev
    exact .inr ⟨window.page - 1, hPos, by omega, if_pos hPrev⟩
  · have hOne : ¬1 < window.page.toNat := fun hLt => hPrev (decide_eq_true hLt)
    have hPos := window.page_pos
    exact .inl ⟨by omega, if_neg hPrev⟩

/-- The next link is empty from the last page on, and elsewhere names the number after. -/
theorem next_make :
    (totalPages.toNat ≤ window.page.toNat ∧ (make route window totalPages sort).next = "") ∨
      ∃ page : UInt64, page.toNat = window.page.toNat + 1 ∧ page.toNat ≤ totalPages.toNat ∧
        (make route window totalPages sort).next = toPage route window sort page := by
  by_cases hNext : window.hasNext totalPages = true
  · have hNumber := Window.toNat_page_add_one hNext
    have hLt : window.page.toNat < totalPages.toNat := of_decide_eq_true hNext
    exact .inr ⟨window.page + 1, hNumber, by omega, if_pos hNext⟩
  · have hLe : ¬window.page.toNat < totalPages.toNat := fun hLt => hNext (decide_eq_true hLt)
    exact .inl ⟨by omega, if_neg hNext⟩

end Links

/-- **Pages tile the records.** Whatever the size and the number of records, every record is on one
page and on no other, and that page is one of those that there are. These begin at a record, and
their begin is not cut down; behind them every page is empty. There is a next page exactly if
records are left, and the links to the neighbours name the numbers before and after, which are
words. -/
theorem Window.tiles_records (window : Window) (totalCount : UInt64) :
    (∀ index < totalCount.toNat, ∃ home : Window,
      (home.size = window.size ∧ home.Covers index ∧
        home.page.toNat ≤ (window.totalPages totalCount).toNat) ∧
      ∀ other : Window, other.size = window.size → other.Covers index → other = home) ∧
    (window.page.toNat ≤ (window.totalPages totalCount).toNat →
      window.skip.toNat = (window.page.toNat - 1) * window.size.toNat ∧
        window.skip.toNat < totalCount.toNat) ∧
    ((window.totalPages totalCount).toNat < window.page.toNat →
      totalCount.toNat ≤ window.skip.toNat) ∧
    (window.hasNext (window.totalPages totalCount) = true ↔
      ∃ index < totalCount.toNat, window.page.toNat * window.size.toNat ≤ index) ∧
    ∀ route totalPages sort,
      let links := Links.make route window totalPages sort
      ((window.page.toNat = 1 ∧ links.prev = "") ∨ ∃ page : UInt64, 0 < page.toNat ∧
        page.toNat + 1 = window.page.toNat ∧ links.prev = Links.toPage route window sort page) ∧
      ((totalPages.toNat ≤ window.page.toNat ∧ links.next = "") ∨ ∃ page : UInt64,
        page.toNat = window.page.toNat + 1 ∧ page.toNat ≤ totalPages.toNat ∧
          links.next = Links.toPage route window sort page) := by
  have hTotal := totalCount.toNat_lt_size
  refine ⟨?_, ?_, ?_, hasNext_iff, ?_⟩
  · intro index hIndex
    have hWord : index + 1 < UInt64.size := by omega
    obtain ⟨home, hSize, hCovers⟩ := exists_covers window.size window.size_pos hWord
    have hPages : home.totalPages totalCount = window.totalPages totalCount := by
      rw [totalPages, totalPages, hSize]
    have hLe := page_le_totalPages_of_covers hIndex hCovers
    rw [hPages] at hLe
    refine ⟨home, ⟨hSize, hCovers, hLe⟩, ?_⟩
    intro other hOther hAlso
    exact eq_of_covers (hOther.trans hSize.symm) hWord hAlso hCovers
  · intro hLe
    have hLt := skip_lt_iff.2 hLe
    refine ⟨?_, hLt⟩
    rw [skip, toNat_saturated] at hLt ⊢
    omega
  · intro hLt
    exact Nat.not_lt.1 fun hBegins => Nat.not_le.2 hLt (skip_lt_iff.1 hBegins)
  · intro route totalPages sort
    exact ⟨Links.prev_make route window totalPages sort,
      Links.next_make route window totalPages sort⟩

/-- A page whose begin is cut down. -/
example : (⟨0x8000000000000001, 2, by decide, by decide⟩ : Window).skip = 0xFFFFFFFFFFFFFFFF := by
  decide

end Paging
