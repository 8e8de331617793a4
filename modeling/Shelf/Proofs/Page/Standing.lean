import Mathlib.Algebra.Order.Floor.Semiring
import Mathlib.Data.Rat.Floor
import Shelf.Proofs.Listing

/-!
Where a page stands among all pages.

The standing of a page is worked out in 64 bits. A position that has no place there stays at the
largest number, and no list is longer than that, so the comparisons come out as they do for exact
numbers. Nothing else leaves the 64 bits, and a page has a positive size to divide by.

    limit 3, total 7      page 1    page 2    page 3    page 4    page 2^63
    first position        0         3         6         9         2^64 - 1
    next page             yes       yes       no        no        no
    records               0 1 2     3 4 5     6         none      none
-/

namespace Shelf

/-! ### Arithmetic in 64 bits -/

/-- A sum, if it has 64 bits. -/
def plus? (a b : Nat) : Option Nat := if a + b ≤ Decimal.maxSize then some (a + b) else none

/-- A difference, if it is not negative. -/
def minus? (a b : Nat) : Option Nat := if b ≤ a then some (a - b) else none

/-- A quotient and what remains, unless the divisor is zero. -/
def quotient? (a b : Nat) : Option (Nat × Nat) := if b = 0 then none else some (a / b, a % b)

/-- A quotient rounded up: one more when something remains. -/
def quotientUp? (a b : Nat) : Option Nat := do
  let (q, rest) ← quotient? a b
  if 0 < rest then plus? q 1 else some q

/-! ### The number of pages -/

theorem pagesFor_eq_ceil {size : Nat} (h : 0 < size) (n : Nat) :
    pagesFor size n = ⌈(n : ℚ) / size⌉₊ := by
  have hsize : (0 : ℚ) < size := by exact_mod_cast h
  refine eq_of_forall_ge_iff fun k => ?_
  rw [pagesFor_le_iff h, Nat.ceil_le, div_le_iff₀ hsize]
  exact_mod_cast Iff.rfl

theorem pagesFor_eq_succ {size n : Nat} (h : 0 < n % size) (hsize : 0 < size) :
    pagesFor size n = n / size + 1 := by
  have hdiv := Nat.div_add_mod' n size
  have hmod := Nat.mod_lt n hsize
  have hle : pagesFor size n ≤ n / size + 1 := by
    rw [pagesFor_le_iff hsize, Nat.succ_mul]
    omega
  have hgt : ¬ pagesFor size n ≤ n / size := by
    rw [pagesFor_le_iff hsize]
    omega
  omega

theorem pagesFor_eq_div {size n : Nat} (h : n % size = 0) (hsize : 0 < size) :
    pagesFor size n = n / size := by
  refine le_antisymm ?_ (Nat.div_le_div_right (by omega))
  rw [pagesFor_le_iff hsize, Nat.div_mul_cancel (Nat.dvd_of_mod_eq_zero h)]

/-- Rounding up never overflows: a quotient that leaves something is at most half as large. -/
theorem quotientUp?_eq {size n : Nat} (h : 0 < size) (hn : n ≤ Decimal.maxSize) :
    quotientUp? n size = some (pagesFor size n) := by
  have hup : quotientUp? n size =
      if 0 < n % size then plus? (n / size) 1 else some (n / size) := by
    rw [quotientUp?, quotient?, if_neg h.ne']
    rfl
  rw [hup]
  split
  · next hrest =>
    have htwo : 2 ≤ size := by
      have hmod := Nat.mod_lt n h
      omega
    have hhalf : n / size ≤ n / 2 := Nat.div_le_div_left htwo (by decide)
    have hroom : n / size + 1 ≤ Decimal.maxSize := by
      rw [Decimal.maxSize] at hn ⊢
      omega
    rw [plus?, if_pos hroom, pagesFor_eq_succ hrest h]
  · next hrest => rw [pagesFor_eq_div (by omega) h]

namespace PageWindow

/-- The number of pages. -/
def totalPages64? (w : PageWindow) (total : Nat) : Option Nat :=
  if total = 0 then some 0 else quotientUp? total w.limit

/-- The standing of a page, worked out in 64 bits step by step; there is none if a step fails. -/
def standing64? (w : PageWindow) (total : Nat) : Option PageMeta := do
  let totalPages ← w.totalPages64? total
  let start := saturate ((← minus? w.page 1) * w.limit)
  return ⟨w.page, w.limit, total, totalPages, saturate (start + w.limit) < total, 1 < w.page⟩

/-- The position belongs to the page. -/
def Covers (w : PageWindow) (i : Nat) : Prop := (w.page - 1) * w.limit ≤ i ∧ i < w.page * w.limit

/-- What a client is told about a page is right in exact arithmetic. -/
structure Exact (w : PageWindow) (total : Nat) : Prop where
  computed : w.standing64? total = some (w.standing total)
  totalPages_eq : (w.standing total).totalPages = ⌈(total : ℚ) / w.limit⌉₊
  hasNext_iff : (w.standing total).hasNext = true ↔ w.page * w.limit < total
  hasNext_iff_page : (w.standing total).hasNext = true ↔ w.page < (w.standing total).totalPages
  hasPrev_iff : (w.standing total).hasPrev = true ↔ 1 < w.page
  offset_eq : w.offset = min ((w.page - 1) * w.limit) (2 ^ 64 - 1)
  covers_iff : (∃ i < total, w.Covers i) ↔ w.page ≤ (w.standing total).totalPages

/-! ### Positions in 64 bits -/

variable {w : PageWindow} {total : Nat}

/-- The end of a page lies before the end of the list in 64 bits when it does so exactly. -/
theorem saturate_offset_lt_iff (w : PageWindow) (h : total ≤ Decimal.maxSize) :
    saturate (w.offset + w.limit) < total ↔ w.page * w.limit < total := by
  have hend : (w.page - 1) * w.limit + w.limit = w.page * w.limit := by
    rw [← Nat.succ_mul, Nat.succ_eq_add_one, Nat.sub_add_cancel w.page_pos]
  rw [offset, saturate, saturate]
  omega

theorem totalPages64?_eq (w : PageWindow) (h : total ≤ Decimal.maxSize) :
    w.totalPages64? total = some (pagesFor w.limit total) := by
  rw [totalPages64?]
  split
  · next hzero =>
    rw [hzero, pagesFor_eq_div (Nat.zero_mod _) w.limit_pos, Nat.zero_div]
  · exact quotientUp?_eq w.limit_pos h

theorem standing64?_eq (w : PageWindow) (h : total ≤ Decimal.maxSize) :
    w.standing64? total = some (w.standing total) := by
  have hstart : minus? w.page 1 = some (w.page - 1) := if_pos w.page_pos
  rw [standing64?, w.totalPages64?_eq h, hstart]
  rfl

/-- A page covers a position of the list when it is none of the pages behind the last one. -/
theorem exists_covers_iff (w : PageWindow) (total : Nat) :
    (∃ i < total, w.Covers i) ↔ (w.page - 1) * w.limit < total := by
  have hone := w.page_pos
  have hsize : (w.page - 1) * w.limit < w.page * w.limit :=
    Nat.mul_lt_mul_of_pos_right (by omega) w.limit_pos
  constructor
  · rintro ⟨i, hi, hstart, -⟩
    omega
  · intro h
    exact ⟨(w.page - 1) * w.limit, h, le_rfl, hsize⟩

/-- The standing of a page is exact over all of the 64 bits. -/
theorem exact_standing (w : PageWindow) {total : Nat} (h : total < 2 ^ 64) : w.Exact total := by
  have hmax : total ≤ Decimal.maxSize := by
    rw [Decimal.maxSize]
    omega
  have hpages : (w.standing total).totalPages = pagesFor w.limit total := rfl
  have hnext : (w.standing total).hasNext = true ↔ w.page * w.limit < total := by
    rw [← saturate_offset_lt_iff w hmax]
    exact decide_eq_true_iff
  refine ⟨standing64?_eq w hmax, ?_, hnext, ?_, decide_eq_true_iff, rfl, ?_⟩
  · rw [hpages, pagesFor_eq_ceil w.limit_pos]
  · rw [hpages, hnext, lt_pagesFor_iff w.limit_pos]
  · have hone := w.page_pos
    rw [hpages, exists_covers_iff, ← lt_pagesFor_iff w.limit_pos]
    omega

/-- The largest page of the largest size, and the largest list. -/
theorem exact_standing_largest :
    let w : PageWindow := ⟨2 ^ 64 - 1, 2 ^ 64 - 1, by decide, by decide⟩
    2 ^ 64 - 1 < 2 ^ 64 ∧ w.Exact (2 ^ 64 - 1) := by
  intro w
  exact ⟨by decide, exact_standing w (by decide)⟩

end PageWindow

end Shelf
