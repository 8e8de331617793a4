import Shelf.Collection
import Shelf.Decimal.Integer
import Shelf.Text.Blank

/-!
Pages of a listing.

Pages are counted from one and have a positive size, so counts below one are raised to one. A size
that a client names is capped by the largest size of the collection's paging. Positions have 64
bits: what would be larger stays at `2^64 - 1`.
-/

namespace Shelf

/-- One page: its number and its size. -/
structure PageWindow where
  page : Nat
  limit : Nat
  page_pos : 0 < page := by omega
  limit_pos : 0 < limit := by omega
  deriving DecidableEq

/-- A position in 64 bits. -/
def saturate (n : Nat) : Nat := min n Decimal.maxSize

/-- A natural number of 64 bits read as a signed one. -/
def signed64 (n : Nat) : Int := Int.bmod n (Decimal.maxSize + 1)

namespace PageWindow

/-- The page of this number and size, each raised to one at least. -/
def ofCounts (page limit : Nat) : PageWindow := ⟨max page 1, max limit 1, by omega, by omega⟩

/-- The page with a size of at most `cap`. -/
def capped (w : PageWindow) (cap : Nat) : PageWindow :=
  ⟨w.page, min w.limit (max cap 1), w.page_pos, by have := w.limit_pos; omega⟩

/-- Reads an integer, blanks around it allowed. -/
def readCount (field raw : String) : Except Rejection Int :=
  match Decimal.readCount? (Text.trim raw.toList) with
  | some n => .ok n
  | none   => .error (.invalidValue field (.notAnInteger raw))

/-- The count that a client names, or the one used without. -/
def countOr (field : String) (without : Int) : Option String → Except Rejection Int
  | some raw => readCount field raw
  | none     => .ok without

/-- The page that a client asks for. The default size is read as a signed number like the one that
a client names. -/
def ofParams (page limit : Option String) (paging : Paging) : Except Rejection PageWindow := do
  let page ← countOr "page" 1 page
  let limit ← countOr "limit" (signed64 paging.defaultLimit) limit
  return (ofCounts page.toNat limit.toNat).capped paging.maxLimit

/-- The number of records before the page. -/
def offset (w : PageWindow) : Nat := saturate ((w.page - 1) * w.limit)

end PageWindow

/-- Where a page stands among all pages. -/
structure PageMeta where
  page : Nat
  limit : Nat
  total : Nat
  totalPages : Nat
  hasNext : Bool
  hasPrev : Bool
  deriving DecidableEq

/-- The standing of a page in a listing of `total` records. -/
def PageWindow.standing (w : PageWindow) (total : Nat) : PageMeta where
  page := w.page
  limit := w.limit
  total := total
  totalPages := (total + w.limit - 1) / w.limit
  hasNext := saturate (w.offset + w.limit) < total
  hasPrev := 1 < w.page

/-- A page of a listing. -/
structure Page where
  items : List Record
  totalCount : Nat
  standing : PageMeta

/-- The page as JSON. -/
def PageMeta.toJson (m : PageMeta) : Json :=
  .object [("hasNext", .bool m.hasNext), ("hasPrev", .bool m.hasPrev), ("limit", .int m.limit),
    ("page", .int m.page), ("total", .int m.total), ("totalPages", .int m.totalPages)]

/-- The page with its records as JSON. -/
def Page.toJson (p : Page) : Json :=
  .object [("items", .array (p.items.map Record.toJson)), ("pagination", p.standing.toJson),
    ("totalCount", .int p.totalCount)]

end Shelf
