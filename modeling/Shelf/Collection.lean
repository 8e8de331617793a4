import Shelf.Record

/-!
Collections and what clients may ask of them.

A collection lists the fields that clients may filter by and those that they may sort by; the
identifier can always be sorted by. Fields for text search match by substring and not by equality,
and the reserved field stays out of listings unless a client asks for it.
-/

namespace Shelf

/-- What clients may ask of one collection. -/
structure Collection where
  name : String
  filterable : List String := []
  sortable : List String := []
  textSearch : List String := ["title"]
  reserved : String := versionField
  deriving DecidableEq

namespace Collection

/-- A collection with no field to filter or to sort by. -/
def named (name : String) : Collection := { name }

/-- More fields to filter by. -/
def withFilterable (c : Collection) (fields : List String) : Collection :=
  { c with filterable := c.filterable ++ fields }

/-- More fields to sort by. -/
def withSortable (c : Collection) (fields : List String) : Collection :=
  { c with sortable := c.sortable ++ fields }

/-- Other fields for text search. -/
def withTextSearch (c : Collection) (fields : List String) : Collection :=
  { c with textSearch := fields }

/-- Whether clients may filter by the field. -/
def isFilterable (c : Collection) (field : String) : Bool := c.filterable.contains field

/-- Whether clients may sort by the field. -/
def isSortable (c : Collection) (field : String) : Bool :=
  field == idField || c.sortable.contains field

/-- Whether the field matches by substring. -/
def isTextSearch (c : Collection) (field : String) : Bool := c.textSearch.contains field

/-- The product catalogue. -/
def products : Collection :=
  let scalars := ["title", "slug", "brand", "price", "category", "quantity", "sold", "color",
    "totalRatings"]
  ((named "products").withFilterable scalars).withSortable (scalars ++ ["createdAt", "updatedAt"])

/-- The blog posts. -/
def blogs : Collection :=
  ((named "blogs").withFilterable ["title", "category", "author", "numberViews"]).withSortable
    ["title", "category", "numberViews", "createdAt"]

end Collection

/-- Page sizes: the one used when a client names none, and the largest one. Both have 64 bits. -/
structure Paging where
  defaultLimit : Nat := 20
  maxLimit : Nat := 100
  deriving DecidableEq

end Shelf
