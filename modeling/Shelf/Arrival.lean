/-!
Named entries in order of arrival.

A row of entries holds each name at most once. Writing to a name that is there replaces its value
and keeps its place; writing to a new name puts it at the end.

    put "b" 9   [a:1, b:2, c:3]   =   [a:1, b:9, c:3]
    put "d" 9   [a:1, b:2, c:3]   =   [a:1, b:2, c:3, d:9]
-/

namespace Shelf.Arrival

variable {α : Type}

/-- Writes one entry. -/
def put (name : String) (value : α) : List (String × α) → List (String × α)
  | []             => [(name, value)]
  | (n, v) :: rest => if n = name then (n, value) :: rest else (n, v) :: put name value rest

/-! ### Reading back, and the names after a write -/

theorem lookup_put_self (name : String) (value : α) (row : List (String × α)) :
    (put name value row).lookup name = some value := by
  induction row with
  | nil => simp [put]
  | cons e row ih =>
    obtain ⟨n, v⟩ := e
    by_cases h : n = name
    · simp [put, h]
    · simp [put, h, List.lookup_cons, ih, beq_eq_false_iff_ne.2 (Ne.symm h)]

theorem lookup_put_of_ne {name other : String} (h : other ≠ name) (value : α)
    (row : List (String × α)) : (put name value row).lookup other = row.lookup other := by
  induction row with
  | nil => simp [put, List.lookup_cons, beq_eq_false_iff_ne.2 h]
  | cons e row ih =>
    obtain ⟨n, v⟩ := e
    by_cases hn : n = name
    · subst hn
      simp [put, List.lookup_cons, beq_eq_false_iff_ne.2 h]
    · simp [put, hn, List.lookup_cons, ih]

theorem names_put (name : String) (value : α) (row : List (String × α)) :
    (put name value row).map Prod.fst =
      if name ∈ row.map Prod.fst then row.map Prod.fst else row.map Prod.fst ++ [name] := by
  induction row with
  | nil => simp [put]
  | cons e row ih =>
    obtain ⟨n, v⟩ := e
    by_cases h : n = name
    · simp [put, h]
    · simp only [put, h, if_false, List.map_cons, ih, List.mem_cons, Ne.symm h, false_or]
      split <;> simp

end Shelf.Arrival
