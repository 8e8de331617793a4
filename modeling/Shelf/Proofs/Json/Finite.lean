import Shelf.Record

/-!
Values whose floating-point numbers are finite.

JSON has no other numbers, so a value that was read is finite throughout. What can be read out of a
finite record, by name or along a path, is finite too.
-/

namespace Shelf

mutual

/-- Whether every floating-point number in a value is finite. -/
def Json.isFinite : Json → Bool
  | .number (.real x) => x.isFinite
  | .array xs         => Json.itemsFinite xs
  | .object ms        => Json.membersFinite ms
  | _                 => true

/-- Whether the items of a list are finite. -/
def Json.itemsFinite : List Json → Bool
  | []      => true
  | x :: xs => x.isFinite && Json.itemsFinite xs

/-- Whether the members of an object are finite. -/
def Json.membersFinite : List (String × Json) → Bool
  | []           => true
  | (_, v) :: ms => v.isFinite && Json.membersFinite ms

end

/-- Whether the fields of a record are finite. -/
def Record.isFinite (r : Record) : Bool := Json.membersFinite r.fields

/-! ### Reading -/

theorem Fields.isFinite_of_get? {fs : Fields} {name : String} {v : Json}
    (h : Json.membersFinite fs = true) (hv : fs.get? name = some v) : v.isFinite = true := by
  induction fs with
  | nil => simp [Fields.get?] at hv
  | cons m fs ih =>
    obtain ⟨n, w⟩ := m
    simp only [Json.membersFinite, Bool.and_eq_true] at h
    rw [Fields.get?, List.lookup_cons] at hv
    split at hv
    · exact Option.some.inj hv ▸ h.1
    · exact ih h.2 hv

theorem Record.isFinite_of_descend {v w : Json} {path : List String} (h : v.isFinite = true)
    (hw : Record.descend v path = some w) : w.isFinite = true := by
  induction path generalizing v with
  | nil => exact Option.some.inj hw ▸ h
  | cons name path ih =>
    obtain ⟨u, hu, huw⟩ := Option.bind_eq_some_iff.1 hw
    obtain ⟨ms, hms, hu⟩ := Option.bind_eq_some_iff.1 hu
    cases v with
    | object fs =>
      obtain rfl := Option.some.inj hms
      exact ih (Fields.isFinite_of_get? h hu) huw
    | _ => simp [Json.members?] at hms

theorem Record.isFinite_of_valueOf? {r : Record} {path : String} {v : Json}
    (h : r.isFinite = true) (hv : r.valueOf? path = some v) : v.isFinite = true := by
  rw [Record.valueOf?] at hv
  split at hv
  · exact Option.some.inj hv ▸ rfl
  · exact Record.isFinite_of_descend (v := .object r.fields) h hv

end Shelf
