import Shelf.Proofs.Json.Members
import Shelf.Proofs.Patch

/-!
Reading and writing the fields of a record.

Writes to different fields commute, and of two writes to one field the second is what remains. A
name without a dot is a path of its own, so reading along it is reading the field. A list field that
is absent or null reads as empty, and any other value but a list cannot be read.
-/

namespace Shelf

namespace Record

/-! ### Writes in sequence -/

theorem set_set_self (r : Record) (field : String) (v w : Json) :
    (r.set field v).set field w = r.set field w :=
  congrArg (Record.mk r.id) (Fields.insert_insert_self field v w r.fields)

theorem set_comm {f g : String} (h : f ≠ g) (r : Record) (v w : Json) :
    (r.set f v).set g w = (r.set g w).set f v :=
  congrArg (Record.mk r.id) (Fields.insert_comm h v w r.fields)

/-! ### Paths -/

/-- A name without a dot leads to the field of that name. -/
theorem get?_of_undotted {field : String} (h : '.' ∉ field.toList) (r : Record) :
    r.get? field = r.fields.get? field := by
  have hone : pathNames field = [field] := by
    rw [pathNames, List.splitOn_eq_singleton h, List.map_singleton, String.ofList_toList]
  rw [get?, hone]
  exact Option.bind_fun_some _

/-- A name with a dot leads to another field first. -/
theorem exists_pathNames_of_dotted {field : String} (h : '.' ∈ field.toList) :
    ∃ first path, pathNames field = first :: path ∧ first ≠ field := by
  obtain ⟨front, back, hsplit, hfront⟩ := List.eq_append_cons_of_mem h
  refine ⟨String.ofList front, (back.splitOn '.').map String.ofList, ?_, ?_⟩
  · rw [pathNames, hsplit, List.splitOn_append_cons_self_of_not_mem hfront, List.map_cons]
  · rintro rfl
    rw [String.toList_ofList] at h
    exact hfront h

/-- Reading along a name with a dot does not see the field of that name. -/
theorem get?_set_of_dotted {field : String} (h : '.' ∈ field.toList) (r : Record) (v : Json) :
    (r.set field v).get? field = r.get? field := by
  obtain ⟨first, path, hnames, hne⟩ := exists_pathNames_of_dotted h
  have hfirst : (r.set field v).fields.get? first = r.fields.get? first :=
    Fields.get?_insert_of_ne hne v r.fields
  rw [get?, get?, hnames]
  exact congrArg (Option.bind · (descend · path)) hfirst

theorem valueOf?_of_undotted {field : String} (h : '.' ∉ field.toList) (hid : field ≠ idField)
    (r : Record) : r.valueOf? field = r.fields.get? field := by
  rw [valueOf?, if_neg hid, get?_of_undotted h]

/-! ### Lists -/

/-- What the value of a field reads as, where it reads as a list. -/
inductive ReadsAsList : Option Json → List Json → Prop
  | absent : ReadsAsList none []
  | null : ReadsAsList (some .null) []
  | array (xs : List Json) : ReadsAsList (some (.array xs)) xs

theorem list_eq_ok_iff {r : Record} {field : String} {xs : List Json} :
    r.list field = .ok xs ↔ ReadsAsList (r.fields.get? field) xs := by
  rw [list]
  constructor
  · intro h
    split at h <;> cases h
    · next hfield => rw [hfield]; exact .absent
    · next hfield => rw [hfield]; exact .null
    · next hfield => rw [hfield]; exact .array xs
  · intro h
    cases hfield : r.fields.get? field with
    | none => rw [hfield] at h; cases h; rfl
    | some v => rw [hfield] at h; cases h <;> rfl

/-- A value that does not read as a list is reported. -/
theorem list_eq_error_iff {r : Record} {field : String} {e : Corruption} :
    r.list field = .error e ↔ ∃ v, r.fields.get? field = some v ∧
      (∀ xs, ¬ ReadsAsList (some v) xs) ∧ e = .notAList field v := by
  constructor
  · intro h
    have hnone : ∀ xs, ¬ ReadsAsList (r.fields.get? field) xs := by
      intro xs hxs
      rw [list_eq_ok_iff.2 hxs] at h
      cases h
    rw [list] at h
    split at h <;> cases h
    next v _ _ hv => exact ⟨v, hv, hv ▸ hnone, rfl⟩
  · rintro ⟨v, hv, hnone, rfl⟩
    rw [list, hv]
    cases v with
    | null => exact absurd .null (hnone [])
    | array xs => exact absurd (.array xs) (hnone xs)
    | _ => rfl

/-- A list with an item is stored as one. -/
theorem ReadsAsList.eq_array {stored : Option Json} {xs : List Json} (h : ReadsAsList stored xs)
    (hne : xs ≠ []) : stored = some (.array xs) := by
  cases h with
  | absent => exact absurd rfl hne
  | null => exact absurd rfl hne
  | array xs => rfl

theorem list_set_self (r : Record) (field : String) (xs : List Json) :
    (r.set field (.array xs)).list field = .ok xs := by
  rw [list, show (r.set field (.array xs)).fields.get? field = some (.array xs) from
    Fields.get?_insert_self field (.array xs) r.fields]

theorem list_set_of_ne {field other : String} (h : other ≠ field) (r : Record) (v : Json) :
    (r.set field v).list other = r.list other := by
  rw [list, list, show (r.set field v).fields.get? other = r.fields.get? other from
    Fields.get?_insert_of_ne h v r.fields]

end Record

end Shelf
