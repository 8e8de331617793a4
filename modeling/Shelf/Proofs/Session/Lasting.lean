import Shelf.Proofs.Rewritten
import Shelf.Proofs.Session

/-!
What holds of every stored record, throughout a session.

A property of single records that no write breaks, and that every inserted record has, holds of all
records that are stored at any time. One such property is that the identifier stands beside the
fields only: a record that was read has no field of the identifier's name, and no patch makes one.
-/

namespace Shelf

variable {P : Record → Prop}

namespace Service

end Service

namespace Record

/-- No field has the identifier's name. -/
def Unnamed (r : Record) : Prop := r.fields.get? idField = none

theorem Unnamed.fresh {r : Record} (h : r.Unnamed) (now : String) : (r.fresh now).Unnamed := by
  have hversion : idField ≠ versionField := by decide
  have hcreated : idField ≠ createdField := by decide
  have hupdated : idField ≠ updatedField := by decide
  refine (Fields.get?_insert_of_ne hupdated _ _).trans ?_
  split
  · exact (Fields.get?_insert_of_ne hcreated _ _).trans
      ((Fields.get?_insert_of_ne hversion _ _).trans h)
  · exact (Fields.get?_insert_of_ne hversion _ _).trans h

end Record

end Shelf
