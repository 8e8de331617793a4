import Mathlib.Data.List.DropRight
import Shelf.Proofs.Arrival
import Shelf.Proofs.Distinct
import Shelf.Proofs.Params.Bracketed

/-!
What a sequence of edits leaves.

Names keep the places in which they first came up. What a name holds depends on the edits of that
name alone: a plain edit that is its last one leaves a text, and nested edits leave the operators
written since the last plain one, in order of first use and each with its last text.

    size=1 & price[gte]=1 & price=5 & price[lt]=9 & price[gt]=2 & price[lt]=8
    size   1
    price  [lt] 8, [gt] 2
-/

namespace Shelf

/-! ### Writes in sequence -/

namespace Arrival

variable {α : Type} {writes row : List (String × α)}

/-- A row that holds each name written once, in order of first writes, with its last value. -/
structure Collects (writes row : List (String × α)) : Prop where
  names : row.map Prod.fst = (writes.map Prod.fst).eraseDups
  last : ∀ name, row.lookup name = writes.reverse.lookup name

theorem collects_nil : Collects ([] : List (String × α)) [] := ⟨rfl, fun _ => rfl⟩

/-- A write puts its name behind the names that were written, unless it is one of them. -/
theorem names_put_of_eraseDups {names : List String} (h : row.map Prod.fst = names.eraseDups)
    (name : String) (value : α) :
    (put name value row).map Prod.fst = (names ++ [name]).eraseDups := by
  rw [names_put, h, eraseDups_concat]
  simp only [List.mem_eraseDups]

theorem Collects.put (h : Collects writes row) (name : String) (value : α) :
    Collects (writes ++ [(name, value)]) (put name value row) := by
  refine ⟨?_, fun other => ?_⟩
  · rw [List.map_append]
    exact names_put_of_eraseDups h.names name value
  · rw [List.reverse_concat, List.lookup_cons]
    by_cases hother : other = name
    · rw [hother, lookup_put_self, beq_self_eq_true]
    · rw [lookup_put_of_ne hother, beq_eq_false_iff_ne.2 hother, h.last]

end Arrival

/-! ### One name -/

namespace ParamEdit

/-- The name that an edit writes. -/
def name : ParamEdit → String
  | .insert name _         => name
  | .insertNested name _ _ => name

/-- The operator that a nested edit writes, with its text. -/
def operator? : ParamEdit → Option (String × String)
  | .insert _ _             => none
  | .insertNested _ op text => some (op, text)

/-- What an edit makes of the value that its name has. -/
def rewrite : ParamEdit → Option ParamValue → ParamValue
  | .insert _ text,          _   => .single text
  | .insertNested _ op text, old =>
    .nested (Arrival.put op text ((old.map ParamValue.ops).getD []))

/-- The operators that are written behind the last plain edit. -/
def operatorsSince (edits : List ParamEdit) : List (String × String) :=
  (edits.rtakeWhile (·.operator?.isSome)).filterMap operator?

end ParamEdit

/-- What a name holds after the edits of it: the text of a plain last edit, or the operators of the
nested edits behind the last plain one. -/
inductive ParamValue.LeftBy : List ParamEdit → Option ParamValue → Prop
  | untouched : LeftBy [] none
  | plain {edits : List ParamEdit} {name text : String} :
    LeftBy (edits ++ [.insert name text]) (some (.single text))
  | nested {edits : List ParamEdit} {name op text : String} {ops : List (String × String)} :
    Arrival.Collects (ParamEdit.operatorsSince (edits ++ [.insertNested name op text])) ops →
      LeftBy (edits ++ [.insertNested name op text]) (some (.nested ops))

namespace ParamEdit

theorem operatorsSince_insert (edits : List ParamEdit) (name text : String) :
    operatorsSince (edits ++ [.insert name text]) = [] := by
  rw [operatorsSince, List.rtakeWhile_concat_neg _ _ _ Bool.false_ne_true]
  rfl

theorem operatorsSince_insertNested (edits : List ParamEdit) (name op text : String) :
    operatorsSince (edits ++ [.insertNested name op text]) =
      operatorsSince edits ++ [(op, text)] := by
  rw [operatorsSince, List.rtakeWhile_concat_pos _ _ _ rfl, List.filterMap_append]
  rfl

end ParamEdit

namespace ParamValue.LeftBy

variable {edits : List ParamEdit} {value : Option ParamValue}

/-- Whatever a name holds, its operators are those written behind the last plain edit. -/
theorem collects (h : LeftBy edits value) :
    Arrival.Collects (ParamEdit.operatorsSince edits) ((value.map ParamValue.ops).getD []) := by
  cases h with
  | untouched => exact Arrival.collects_nil
  | plain =>
    rw [ParamEdit.operatorsSince_insert]
    exact Arrival.collects_nil
  | nested hops => exact hops

theorem rewrite (h : LeftBy edits value) (edit : ParamEdit) :
    LeftBy (edits ++ [edit]) (some (edit.rewrite value)) := by
  cases edit with
  | insert name text => exact .plain
  | insertNested name op text =>
    refine .nested ?_
    rw [ParamEdit.operatorsSince_insertNested]
    exact h.collects.put op text

end ParamValue.LeftBy

/-! ### All names -/

namespace Params

theorem entries_apply (p : Params) (edit : ParamEdit) :
    (p.apply edit).entries = Arrival.put edit.name (edit.rewrite (p.get? edit.name)) p.entries := by
  cases edit <;> rfl

/-- Parameters that edits leave. -/
structure LeftBy (edits : List ParamEdit) (p : Params) : Prop where
  names : p.entries.map Prod.fst = (edits.map ParamEdit.name).eraseDups
  distinct : (p.entries.map Prod.fst).Nodup
  value : ∀ name, ParamValue.LeftBy (edits.filter (·.name = name)) (p.get? name)

theorem LeftBy.apply {edits : List ParamEdit} {p : Params} (h : LeftBy edits p)
    (edit : ParamEdit) : LeftBy (edits ++ [edit]) (p.apply edit) := by
  refine ⟨?_, ?_, fun name => ?_⟩
  · rw [entries_apply, List.map_append]
    exact Arrival.names_put_of_eraseDups h.names _ _
  · rw [entries_apply]
    exact Arrival.nodup_names_put _ _ h.distinct
  · rw [get?, entries_apply, List.filter_append]
    by_cases hname : edit.name = name
    · rw [← hname, Arrival.lookup_put_self, List.filter_cons_of_pos (by simp), List.filter_nil]
      exact (h.value edit.name).rewrite edit
    · rw [Arrival.lookup_put_of_ne (Ne.symm hname), List.filter_cons_of_neg (by simpa using hname),
        List.filter_nil, List.append_nil]
      exact h.value name

theorem leftBy_ofEdits (edits : List ParamEdit) : LeftBy edits (ofEdits edits) := by
  induction edits using List.reverseRecOn with
  | nil => exact ⟨rfl, List.nodup_nil, fun _ => .untouched⟩
  | append_singleton edits edit ih =>
    rw [ofEdits, List.foldl_concat]
    exact ih.apply edit

example :
    (ofEdits [.insert "size" "1", .insertNested "price" "gte" "1", .insert "price" "5",
      .insertNested "price" "lt" "9", .insertNested "price" "gt" "2",
      .insertNested "price" "lt" "8"]).entries =
      [("size", .single "1"), ("price", .nested [("lt", "8"), ("gt", "2")])] := by decide

/-- Edits leave each name where it first came up, with what its own edits say, and a query text
comes to the edits that its pairs ask for, each key of them being cut in one way at most. -/
theorem edited_in_order (edits : List ParamEdit) (raw : String) :
    LeftBy edits (ofEdits edits) ∧
      (∃ asked, List.Forall₂ ParamEdit.AskedBy (queryPairs raw) asked ∧
        ofQuery raw = ofEdits asked) ∧
      ∀ key, {cut : String × String | Brackets key cut.1 cut.2}.Subsingleton :=
  ⟨leftBy_ofEdits edits, exists_asked raw, subsingleton_brackets⟩

end Params

end Shelf
