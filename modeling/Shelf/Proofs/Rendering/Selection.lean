import Shelf.Proofs.Arrival
import Shelf.Proofs.Projection
import Shelf.Proofs.Uuid
import Shelf.Rendering

/-!
What a rendered projection selects.

A document with ones selects the fields marked so and the identifier, and a document with zeros all
but the fields marked so. Read like this, a rendered projection selects the fields of a record that
the projection keeps. It selects the identifier too, unless the projection drops a field by the name
under which identifiers are stored: that name is not the one that projection texts are checked for.

    fields=-id     refused
    fields=-_id    { _id: 0, __v: 0 }
-/

namespace Shelf

/-- The members of a record as they are stored, the identifier under its stored name. -/
def Record.stored (r : Record) : Fields := r.fields ++ [(storedId, .string r.id.text)]

/-- Whether a value is this mark. -/
def DocValue.isMark (mark : Int) : DocValue → Bool
  | .int32 n => n == mark
  | _        => false

/-- Whether a document gives a name this mark. -/
def Document.marks (d : Document) (mark : Int) (name : String) : Bool :=
  d.any fun e => e.1 == name && e.2.isMark mark

/-- Whether a projection document selects a stored member. -/
def Document.selects (d : Document) (name : String) : Bool :=
  if d.any fun e => e.2.isMark 1 then name == storedId || d.marks 1 name else !d.marks 0 name

/-! ### Marked names -/

theorem mem_foldl_mark {mark : Int} {name : String} : ∀ {names : List String} {d : Document},
    (name, .int32 mark) ∈ d ∨ name ∈ names →
      (name, .int32 mark) ∈ names.foldl (fun d n => Document.insert d n (.int32 mark)) d
  | [],      d, h => h.resolve_right List.not_mem_nil
  | n :: ns, d, h => by
    rw [List.foldl_cons]
    refine mem_foldl_mark ?_
    by_cases hn : name = n
    · subst hn
      exact .inl (Arrival.mem_put_self ..)
    · refine h.imp (Arrival.mem_put_of_ne hn _) fun h => ?_
      exact (List.mem_cons.1 h).resolve_left hn

theorem mem_marked {names : List String} {mark : Int} {e : String × DocValue} :
    e ∈ marked names mark ↔ ∃ name ∈ names, e = (name, .int32 mark) := by
  constructor
  · intro h
    exact (Arrival.mem_foldl_put h).resolve_right List.not_mem_nil
  · rintro ⟨name, hname, rfl⟩
    exact mem_foldl_mark (.inr hname)

theorem marks_marked (names : List String) (mark : Int) (name : String) :
    (marked names mark).marks mark name = names.contains name := by
  rw [Bool.eq_iff_iff, Document.marks, List.any_eq_true, List.contains_iff_mem]
  constructor
  · rintro ⟨e, he, h⟩
    obtain ⟨n, hn, rfl⟩ := mem_marked.1 he
    obtain ⟨hname, -⟩ := Bool.and_eq_true_iff.1 h
    exact beq_iff_eq.1 hname ▸ hn
  · intro hname
    refine ⟨_, mem_marked.2 ⟨name, hname, rfl⟩, ?_⟩
    rw [beq_self_eq_true, Bool.true_and]
    exact beq_self_eq_true mark

theorem marks_marked_of_ne {mark other : Int} (h : other ≠ mark) (names : List String)
    (name : String) : (marked names other).marks mark name = false := by
  refine List.any_eq_false.2 fun e he => ?_
  obtain ⟨n, -, rfl⟩ := mem_marked.1 he
  intro hmark
  obtain ⟨-, hmark⟩ := Bool.and_eq_true_iff.1 hmark
  exact h (beq_iff_eq.1 hmark)

theorem selects_marked_one {names : List String} (h : names ≠ []) (name : String) :
    (marked names 1).selects name = (name == storedId || names.contains name) := by
  obtain ⟨n, hn⟩ := List.exists_mem_of_ne_nil names h
  have hone : ((marked names 1).any fun e => e.2.isMark 1) = true :=
    List.any_eq_true.2 ⟨_, mem_marked.2 ⟨n, hn, rfl⟩, rfl⟩
  rw [Document.selects, if_pos hone, marks_marked]

theorem selects_marked_zero (names : List String) (name : String) :
    (marked names 0).selects name = !names.contains name := by
  have hone : ((marked names 0).any fun e => e.2.isMark 1) = false := by
    refine List.any_eq_false.2 fun e he => ?_
    obtain ⟨n, -, rfl⟩ := mem_marked.1 he
    exact Bool.false_ne_true
  rw [Document.selects, hone, if_neg Bool.false_ne_true, marks_marked]

/-! ### Rendered projections -/

namespace Projection

/-- Beside the identifier, a rendered projection selects what the projection keeps. -/
theorem selects_render (p : Projection) {name : String} (h : name ≠ storedId) :
    p.render.selects name = p.keeps name := by
  cases p with
  | standard hidden =>
    rw [render, selects_marked_zero, keeps, List.contains_cons, List.contains_nil, Bool.or_false]
    rfl
  | keep fields =>
    cases fields with
    | nil =>
      rw [render, selects_marked_one (List.cons_ne_nil _ _), List.contains_cons,
        beq_eq_false_iff_ne.2 h]
      rfl
    | cons f fs =>
      rw [render, selects_marked_one (List.cons_ne_nil _ _), beq_eq_false_iff_ne.2 h]
      · rfl
      · exact List.cons_ne_nil f fs
  | drop fields hidden =>
    rw [render, selects_marked_zero, keeps, List.contains_append, List.contains_cons,
      List.contains_nil, Bool.or_false, Bool.not_or, Bool.and_comm]
    rfl

/-- A rendered projection selects the identifier unless it marks it with a zero. -/
theorem selects_storedId (p : Projection) :
    p.render.selects storedId = !p.render.marks 0 storedId := by
  cases p with
  | standard hidden => rw [render, selects_marked_zero, marks_marked]
  | keep fields =>
    cases fields with
    | nil => rfl
    | cons f fs =>
      rw [render, selects_marked_one (List.cons_ne_nil f fs), marks_marked_of_ne (by decide)]
      · rfl
      · exact List.cons_ne_nil f fs
  | drop fields hidden => rw [render, selects_marked_zero, marks_marked]

variable {raw : Option String} {p : Projection}

/-- Only a text that drops the identifier's stored name has it marked with a zero. -/
theorem marks_storedId_iff (h : read raw versionField = .ok p) :
    p.render.marks 0 storedId = true ↔ Drops raw storedId := by
  rw [← drop_mem_choices]
  rcases ofChoices_cases (read_eq_ok_iff.1 h).2 with ⟨hnone, rfl⟩ | ⟨hkeep, rfl⟩ | ⟨hdrop, rfl⟩
  · rw [render, marks_marked, hnone]
    decide
  · have hone : (Projection.keep (fieldsOf (choices raw))).render.marks 0 storedId = false := by
      cases fieldsOf (choices raw) with
      | nil => rfl
      | cons f fs => exact marks_marked_of_ne (by decide) (f :: fs) storedId
    rw [hone]
    refine ⟨fun h => absurd h Bool.false_ne_true, fun h => ?_⟩
    exact absurd (hkeep _ h) Bool.false_ne_true
  · rw [render, marks_marked, List.contains_iff_mem, List.mem_append, mem_fieldsOf]
    constructor
    · rintro (⟨-, choice, hchoice, hfield⟩ | hhidden)
      · cases choice with
        | keep f => exact absurd (hdrop _ hchoice) Bool.noConfusion
        | drop f => exact hfield ▸ hchoice
      · exact absurd (List.mem_singleton.1 hhidden) (by decide)
    · exact fun h => .inl ⟨by decide, _, h, rfl⟩

/-- What a rendered projection selects of the fields is what the projection keeps of them. -/
theorem filter_fields_selects (p : Projection) {r : Record} (hr : ∀ m ∈ r.fields, m.1 ≠ storedId) :
    (r.fields.filter fun m => p.render.selects m.1) = (p.apply r).fields :=
  List.filter_congr fun m hm => p.selects_render (hr m hm)

/-- On stored records an accepted projection selects the same fields either way, and the same
members altogether unless its text drops the identifier's stored name, which the checks let through.
Then, and only then, its document has the identifier left out. -/
theorem selection_agrees_iff (h : read raw versionField = .ok p) :
    (∀ r : Record, (∀ m ∈ r.fields, m.1 ≠ storedId) →
      (r.fields.filter fun m => p.render.selects m.1) = (p.apply r).fields ∧
      ((r.stored.filter fun m => p.render.selects m.1) = (p.apply r).stored ↔
        ¬ Drops raw storedId)) ∧
    (p.render.marks 0 storedId = true ↔ Drops raw storedId) := by
  have hzero := marks_storedId_iff h
  refine ⟨fun r hr => ⟨p.filter_fields_selects hr, ?_⟩, hzero⟩
  rw [Record.stored, Record.stored, List.filter_append, p.filter_fields_selects hr,
    List.append_cancel_left_eq, ← hzero]
  cases hmark : p.render.marks 0 storedId with
  | false =>
    have hselected : p.render.selects storedId = true := by rw [selects_storedId, hmark]; rfl
    refine ⟨fun _ => Bool.false_ne_true, fun _ => ?_⟩
    exact List.filter_cons_of_pos hselected
  | true =>
    have hleft : p.render.selects storedId = false := by rw [selects_storedId, hmark]; rfl
    refine ⟨fun hsame => ?_, fun hnot => absurd rfl hnot⟩
    rw [List.filter_cons_of_neg (by rw [hleft]; exact Bool.false_ne_true)] at hsame
    exact absurd hsame.symm (List.cons_ne_nil _ _)

/-- Dropping the title leaves the identifier, and the fields that the projection keeps. -/
theorem selection_without_title :
    let p : Projection := .drop ["title"] versionField
    let r : Record := ⟨.uniform 1, [("price", .int 3), ("title", .string "a")]⟩
    read (some "-title") versionField = .ok p ∧
      (r.stored.filter fun m => p.render.selects m.1) = (p.apply r).stored := by
  intro p r
  have h : read (some "-title") versionField = .ok p := rfl
  have hr : ∀ m ∈ r.fields, m.1 ≠ storedId := by
    intro m hm
    rcases List.mem_pair.1 hm with rfl | rfl <;> decide
  have hnot : ¬ Drops (some "-title") storedId := by
    rintro ⟨text, ⟨rfl⟩, hentry⟩
    exact absurd hentry (by decide)
  exact ⟨h, ((selection_agrees_iff h).1 r hr).2.2 hnot⟩

/-- Dropping the stored name of the identifier is accepted, and the document leaves it out. -/
theorem stored_identifier_dropped :
    let p : Projection := .drop [storedId] versionField
    let r : Record := ⟨.uniform 1, []⟩
    read (some "-_id") versionField = .ok p ∧ p.render.marks 0 storedId = true ∧
      (r.stored.filter fun m => p.render.selects m.1) = [] ∧
      (p.apply r).stored = [(storedId, .string r.id.text)] :=
  ⟨rfl, rfl, rfl, rfl⟩

end Projection

end Shelf
