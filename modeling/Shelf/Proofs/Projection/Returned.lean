import Shelf.Proofs.Projection
import Shelf.Proofs.Text.Identifier

/-!
The fields that a projection text returns.

A text is accepted when every entry names an identifier, the record's own identifier is not dropped,
and entries that keep do not stand beside entries that drop. What it returns depends on the set of
its entries only:

    title,price,id        title and price
    id                    nothing but the identifier
    -price,-price         all but price and the hidden field
    ,                     all but the hidden field
-/

namespace Shelf

namespace FieldChoice

theorem allowed_iff {choice : FieldChoice} :
    choice.Allowed ↔ Text.IsIdentifier choice.field.toList ∧ choice ≠ .drop idField := by
  rw [← Text.isPlainToken_and_undotted_iff]
  exact ⟨fun h => ⟨⟨h.plain, h.whole⟩, h.kept⟩, fun h => ⟨h.1.1, h.1.2, h.2⟩⟩

theorem eq_keep {choice : FieldChoice} (h : choice.isKeep = true) : choice = .keep choice.field := by
  cases choice with
  | keep f => rfl
  | drop f => cases h

theorem eq_drop {choice : FieldChoice} (h : choice.isKeep = false) :
    choice = .drop choice.field := by
  cases choice with
  | keep f => cases h
  | drop f => rfl

end FieldChoice

namespace Projection

/-! ### Which choices make a projection -/

/-- Choices that can be made together. -/
structure Consistent (cs : List FieldChoice) : Prop where
  identifiers : ∀ choice ∈ cs, Text.IsIdentifier choice.field.toList
  identified : .drop idField ∉ cs
  unmixed : ∀ f g, .keep f ∈ cs → .drop g ∉ cs

theorem exists_ofChoices_iff {cs : List FieldChoice} {hidden : String} :
    (∃ p, ofChoices cs hidden = .ok p) ↔ ∀ f g, .keep f ∈ cs → .drop g ∉ cs := by
  constructor
  · rintro ⟨p, h⟩ f g hkeep hdrop
    rcases ofChoices_cases h with ⟨rfl, -⟩ | ⟨hall, -⟩ | ⟨hall, -⟩
    · exact List.not_mem_nil hkeep
    · exact Bool.false_ne_true (hall _ hdrop)
    · exact Bool.false_ne_true (hall _ hkeep).symm
  · intro h
    unfold ofChoices
    dsimp only
    split
    · exact ⟨_, rfl⟩
    · exact ⟨_, rfl⟩
    · exact ⟨_, rfl⟩
    · next kept _ dropped _ hkept hdropped =>
      have hkeep : kept ∈ cs.filter FieldChoice.isKeep := hkept ▸ List.mem_cons_self
      have hdrop : dropped ∈ cs.filter (!·.isKeep) := hdropped ▸ List.mem_cons_self
      obtain ⟨hkeep, hkept⟩ := List.mem_filter.1 hkeep
      obtain ⟨hdrop, hdropped⟩ := List.mem_filter.1 hdrop
      have hnot : dropped.isKeep = false := by simpa using hdropped
      rw [FieldChoice.eq_keep hkept] at hkeep
      rw [FieldChoice.eq_drop hnot] at hdrop
      exact absurd hdrop (h _ _ hkeep)

theorem exists_read_iff {raw : Option String} {hidden : String} :
    (∃ p, read raw hidden = .ok p) ↔ Consistent (choices raw) := by
  simp only [read_eq_ok_iff, exists_and_left, exists_ofChoices_iff, FieldChoice.allowed_iff]
  constructor
  · rintro ⟨hallowed, hunmixed⟩
    exact ⟨fun choice h => (hallowed choice h).1, fun h => (hallowed _ h).2 rfl, hunmixed⟩
  · rintro ⟨hidentifiers, hidentified, hunmixed⟩
    refine ⟨fun choice h => ⟨hidentifiers choice h, ?_⟩, hunmixed⟩
    rintro rfl
    exact hidentified h

/-! ### Which fields are returned -/

/-- A field is returned when the choices keep it, or when they keep none and neither drop nor hide
it. -/
inductive Returned (cs : List FieldChoice) (hidden field : String) : Prop
  | kept : .keep field ∈ cs → field ≠ idField → Returned cs hidden field
  | left : (∀ f, .keep f ∉ cs) → field ≠ hidden → .drop field ∉ cs → Returned cs hidden field

/-- The fields of choices that are all made in one way. -/
theorem mem_fieldsOf_of_made {cs : List FieldChoice} {made : String → FieldChoice}
    (hfield : ∀ f, (made f).field = f) (hmade : ∀ choice ∈ cs, choice = made choice.field)
    {f : String} : f ∈ fieldsOf cs ↔ f ≠ idField ∧ made f ∈ cs := by
  rw [mem_fieldsOf, and_congr_right_iff]
  intro _
  constructor
  · rintro ⟨choice, hchoice, rfl⟩
    exact hmade choice hchoice ▸ hchoice
  · exact fun h => ⟨made f, h, hfield f⟩

theorem keeps_iff_returned {cs : List FieldChoice} {hidden : String} {p : Projection}
    (hid : .drop idField ∉ cs) (h : ofChoices cs hidden = .ok p) (field : String) :
    p.keeps field = true ↔ Returned cs hidden field := by
  rcases ofChoices_cases h with ⟨rfl, rfl⟩ | ⟨hkeep, rfl⟩ | ⟨hdrop, rfl⟩
  · rw [keeps, bne_iff_ne]
    constructor
    · exact fun hfield => .left (fun _ => List.not_mem_nil) hfield List.not_mem_nil
    · rintro (⟨hmem, -⟩ | ⟨-, hfield, -⟩)
      · exact absurd hmem List.not_mem_nil
      · exact hfield
  · have hmade : ∀ choice ∈ cs, choice = .keep choice.field :=
      fun choice hchoice => FieldChoice.eq_keep (hkeep choice hchoice)
    rw [keeps, List.contains_iff_mem, mem_fieldsOf_of_made (fun _ => rfl) hmade]
    constructor
    · exact fun hfield => .kept hfield.2 hfield.1
    · rintro (⟨hmem, hfield⟩ | ⟨hnone, -, -⟩)
      · exact ⟨hfield, hmem⟩
      · cases cs with
        | nil => cases h
        | cons choice cs =>
          refine absurd ?_ (hnone choice.field)
          rw [← hmade choice List.mem_cons_self]
          exact List.mem_cons_self
  · have hmade : ∀ choice ∈ cs, choice = .drop choice.field :=
      fun choice hchoice => FieldChoice.eq_drop (hdrop choice hchoice)
    have hnone : ∀ f, .keep f ∉ cs := fun f hf => Bool.false_ne_true (hdrop _ hf).symm
    rw [keeps, Bool.and_eq_true, bne_iff_ne, Bool.not_eq_true', ← Bool.not_eq_true,
      List.contains_iff_mem, mem_fieldsOf_of_made (fun _ => rfl) hmade]
    constructor
    · rintro ⟨hhidden, hnot⟩
      refine .left hnone hhidden fun hmem => hnot ⟨?_, hmem⟩
      rintro rfl
      exact hid hmem
    · rintro (⟨hmem, -⟩ | ⟨-, hhidden, hnot⟩)
      · exact absurd hmem (hnone field)
      · exact ⟨hhidden, fun hmem => hnot hmem.2⟩

/-! ### What becomes of a record -/

/-- What a projection makes of records: it keeps the identifier, the fields that are returned and
their values, and a second time it changes nothing. -/
structure Returns (cs : List FieldChoice) (hidden : String) (p : Projection) : Prop where
  identifier : ∀ r, (p.apply r).id = r.id
  order : ∀ r, (p.apply r).fields.Sublist r.fields
  members : ∀ r m, m ∈ (p.apply r).fields ↔ m ∈ r.fields ∧ Returned cs hidden m.1
  again : ∀ r, p.apply (p.apply r) = p.apply r

theorem apply_apply (p : Projection) (r : Record) : p.apply (p.apply r) = p.apply r :=
  congrArg (Record.mk r.id) (List.filter_filter.trans (List.filter_congr fun _ _ => Bool.and_self _))

theorem apply_eq_of_keeps {p q : Projection} (h : ∀ f, p.keeps f = q.keeps f) (r : Record) :
    p.apply r = q.apply r :=
  congrArg (Record.mk r.id) (List.filter_congr fun m _ => h m.1)

theorem returns_of_keeps {cs : List FieldChoice} {hidden : String} {p : Projection}
    (h : ∀ field, p.keeps field = true ↔ Returned cs hidden field) : Returns cs hidden p where
  identifier _ := rfl
  order _ := List.filter_sublist
  members _ m := List.mem_filter.trans (and_congr_right fun _ => h m.1)
  again := p.apply_apply

/-! ### Order and repetition -/

section Same

variable {cs cs' : List FieldChoice} (h : ∀ choice, choice ∈ cs' ↔ choice ∈ cs)

include h

theorem Consistent.of_same (hcs : Consistent cs) : Consistent cs' where
  identifiers choice hchoice := hcs.identifiers choice ((h choice).1 hchoice)
  identified hid := hcs.identified ((h _).1 hid)
  unmixed f g hf hg := hcs.unmixed f g ((h _).1 hf) ((h _).1 hg)

theorem Returned.of_same {hidden field : String} (hfield : Returned cs hidden field) :
    Returned cs' hidden field := by
  cases hfield with
  | kept hmem hid => exact .kept ((h _).2 hmem) hid
  | left hnone hhidden hnot =>
    exact .left (fun f hf => hnone f ((h _).1 hf)) hhidden fun hmem => hnot ((h _).1 hmem)

end Same

/-- Entries in another order, or repeated, spell the same choices. -/
theorem mem_choices_of_entries {raw raw' : String}
    (h : ∀ entry, entry ∈ Text.entries raw' ↔ entry ∈ Text.entries raw) (choice : FieldChoice) :
    choice ∈ choices (some raw') ↔ choice ∈ choices (some raw) := by
  rw [choices, choices, List.mem_map, List.mem_map]
  exact exists_congr fun entry => and_congr_left fun _ => h entry

theorem keeps_iff_of_read {raw : Option String} {hidden : String} {p : Projection}
    (h : read raw hidden = .ok p) (field : String) :
    p.keeps field = true ↔ Returned (choices raw) hidden field :=
  keeps_iff_returned (exists_read_iff.1 ⟨p, h⟩).identified (read_eq_ok_iff.1 h).2 field

/-- A text is accepted when its entries are consistent. It then returns of every record what the
entries name, whatever their order and however often each is repeated. -/
theorem returns_named (raw hidden : String) :
    ((∃ p, read (some raw) hidden = .ok p) ↔ Consistent (choices (some raw))) ∧
      ∀ p, read (some raw) hidden = .ok p → Returns (choices (some raw)) hidden p ∧
        ∀ raw', (∀ entry, entry ∈ Text.entries raw' ↔ entry ∈ Text.entries raw) →
          ∃ p', read (some raw') hidden = .ok p' ∧ ∀ r, p'.apply r = p.apply r := by
  refine ⟨exists_read_iff, fun p hp => ⟨returns_of_keeps (keeps_iff_of_read hp), fun raw' h => ?_⟩⟩
  have hmem := mem_choices_of_entries h
  obtain ⟨p', hp'⟩ := exists_read_iff.2 ((exists_read_iff.1 ⟨p, hp⟩).of_same hmem)
  refine ⟨p', hp', apply_eq_of_keeps fun field => Bool.eq_iff_iff.2 ?_⟩
  rw [keeps_iff_of_read hp, keeps_iff_of_read hp']
  exact ⟨Returned.of_same fun choice => (hmem choice).symm, Returned.of_same hmem⟩

end Projection

end Shelf
