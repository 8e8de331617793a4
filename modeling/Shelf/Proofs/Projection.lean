import Shelf.Projection
import Shelf.Proofs.Filter.FromParams

/-!
What an accepted projection text says.

Every entry of the text spells a choice, and an accepted text makes choices of one kind only: all
keep their fields, or all drop them. The fields of the projection are the chosen ones without the
identifier, each of them a plain token without a dot.
-/

namespace Shelf

namespace FieldChoice

/-- The choice that an entry spells, before it is checked. -/
def spelled : List Char → FieldChoice
  | '-' :: cs => .drop (String.ofList cs)
  | cs        => .keep (String.ofList cs)

/-- A choice that the checks let through. -/
structure Allowed (choice : FieldChoice) : Prop where
  plain : Text.isPlainToken choice.field = true
  whole : '.' ∉ choice.field.toList
  kept : choice ≠ .drop idField

theorem check_eq_ok_iff {choice made : FieldChoice} :
    choice.check = .ok made ↔ choice.Allowed ∧ made = choice := by
  rw [check, bind_eq_ok]
  constructor
  · rintro ⟨_, hplain, h⟩
    split at h
    · cases h
    · next hwhole =>
      split at h
      · cases h
      · next hkept =>
        cases h
        exact ⟨⟨checkToken_eq_ok.1 hplain, hwhole, hkept⟩, rfl⟩
  · rintro ⟨⟨hplain, hwhole, hkept⟩, rfl⟩
    refine ⟨(), checkToken_eq_ok.2 hplain, ?_⟩
    rw [if_neg hwhole, if_neg hkept]

theorem read_eq (cs : List Char) : read cs = (spelled cs).check := by
  unfold read
  split
  · rfl
  · next hsign =>
    have hspelled : spelled cs = .keep (String.ofList cs) := by
      unfold spelled
      split
      · next cs => exact absurd rfl (hsign cs)
      · rfl
    rw [hspelled]

theorem read_eq_ok_iff {cs : List Char} {made : FieldChoice} :
    read cs = .ok made ↔ (spelled cs).Allowed ∧ made = spelled cs := by
  rw [read_eq, check_eq_ok_iff]

end FieldChoice

namespace Projection

/-- The choices that a projection text spells; without a text there is none. -/
def choices (raw : Option String) : List FieldChoice :=
  ((raw.map Text.entries).getD []).map FieldChoice.spelled

/-- A projection text has an entry that drops a field. -/
def Drops (raw : Option String) (field : String) : Prop :=
  ∃ text, raw = some text ∧ '-' :: field.toList ∈ Text.entries text

/-- The fields that a projection names, the hidden one aside. -/
def fields : Projection → List String
  | .standard _ => []
  | .keep fs    => fs
  | .drop fs _  => fs

theorem drop_mem_choices {raw : Option String} {field : String} :
    .drop field ∈ choices raw ↔ Drops raw field := by
  constructor
  · intro h
    obtain ⟨entry, hentry, hspelled⟩ := List.mem_map.1 h
    cases raw with
    | none => exact absurd hentry List.not_mem_nil
    | some text =>
      refine ⟨text, rfl, ?_⟩
      unfold FieldChoice.spelled at hspelled
      split at hspelled
      · next cs =>
        cases hspelled
        rw [String.toList_ofList]
        exact hentry
      · cases hspelled
  · rintro ⟨text, rfl, hentry⟩
    refine List.mem_map.2 ⟨_, hentry, ?_⟩
    rw [FieldChoice.spelled, String.ofList_toList]

/-! ### The fields of the choices -/

theorem mem_addName {names : List String} {name f : String} :
    f ∈ addName names name ↔ f ∈ names ∨ f = name := by
  rw [addName]
  split
  · next hmem =>
    refine ⟨.inl, ?_⟩
    rintro (hf | rfl)
    · exact hf
    · exact List.contains_iff_mem.1 hmem
  · rw [List.mem_append, List.mem_singleton]

theorem mem_foldl_addName {f : String} : ∀ {more names : List String},
    f ∈ more.foldl addName names ↔ f ∈ names ∨ f ∈ more
  | [],           names => by simp
  | name :: more, names => by
    rw [List.foldl_cons, mem_foldl_addName, mem_addName, List.mem_cons, or_assoc]

theorem mem_fieldsOf {cs : List FieldChoice} {f : String} :
    f ∈ fieldsOf cs ↔ f ≠ idField ∧ ∃ choice ∈ cs, choice.field = f := by
  rw [fieldsOf, mem_foldl_addName, List.mem_filter, List.mem_map]
  simp [and_comm]

/-! ### Choices of one kind -/

theorem ofChoices_cases {cs : List FieldChoice} {hidden : String} {p : Projection}
    (h : ofChoices cs hidden = .ok p) :
    (cs = [] ∧ p = .standard hidden) ∨
    ((∀ choice ∈ cs, choice.isKeep = true) ∧ p = .keep (fieldsOf cs)) ∨
    ((∀ choice ∈ cs, choice.isKeep = false) ∧ p = .drop (fieldsOf cs) hidden) := by
  have hnone : ∀ {test : FieldChoice → Bool}, cs.filter test = [] →
      ∀ choice ∈ cs, test choice = false := by
    intro test hnil choice hchoice
    exact Bool.eq_false_iff.2 (List.filter_eq_nil_iff.1 hnil choice hchoice)
  have hall : ∀ {test : FieldChoice → Bool}, (∀ choice ∈ cs, test choice = true) →
      cs.filter test = cs := List.filter_eq_self.2
  unfold ofChoices at h
  dsimp only at h
  split at h
  · next hkept hdropped =>
    cases h
    refine .inl ⟨List.eq_nil_iff_forall_not_mem.2 fun choice hchoice => ?_, rfl⟩
    have hkeep := hnone hkept choice hchoice
    have hdrop := hnone hdropped choice hchoice
    rw [hkeep] at hdrop
    cases hdrop
  · next hkept hdropped =>
    cases h
    have hkeep : ∀ choice ∈ cs, choice.isKeep = true := by
      intro choice hchoice
      simpa using hnone hdropped choice hchoice
    exact .inr (.inl ⟨hkeep, by rw [hall hkeep]⟩)
  · next hkept hdropped =>
    cases h
    have hdrop := hnone hkept
    have hothers : cs.filter (fun choice => !choice.isKeep) = cs :=
      hall fun choice hchoice => by rw [hdrop choice hchoice]; rfl
    exact .inr (.inr ⟨hdrop, by rw [hothers]⟩)
  · cases h

/-- A text is accepted when it spells allowed choices and they make a projection. -/
theorem read_eq_ok_iff {raw : Option String} {hidden : String} {p : Projection} :
    read raw hidden = .ok p ↔
      (∀ choice ∈ choices raw, choice.Allowed) ∧ ofChoices (choices raw) hidden = .ok p := by
  cases raw with
  | none => exact ⟨fun h => ⟨fun _ hchoice => absurd hchoice List.not_mem_nil, h⟩, fun h => h.2⟩
  | some raw =>
    rw [read, mapM_bind_eq_ok_iff fun _ _ _ => FieldChoice.read_eq_ok_iff, choices,
      List.forall_mem_map]
    rfl

/-- The fields of an accepted projection are plain tokens without a dot, and not the identifier. -/
theorem allowed_of_read {raw : Option String} {hidden : String} {p : Projection}
    (h : read raw hidden = .ok p) :
    ∀ f ∈ p.fields, Text.isPlainToken f = true ∧ '.' ∉ f.toList ∧ f ≠ idField := by
  obtain ⟨hallowed, hmade⟩ := read_eq_ok_iff.1 h
  have hchosen : ∀ f ∈ fieldsOf (choices raw),
      Text.isPlainToken f = true ∧ '.' ∉ f.toList ∧ f ≠ idField := by
    intro f hf
    obtain ⟨hid, choice, hchoice, rfl⟩ := mem_fieldsOf.1 hf
    exact ⟨(hallowed choice hchoice).plain, (hallowed choice hchoice).whole, hid⟩
  rcases ofChoices_cases hmade with ⟨-, rfl⟩ | ⟨-, rfl⟩ | ⟨-, rfl⟩
  · exact fun f hf => absurd hf List.not_mem_nil
  · exact hchosen
  · exact hchosen

end Projection

end Shelf
