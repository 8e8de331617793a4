import Shelf.Proofs.Json.Members
import Shelf.Proofs.Outcome
import Shelf.Proofs.Uuid
import Shelf.Record

/-!
Records as flat objects.

A record is written as its fields with the identifier among them, and there are two readers of such
objects: one that gives a fresh identifier to an object without one, and a strict one that refuses
it. Wherever an object has an identifier the two agree, and what they read is written as the object
that it was, with the identifier in its normal spelling.

    { id: 67E5504410B1426F9247BB680E5FE0C8, price: 3 }
    { id: 67e55044-10b1-426f-9247-bb680e5fe0c8, price: 3 }     what is written again
-/

namespace Shelf

/-- A text that reads as an identifier. -/
def Json.HoldsUuid (v : Json) : Prop := ∃ s id, v = .string s ∧ Uuid.ofText? s = some id

namespace Record

variable {fs : Fields} {fresh : Uuid} {v : Json} {r : Record}

/-! ### The identifier of an object -/

/-- What the identifier of an object is read as. -/
inductive ReadsId (fs : Fields) : Option Uuid → Prop
  | absent : fs.get? idField = none → ReadsId fs none
  | text {s : String} {id : Uuid} : fs.get? idField = some (.string s) →
      Uuid.ofText? s = some id → ReadsId fs (some id)

theorem readId_eq_ok_iff {id? : Option Uuid} : readId fs = .ok id? ↔ ReadsId fs id? := by
  rw [readId]
  constructor
  · intro h
    split at h
    · next s hs =>
      split at h
      · next id hid =>
        cases h
        exact .text hs hid
      · cases h
    · cases h
    · next hnone =>
      cases h
      exact .absent hnone
  · intro h
    cases h with
    | absent hnone => rw [hnone]
    | text hs hid =>
      rw [hs]
      dsimp only
      rw [hid]

/-- An identifier that is there has to be a text that reads as one. -/
theorem exists_readsId_iff :
    (∃ id?, ReadsId fs id?) ↔ ∀ w, fs.get? idField = some w → w.HoldsUuid := by
  constructor
  · rintro ⟨_, h⟩ w hw
    cases h with
    | absent hnone => rw [hnone] at hw; cases hw
    | @text s id hs hid =>
      rw [hs] at hw
      exact ⟨s, id, (Option.some.inj hw).symm, hid⟩
  · intro h
    cases hw : fs.get? idField with
    | none => exact ⟨none, .absent hw⟩
    | some w =>
      obtain ⟨s, id, rfl, hid⟩ := h w hw
      exact ⟨some id, .text hw hid⟩

/-! ### The two readers -/

theorem ofJson_object_eq_ok_iff : ofJson fresh (.object fs) = .ok r ↔
    ∃ id?, ReadsId fs id? ∧ r = ⟨id?.getD fresh, fs.erase idField⟩ := by
  rw [ofJson, bind_eq_ok]
  simp only [readId_eq_ok_iff]
  exact exists_congr fun id? => and_congr_right fun _ => ok_eq_ok_iff

theorem exists_ofJson_iff : (∃ r, ofJson fresh v = .ok r) ↔
    ∃ fs : Fields, v = .object fs ∧ ∀ w, fs.get? idField = some w → w.HoldsUuid := by
  cases v with
  | object fs =>
    simp only [ofJson_object_eq_ok_iff, ← exists_readsId_iff]
    constructor
    · rintro ⟨_, id?, hid, -⟩
      exact ⟨fs, rfl, id?, hid⟩
    · rintro ⟨gs, hgs, id?, hid⟩
      cases hgs
      exact ⟨_, id?, hid, rfl⟩
  | _ => exact iff_of_false nofun nofun

theorem exists_error_ofJson_iff : (∃ e, ofJson fresh v = .error e) ↔
    v.members? = none ∨ ∃ w, v.member? idField = some w ∧ ¬ w.HoldsUuid := by
  rw [exists_error_iff, exists_ofJson_iff]
  cases v with
  | object fs =>
    constructor
    · intro h
      refine .inr (by_contra fun hno => h ⟨fs, rfl, fun w hw => ?_⟩)
      exact by_contra fun hbad => hno ⟨w, hw, hbad⟩
    · rintro (hnone | ⟨w, hw, hbad⟩) ⟨gs, hgs, hid⟩
      · cases hnone
      · cases hgs
        exact hbad (hid w hw)
  | _ => exact iff_of_true nofun (.inl rfl)

/-- The strict reader wants an identifier, and then reads what the other one reads. -/
theorem ofJson?_eq_some_iff : ofJson? v = some r ↔
    (v.member? idField).isSome = true ∧ ofJson fresh v = .ok r := by
  cases v with
  | object fs =>
    have hmember : (Json.object fs).member? idField = Fields.get? fs idField := rfl
    rw [ofJson_object_eq_ok_iff, hmember]
    change (Fields.get? fs idField).bind _ = some r ↔ _
    constructor
    · intro h
      obtain ⟨w, hw, h⟩ := Option.bind_eq_some_iff.1 h
      cases w with
      | string s =>
        obtain ⟨id, hid, h⟩ := Option.bind_eq_some_iff.1 h
        cases h
        exact ⟨by rw [hw]; rfl, some id, .text hw hid, rfl⟩
      | _ => cases h
    · rintro ⟨hsome, _, hid, rfl⟩
      cases hid with
      | absent hnone => rw [hnone] at hsome; cases hsome
      | @text s id hs hid =>
        refine Option.bind_eq_some_iff.2 ⟨.string s, hs, ?_⟩
        exact Option.bind_eq_some_iff.2 ⟨id, hid, rfl⟩
  | _ => exact iff_of_false nofun nofun

/-! ### The flat object of a record -/

theorem toJson_of_unnamed (h : r.fields.get? idField = none) :
    r.toJson = .object (r.fields.insert idField (.string r.id.text)) := by
  rw [toJson, h]

/-- A record without a field of the identifier's name is read back from its flat object. -/
theorem ofJson_toJson (h : r.fields.get? idField = none) (fresh : Uuid) :
    ofJson fresh r.toJson = .ok r := by
  rw [toJson_of_unnamed h, ofJson_object_eq_ok_iff]
  refine ⟨some r.id, .text (Fields.get?_insert_self ..) (Uuid.ofText?_text r.id), ?_⟩
  rw [Fields.erase_insert h]
  rfl

/-- What is read from an object with an identifier is written as that object. -/
theorem toJson_of_ofJson_text {s : String} (hsorted : fs.Sorted)
    (hs : fs.get? idField = some (.string s)) (h : ofJson fresh (.object fs) = .ok r) :
    Uuid.ofText? s = some r.id ∧
      r.toJson = .object (fs.replaced idField (.string r.id.text)) := by
  obtain ⟨id?, hid, rfl⟩ := ofJson_object_eq_ok_iff.1 h
  cases hid with
  | absent hnone => rw [hnone] at hs; cases hs
  | @text t id ht hid =>
    obtain rfl : t = s := by simpa [ht] using hs
    have hname : idField ∈ fs.names := List.mem_map_of_mem (Fields.mem_of_get? hs)
    refine ⟨hid, ?_⟩
    rw [toJson_of_unnamed (Fields.get?_erase_self idField fs)]
    exact congrArg Json.object (Fields.insert_erase hsorted hname _)

/-- What is read from an object without an identifier is written as that object and the fresh
identifier. -/
theorem toJson_of_ofJson_absent (hnone : fs.get? idField = none)
    (h : ofJson fresh (.object fs) = .ok r) :
    r.id = fresh ∧ r.toJson = .object (fs.insert idField (.string fresh.text)) := by
  obtain ⟨id?, hid, rfl⟩ := ofJson_object_eq_ok_iff.1 h
  cases hid with
  | absent =>
    rw [toJson_of_unnamed (Fields.get?_erase_self idField fs), Fields.erase_eq_self hnone]
    exact ⟨rfl, rfl⟩
  | text hs => rw [hnone] at hs; cases hs

/-- How a value is read as a record, and how that record is written. An object holds its members in
the order of their names. -/
structure FlatReading (fresh : Uuid) (v : Json) : Prop where
  fails_iff : (∃ e, ofJson fresh v = .error e) ↔
    v.members? = none ∨ ∃ w, v.member? idField = some w ∧ ¬ w.HoldsUuid
  strict_iff : ∀ r, ofJson? v = some r ↔
    (v.member? idField).isSome = true ∧ ofJson fresh v = .ok r
  restored : ∀ (fs : Fields) (s : String) (r : Record), v = .object fs → fs.Sorted →
    fs.get? idField = some (.string s) → ofJson fresh v = .ok r →
      Uuid.ofText? s = some r.id ∧ Uuid.IsNormal r.id.text ∧
        r.toJson = .object (fs.replaced idField (.string r.id.text))
  completed : ∀ (fs : Fields) (r : Record), v = .object fs → fs.get? idField = none →
    ofJson fresh v = .ok r →
      r.id = fresh ∧ r.toJson = .object (fs.insert idField (.string fresh.text))

/-- Records survive their flat objects, and flat objects survive the records that they are read as.
What is lost is only how the identifier was spelled. -/
theorem flat_roundTrip (fresh : Uuid) :
    (∀ r : Record, r.fields.get? idField = none → ofJson fresh r.toJson = .ok r) ∧
      ∀ v, FlatReading fresh v := by
  refine ⟨fun r hr => ofJson_toJson hr fresh, fun v => ⟨?_, fun r => ofJson?_eq_some_iff, ?_, ?_⟩⟩
  · exact exists_error_ofJson_iff
  · rintro fs s r rfl hsorted hs h
    obtain ⟨hid, hwritten⟩ := toJson_of_ofJson_text hsorted hs h
    exact ⟨hid, Uuid.isNormal_text r.id, hwritten⟩
  · rintro fs r rfl hnone h
    exact toJson_of_ofJson_absent hnone h

example (fresh : Uuid) :
    (ofJson fresh (.object [("id", .string "67E5504410B1426F9247BB680E5FE0C8"),
      ("price", .null)])).map toJson =
    .ok (.object [("id", .string "67e55044-10b1-426f-9247-bb680e5fe0c8"), ("price", .null)]) := by
  rfl

end Record

end Shelf
