import Shelf.KeyedList
import Shelf.Proofs.Patch.Single

/-!
What a write under a key makes of a record.

The write succeeds when key and payload fit the list, the field may be written and it reads as a
list; then the list field is all that changes. The plan of a write finds the entry by a filter, and
the filter looks along a path where the plan looked under a name. The two part where the name has a
dot in it, or is the identifier's: an entry that the plan has seen is then overlooked.

    name          list under the name            value at the path
    cart          fields["cart"]                 fields["cart"]
    a.b           fields["a.b"]                  fields["a"]["b"]
    id            fields["id"]                   the identifier's text
-/

namespace Shelf.KeyedList

variable {l : KeyedList} {r : Record} {key payload : Fields}

/-! ### The place of an entry -/

theorem position_eq {xs : List Json} (h : r.list l.field = .ok xs) :
    l.position r key = .ok (xs.findIdx? (·.carries key)) := by
  rw [position, h]
  rfl

theorem any_of_position {i : Nat} (h : l.position r key = .ok (some i)) :
    ∃ xs, r.list l.field = .ok xs ∧ xs.any (·.carries key) = true := by
  obtain ⟨xs, hxs, hfound⟩ := bind_eq_ok.1 h
  refine ⟨xs, hxs, ?_⟩
  rw [← List.findIdx?_isSome, Except.ok.inj hfound]
  rfl

/-- An entry carries the key in the list of this name, and none does in the list at this path. -/
structure Overlooks (l : KeyedList) (r : Record) (key : Fields) : Prop where
  present : ∃ xs, r.list l.field = .ok xs ∧ xs.any (·.carries key) = true
  missed : ¬ ∃ ys, r.valueOf? l.field = some (.array ys) ∧ ys.any (·.carries key) = true

/-- A list whose name is no path and not the identifier's is looked up where it is. -/
theorem not_overlooks_of_undotted (hdot : '.' ∉ l.field.toList)
    (hid : l.field = idField → r.fields.get? idField = none) : ¬ l.Overlooks r key := by
  rintro ⟨⟨xs, hxs, hany⟩, hmissed⟩
  have hne : xs ≠ [] := by
    rintro rfl
    cases hany
  have hstored := (Record.list_eq_ok_iff.1 hxs).eq_array hne
  by_cases hfield : l.field = idField
  · rw [hfield, hid hfield] at hstored
    cases hstored
  · exact hmissed ⟨xs, (Record.valueOf?_of_undotted hdot hfield r).trans hstored, hany⟩

/-! ### The filter of a plan -/

theorem accepts_matcher_iff : (l.matcher r key).accepts r = true ↔
    ∃ ys, r.valueOf? l.field = some (.array ys) ∧ ys.any (·.carries key) = true := by
  have hsplit : (l.matcher r key).accepts r =
      ((⟨idField, .equals r.id.text⟩ : Predicate).accepts r &&
        ((⟨l.field, .elementMatch key⟩ : Predicate).accepts r && true)) := rfl
  have hown : (⟨idField, .equals r.id.text⟩ : Predicate).accepts r = true :=
    beq_self_eq_true r.id.text
  rw [hsplit, hown, Bool.true_and, Bool.and_true]
  unfold Predicate.accepts
  dsimp only
  cases r.valueOf? l.field with
  | none => simp
  | some v => cases v <;> simp [Condition.holds, Json.items?]

/-- The filter of a plan says which element to change. -/
theorem elementCriteria?_matcher (l : KeyedList) (r : Record) (key : Fields) :
    (l.matcher r key).elementCriteria? l.field = some key := by
  simp [matcher, Filter.and, Filter.byId, Filter.elementCriteria?, Condition.criteria?]

/-! ### Planning and writing -/

theorem plan_of_check (hcheck : l.check key payload = .ok ()) {xs : List Json}
    (hxs : r.list l.field = .ok xs) : l.plan r key payload =
      .ok (l.planAt r key payload (xs.findIdx? (·.carries key))) := by
  rw [plan, hcheck, position_eq hxs]
  rfl

/-- A plan is made when key and payload fit the list and the place of the entry can be told. -/
theorem plan_eq_ok_iff {p : UpsertPlan} : l.plan r key payload = .ok p ↔
    l.check key payload = .ok () ∧
      ∃ place, l.position r key = .ok place ∧ p = l.planAt r key payload place := by
  rw [plan]
  cases l.check key payload with
  | error e => exact ⟨nofun, nofun⟩
  | ok u =>
    cases l.position r key with
    | error e => exact ⟨nofun, nofun⟩
    | ok place =>
      constructor
      · intro h
        cases h
        exact ⟨rfl, place, rfl, rfl⟩
      · rintro ⟨-, _, hplace, rfl⟩
        cases hplace
        rfl

/-- Wherever the entry is, the patch is one update of the list. -/
theorem planAt_one (l : KeyedList) (r : Record) (key payload : Fields) (place : Option Nat) :
    ∃ u, (l.planAt r key payload place).patch = .one u ∧ u.target = l.field := by
  cases place with
  | none => exact ⟨_, rfl, rfl⟩
  | some i => exact ⟨_, rfl, rfl⟩

/-- The patch of a plan, on the record that was planned for. -/
theorem applied_planAt (hpatchable : isPatchable l.field = true) {xs : List Json}
    (hxs : r.list l.field = .ok xs) (payload : Fields) :
    (l.planAt r key payload (xs.findIdx? (·.carries key))).patch.applied
        (l.planAt r key payload (xs.findIdx? (·.carries key))).matcher r =
      .ok (r.set l.field (.array (upserted key payload xs))) := by
  have hplace : (xs.findIdx? (·.carries key)).isSome = xs.any (·.carries key) :=
    List.findIdx?_isSome
  cases hfound : xs.findIdx? (·.carries key) with
  | none =>
    have hany : xs.any (·.carries key) = false := by rw [← hplace, hfound]; rfl
    rw [upserted_of_not_any hany]
    refine (Patch.applied_push hpatchable _).trans ?_
    rw [hxs]
    rfl
  | some i =>
    have hany : xs.any (·.carries key) = true := by rw [← hplace, hfound]; rfl
    have hcriteria : (some (l.matcher r key)).bind (·.elementCriteria? l.field) = some key :=
      elementCriteria?_matcher l r key
    exact Patch.applied_setMatched hpatchable hcriteria hxs hany payload

theorem apply_of_check (hcheck : l.check key payload = .ok ())
    (hpatchable : isPatchable l.field = true) {xs : List Json} (hxs : r.list l.field = .ok xs) :
    l.apply r key payload = .ok (r.set l.field (.array (upserted key payload xs))) := by
  rw [apply, plan_of_check hcheck hxs]
  change Except.mapError _ (Patch.applied _ _ r) = _
  rw [applied_planAt hpatchable hxs]
  rfl

/-- What a write under a key leaves, when it succeeds. -/
theorem apply_eq_ok_iff {w : Record} : l.apply r key payload = .ok w ↔
    l.check key payload = .ok () ∧ isPatchable l.field = true ∧
      ∃ xs, r.list l.field = .ok xs ∧ w = r.set l.field (.array (upserted key payload xs)) := by
  constructor
  · intro h
    have hcheck : l.check key payload = .ok () := by
      cases hcheck : l.check key payload with
      | error e => rw [apply, plan, hcheck] at h; cases h
      | ok u => rfl
    obtain ⟨xs, hxs⟩ : ∃ xs, r.list l.field = .ok xs := by
      cases hxs : r.list l.field with
      | error e => rw [apply, plan, hcheck, position, hxs] at h; cases h
      | ok xs => exact ⟨xs, rfl⟩
    have hpatchable : isPatchable l.field = true := by
      obtain ⟨p, hp, hw⟩ := bind_eq_ok.1 h
      rw [plan_of_check hcheck hxs] at hp
      cases hp
      obtain ⟨u, hu, htarget⟩ := planAt_one l r key payload (xs.findIdx? (·.carries key))
      rw [hu] at hw
      rw [← htarget]
      exact Patch.isPatchable_of_applied (mapError_eq_ok.1 hw) (List.mem_singleton.2 rfl)
    rw [apply_of_check hcheck hpatchable hxs] at h
    cases h
    exact ⟨hcheck, hpatchable, xs, hxs, rfl⟩
  · rintro ⟨hcheck, hpatchable, xs, hxs, rfl⟩
    exact apply_of_check hcheck hpatchable hxs

end Shelf.KeyedList
