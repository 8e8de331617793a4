import Shelf.Proofs.Outcome
import Shelf.Proofs.Record

/-!
Patches of one update.

What each kind of update makes of a record, as one equation. An update of a list succeeds exactly
when the field reads as a list. Writing under a key changes the first entry that carries it, and
the whole list is then what it was but for that entry.
-/

namespace Shelf

/-! ### Lists -/

/-- A list after a payload is written under a key: the first entry that carries the key gets the
payload, and without one an entry of key and payload goes to the end. -/
def upserted (key payload : Fields) : List Json → List Json
  | [] => [.object (key.override payload)]
  | .object ms :: xs =>
    if Fields.carries ms key then .object (Fields.override ms payload) :: xs
    else .object ms :: upserted key payload xs
  | x :: xs => x :: upserted key payload xs

theorem upserted_cons_of_not_carries {key payload : Fields} {x : Json} {xs : List Json}
    (h : x.carries key = false) :
    upserted key payload (x :: xs) = x :: upserted key payload xs := by
  cases x with
  | object ms =>
    have hms : ¬ Fields.carries ms key = true := Bool.eq_false_iff.1 h
    rw [upserted, if_neg hms]
  | _ => rfl

/-- Each entry is as it was, or has been written over. -/
theorem mem_upserted {key payload : Fields} {x : Json} : ∀ {xs : List Json},
    x ∈ upserted key payload xs → x ∈ xs ∨ ∃ fs : Fields, x = .object (fs.override payload)
  | [],      h => .inr ⟨key, List.mem_singleton.1 h⟩
  | y :: xs, h => by
    cases hy : y.carries key with
    | false =>
      rw [upserted_cons_of_not_carries hy] at h
      rcases List.mem_cons.1 h with rfl | h
      · exact .inl List.mem_cons_self
      · exact (mem_upserted h).imp_left (List.mem_cons_of_mem _)
    | true =>
      cases y with
      | object ms =>
        have hms : Fields.carries ms key = true := hy
        rw [upserted, if_pos hms] at h
        rcases List.mem_cons.1 h with rfl | h
        · exact .inr ⟨ms, rfl⟩
        · exact .inl (List.mem_cons_of_mem _ h)
      | _ => cases hy

/-- Some entry carries the key: it is the one that is changed. -/
theorem overrideFirst?_of_any {key : Fields} (payload : Fields) : ∀ {xs : List Json},
    xs.any (·.carries key) = true →
      overrideFirst? key payload xs = some (upserted key payload xs)
  | x :: xs, h => by
    cases hx : x.carries key with
    | false =>
      rw [List.any_cons, hx, Bool.false_or] at h
      have ih := overrideFirst?_of_any payload h
      rw [upserted_cons_of_not_carries hx]
      cases x with
      | object ms =>
        have hms : ¬ Fields.carries ms key = true := Bool.eq_false_iff.1 hx
        rw [overrideFirst?, if_neg hms, ih, Option.map_some]
      | _ => rw [overrideFirst?, ih, Option.map_some]; nofun
    | true =>
      cases x with
      | object ms =>
        have hms : Fields.carries ms key = true := hx
        rw [overrideFirst?, upserted, if_pos hms, if_pos hms]
      | _ => cases hx

/-- No entry carries the key: one is added. -/
theorem upserted_of_not_any {key payload : Fields} : ∀ {xs : List Json},
    xs.any (·.carries key) = false →
      upserted key payload xs = xs ++ [.object (key.override payload)]
  | [],      _ => rfl
  | x :: xs, h => by
    rw [List.any_cons, Bool.or_eq_false_iff] at h
    rw [upserted_cons_of_not_carries h.1, upserted_of_not_any h.2, List.cons_append]

/-! ### Records -/

namespace Patch

variable {matched : Option Filter} {r : Record} {field : String}

/-- A patch of one update succeeds when the update does. -/
theorem applied_one (u : FieldUpdate) (matched : Option Filter) (r : Record) :
    (one u).applied matched r = match u.apply matched r with
      | (w, .ok ())    => .ok w
      | (_, .error e) => .error e := by
  change (match run matched r [u] with
    | (w, .ok ()) => Except.ok w
    | (_, .error e) => .error e) = _
  rw [run]
  rcases u.apply matched r with ⟨w, _ | ⟨⟩⟩ <;> rfl

theorem applied_set (h : isPatchable field = true) (value : Json) :
    (one (.set field value)).applied matched r = .ok (r.set field value) := by
  rw [applied_one, FieldUpdate.apply, FieldUpdate.target, h]
  rfl

/-- Replacing a list by a function of it. -/
theorem patchList_eq (r : Record) (field : String) (change : List Json → List Json) :
    (match r.patchList field change with
      | (w, .ok ()) => Except.ok w
      | (_, .error e) => .error e) =
      (r.list field).map fun xs => r.set field (.array (change xs)) := by
  rw [Record.patchList]
  cases r.list field <;> rfl

theorem applied_push (h : isPatchable field = true) (value : Json) :
    (one (.push field value)).applied matched r =
      (r.list field).map fun xs => r.set field (.array (xs ++ [value])) := by
  rw [applied_one, FieldUpdate.apply, FieldUpdate.target, h, if_pos rfl]
  exact patchList_eq r field (· ++ [value])

/-- Removing from a list that is stored under the name at which it is looked for. -/
theorem applied_pull (h : isPatchable field = true) {v : Json} (hv : r.get? field = some v)
    (value : Json) : (one (.pull field value)).applied matched r =
      (r.list field).map fun xs => r.set field (.array (xs.filter fun x => !(x == value))) := by
  rw [applied_one, FieldUpdate.apply, FieldUpdate.target, h, if_pos rfl]
  simp only [Record.patchPull, hv]
  exact patchList_eq r field _

/-- Where nothing is found along the path, nothing is removed. -/
theorem applied_pull_of_none (h : isPatchable field = true) (hnone : r.get? field = none)
    (value : Json) : (one (.pull field value)).applied matched r = .ok r := by
  rw [applied_one, FieldUpdate.apply, FieldUpdate.target, h, if_pos rfl]
  simp only [Record.patchPull, hnone]

/-- Writing to an entry that is there. -/
theorem applied_setMatched (h : isPatchable field = true) {criteria : Fields}
    (hcriteria : matched.bind (·.elementCriteria? field) = some criteria) {xs : List Json}
    (hxs : r.list field = .ok xs) (hany : xs.any (·.carries criteria) = true) (members : Fields) :
    (one (.setMatched field members)).applied matched r =
      .ok (r.set field (.array (upserted criteria members xs))) := by
  rw [applied_one, FieldUpdate.apply, FieldUpdate.target, h, if_pos rfl]
  simp only [hcriteria, Record.patchMatched, hxs, overrideFirst?_of_any members hany]

end Patch

end Shelf
