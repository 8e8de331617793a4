import Shelf.Mean
import Shelf.Proofs.Patch.Single
import Shelf.Proofs.Rewritten

/-!
When a mean can be taken, and what storing it writes.

The mean depends on its list alone, and it can be taken when the value of every entry stands for a
number; an entry without a value has none. Storing it is one write to the target.
-/

namespace Shelf.StoredMean

variable {m : StoredMean} {r : Record}

/-- A number, or the text of one. -/
inductive StandsForNumber : Option Json → Prop
  | number (n : Number) : StandsForNumber (some (.number n))
  | text (s : String) (x : Float) (h : Decimal.readFloat? (Text.trim s.toList) = some x) :
    StandsForNumber (some (.string s))

theorem entryValue_eq_ok_iff {entry : Json} {y : Float} :
    m.entryValue entry = .ok y ↔ (entry.member? m.value).bind numeric? = some y := by
  rw [entryValue]
  cases (entry.member? m.value).bind numeric? with
  | none => exact ⟨nofun, nofun⟩
  | some x => exact ⟨fun h => congrArg some (Except.ok.inj h), fun h => by cases h; rfl⟩

theorem exists_entryValue_ok_iff {entry : Json} :
    (∃ x, m.entryValue entry = .ok x) ↔ StandsForNumber (entry.member? m.value) := by
  simp only [entryValue_eq_ok_iff]
  constructor
  · rintro ⟨x, hx⟩
    obtain ⟨v, hv, hx⟩ := Option.bind_eq_some_iff.1 hx
    rw [hv]
    cases v with
    | number n => exact .number n
    | string s => exact .text s x hx
    | _ => cases hx
  · intro h
    cases hv : entry.member? m.value with
    | none => rw [hv] at h; cases h
    | some v =>
      rw [hv] at h
      cases h with
      | number n => exact ⟨n.toFloat, rfl⟩
      | text s x hx => exact ⟨x, by rw [Option.bind_some, numeric?, hx]⟩

theorem compute_eq (m : StoredMean) (r : Record) :
    m.compute r = r.list m.list >>= fun xs => (xs.mapM m.entryValue).map meanOf := by
  rw [compute]
  refine congrArg (r.list m.list >>= ·) (funext fun xs => ?_)
  cases xs.mapM m.entryValue <;> rfl

/-- A mean can be taken when every value stands for a number. -/
theorem exists_compute_ok_iff {xs : List Json} (hxs : r.list m.list = .ok xs) :
    (∃ x, m.compute r = .ok x) ↔ ∀ entry ∈ xs, StandsForNumber (entry.member? m.value) := by
  have hall : (∃ ys, xs.mapM m.entryValue = .ok ys) ↔
      ∀ entry ∈ xs, StandsForNumber (entry.member? m.value) := by
    rw [exists_mapM_ok_iff]
    exact forall₂_congr fun _ _ => exists_entryValue_ok_iff
  rw [← hall, compute_eq, hxs]
  constructor
  · rintro ⟨x, hx⟩
    obtain ⟨ys, hys, -⟩ := map_eq_ok.1 hx
    exact ⟨ys, hys⟩
  · rintro ⟨ys, hys⟩
    exact ⟨meanOf ys, map_eq_ok.2 ⟨ys, hys, rfl⟩⟩

theorem compute_congr {w : Record} (h : w.list m.list = r.list m.list) :
    m.compute w = m.compute r := by
  rw [compute, compute, h]

theorem patch_eq (m : StoredMean) (r : Record) :
    m.patch r = (m.compute r).map fun x => .one (.set m.target (.real x)) := by
  rw [patch]
  cases m.compute r <;> rfl

theorem recompute_eq (h : isPatchable m.target = true) (r : Record) :
    m.recompute r = (m.compute r).map fun x => r.set m.target (.real x) := by
  rw [recompute, patch_eq]
  cases m.compute r with
  | error e => rfl
  | ok x => exact Patch.applied_set h _

/-- Version and time of a write have no part in the mean. -/
theorem recompute_rewritten (h : isPatchable m.target = true) (hlist : m.list ∉ stampedFields)
    (htarget : m.target ∉ stampedFields) (r : Record) (version : Nat) (now : String) :
    m.recompute (r.rewritten version now) = (m.recompute r).map (·.rewritten version now) := by
  rw [recompute_eq h, recompute_eq h, compute_congr (r.list_rewritten hlist version now)]
  cases m.compute r with
  | error e => rfl
  | ok x => exact congrArg Except.ok (r.set_rewritten htarget version now _)

end Shelf.StoredMean
