import Shelf.Storage

/-!
Running actions.

What an action answers and which state it leaves, for each way of building one. A sequence goes on
from the state that its first part leaves, and stops there if that part fails.
-/

namespace Shelf.Action

variable {σ α β : Type}

@[simp] theorem runOn_pure (a : α) (s : σ) : (pure a : Action σ α).runOn s = (.ok a, s) := rfl

@[simp] theorem runOn_throw (e : Error) (s : σ) :
    (throw e : Action σ α).runOn s = (.error e, s) := rfl

@[simp] theorem runOn_ofFunction (f : σ → Except Error α × σ) (s : σ) :
    (ofFunction f).runOn s = f s := rfl

/-- A sequence of two actions. -/
theorem runOn_bind (act : Action σ α) (next : α → Action σ β) (s : σ) :
    (act >>= next).runOn s =
      match act.runOn s with
      | (.ok a, t)    => (next a).runOn t
      | (.error e, t) => (.error e, t) := by
  change (match act.runOn s with | (x, t) => (ExceptT.bindCont next x).run t) = _
  rcases act.runOn s with ⟨_ | _, t⟩ <;> rfl

theorem runOn_bind_ok {act : Action σ α} {next : α → Action σ β} {s t : σ} {a : α}
    (h : act.runOn s = (.ok a, t)) : (act >>= next).runOn s = (next a).runOn t := by
  rw [runOn_bind, h]

theorem runOn_bind_error {act : Action σ α} {next : α → Action σ β} {s t : σ} {e : Error}
    (h : act.runOn s = (.error e, t)) : (act >>= next).runOn s = (.error e, t) := by
  rw [runOn_bind, h]

@[simp] theorem runOn_ofRejection_ok (a : α) (s : σ) :
    (ofRejection (.ok a)).runOn s = (.ok a, s) := rfl

@[simp] theorem runOn_ofRejection_error (e : Rejection) (s : σ) :
    (ofRejection (.error e) : Action σ α).runOn s = (.error (.rejected e), s) := rfl

@[simp] theorem runOn_ofCorruption_ok (a : α) (s : σ) :
    (ofCorruption (.ok a)).runOn s = (.ok a, s) := rfl

@[simp] theorem runOn_ofCorruption_error (e : Corruption) (s : σ) :
    (ofCorruption (.error e) : Action σ α).runOn s = (.error (.storage (.integrity e)), s) := rfl

@[simp] theorem runOn_ofExcept_ok (a : α) (s : σ) :
    (ofExcept (.ok a)).runOn s = (.ok a, s) := rfl

@[simp] theorem runOn_ofExcept_error (e : Error) (s : σ) :
    (ofExcept (.error e) : Action σ α).runOn s = (.error e, s) := rfl

/-! ### What every run keeps -/

/-- An action leaves a property of the state alone, whether it succeeds or fails. -/
def Keeps (P : σ → Prop) (act : Action σ α) : Prop := ∀ s, P s → P (act.runOn s).2

section Keeps

variable {P : σ → Prop}

theorem Keeps.bind {act : Action σ α} {next : α → Action σ β} (h : act.Keeps P)
    (hnext : ∀ a, (next a).Keeps P) : (act >>= next).Keeps P := by
  intro s hs
  have ht := h s hs
  rw [runOn_bind]
  generalize act.runOn s = out at ht ⊢
  obtain ⟨_ | a, t⟩ := out
  · exact ht
  · exact hnext a t ht

end Keeps

end Shelf.Action
