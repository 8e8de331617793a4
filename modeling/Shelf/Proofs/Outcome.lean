import Mathlib.Data.List.Forall2
import Mathlib.Data.List.Perm.Basic

/-!
Checks in sequence.

A sequence of checks passes when each of them does, and a check of every item of a list passes when
it does so for each item, in order.
-/

namespace Shelf

variable {α β ε : Type}

theorem ok_eq_ok_iff {a b : α} : (.ok a : Except ε α) = .ok b ↔ b = a := by
  rw [Except.ok.injEq, eq_comm]

theorem bind_eq_ok {x : Except ε α} {f : α → Except ε β} {b : β} :
    x >>= f = .ok b ↔ ∃ a, x = .ok a ∧ f a = .ok b := by
  constructor
  · intro h
    cases x with
    | error e => cases h
    | ok a => exact ⟨a, rfl, h⟩
  · rintro ⟨a, rfl, h⟩
    exact h

theorem bind_eq_error {x : Except ε α} {f : α → Except ε β} {e : ε} :
    x >>= f = .error e ↔ x = .error e ∨ ∃ a, x = .ok a ∧ f a = .error e := by
  cases x with
  | error d =>
    constructor
    · intro h
      cases h
      exact .inl rfl
    · rintro (h | ⟨a, ha, -⟩)
      · cases h
        rfl
      · cases ha
  | ok a =>
    constructor
    · exact fun h => .inr ⟨a, rfl, h⟩
    · rintro (h | ⟨b, hb, h⟩)
      · cases h
      · cases hb
        exact h

theorem exists_error_iff {x : Except ε α} : (∃ e, x = .error e) ↔ ¬ ∃ a, x = .ok a := by
  cases x with
  | error e => exact iff_of_true ⟨e, rfl⟩ fun ⟨_, h⟩ => nomatch h
  | ok a => exact iff_of_false (fun ⟨_, h⟩ => nomatch h) fun h => h ⟨a, rfl⟩

theorem mapError_eq_ok {δ : Type} {f : ε → δ} {x : Except ε α} {a : α} :
    x.mapError f = .ok a ↔ x = .ok a := by
  cases x with
  | error e => exact ⟨nofun, nofun⟩
  | ok b => exact ⟨fun h => by cases h; rfl, fun h => by cases h; rfl⟩

theorem map_eq_ok {x : Except ε α} {f : α → β} {b : β} :
    x.map f = .ok b ↔ ∃ a, x = .ok a ∧ f a = b := by
  cases x with
  | error e => exact ⟨nofun, nofun⟩
  | ok a =>
    constructor
    · exact fun h => ⟨a, rfl, Except.ok.inj h⟩
    · rintro ⟨_, ⟨⟩, rfl⟩
      rfl

/-- A check of one condition passes when the condition holds. -/
theorem check_eq_ok_iff {passes : Bool} {e : ε} {u : Unit} :
    (if passes then .ok () else .error e) = (.ok u : Except ε Unit) ↔ passes = true := by
  cases passes with
  | false => exact ⟨nofun, nofun⟩
  | true => exact ⟨fun _ => rfl, fun _ => rfl⟩

theorem check_eq_error_iff {passes : Bool} {d e : ε} :
    (if passes then .ok () else .error d) = (.error e : Except ε Unit) ↔
      passes = false ∧ e = d := by
  cases passes with
  | false => exact ⟨fun h => ⟨rfl, (Except.error.inj h).symm⟩, fun h => by rw [h.2]; rfl⟩
  | true => exact ⟨nofun, fun h => Bool.noConfusion h.1⟩

theorem mapM_eq_ok {f : α → Except ε β} : ∀ {xs : List α} {ys : List β},
    xs.mapM f = .ok ys ↔ List.Forall₂ (fun x y => f x = .ok y) xs ys
  | [],      ys => by
    rw [List.mapM_nil, List.forall₂_nil_left_iff]
    refine ⟨fun h => ?_, fun h => by rw [h]; rfl⟩
    cases h
    rfl
  | x :: xs, ys => by
    rw [List.mapM_cons, List.forall₂_cons_left_iff, bind_eq_ok]
    constructor
    · rintro ⟨y, hy, h⟩
      obtain ⟨zs, hzs, h⟩ := bind_eq_ok.1 h
      cases h
      exact ⟨y, zs, hy, mapM_eq_ok.1 hzs, rfl⟩
    · rintro ⟨y, zs, hy, hzs, rfl⟩
      refine ⟨y, hy, bind_eq_ok.2 ⟨zs, mapM_eq_ok.2 hzs, rfl⟩⟩

/-- The first item that fails decides the error. -/
theorem mapM_eq_error {f : α → Except ε β} {e : ε} : ∀ {xs : List α},
    xs.mapM f = .error e ↔ ∃ before x after, xs = before ++ x :: after ∧
      (∀ y ∈ before, ∃ z, f y = .ok z) ∧ f x = .error e
  | []      => by
    refine iff_of_false (fun h => by cases h) ?_
    rintro ⟨before, x, after, h, -⟩
    simp at h
  | x :: xs => by
    rw [List.mapM_cons, bind_eq_error]
    constructor
    · rintro (h | ⟨y, hy, h⟩)
      · exact ⟨[], x, xs, rfl, by simp, h⟩
      · rcases bind_eq_error.1 h with h | ⟨ys, -, h⟩
        · obtain ⟨before, z, after, rfl, hbefore, hz⟩ := mapM_eq_error.1 h
          exact ⟨x :: before, z, after, rfl, List.forall_mem_cons.2 ⟨⟨y, hy⟩, hbefore⟩, hz⟩
        · cases h
    · rintro ⟨_ | ⟨y, before⟩, z, after, h, hbefore, hz⟩
      · obtain ⟨rfl, rfl⟩ := List.cons.inj h
        exact .inl hz
      · obtain ⟨rfl, rfl⟩ := List.cons.inj h
        obtain ⟨⟨w, hw⟩, hbefore⟩ := List.forall_mem_cons.1 hbefore
        have hrest := mapM_eq_error.2 ⟨before, z, after, rfl, hbefore, hz⟩
        exact .inr ⟨w, hw, bind_eq_error.2 (.inl hrest)⟩

/-- A check of rows that each come out of a check of items is one check of all items. -/
theorem map_flatten_mapM {γ : Type} {f : α → Except ε (List γ)} {items : α → List β}
    {g : β → Except ε γ} : ∀ {xs : List α}, (∀ x ∈ xs, f x = (items x).mapM g) →
      (xs.mapM f).map List.flatten = (xs.flatMap items).mapM g
  | [],      _ => rfl
  | x :: xs, h => by
    obtain ⟨hx, hxs⟩ := List.forall_mem_cons.1 h
    rw [List.mapM_cons, List.flatMap_cons, List.mapM_append, ← map_flatten_mapM hxs, hx]
    cases (items x).mapM g with
    | error e => rfl
    | ok ys => cases xs.mapM f <;> rfl

/-- A check that says of each item whether it passes and what it comes out as, on a list of items. -/
theorem mapM_eq_ok_iff_map {f : α → Except ε β} {g : α → β} {passes : α → Prop} {xs : List α}
    {ys : List β} (hf : ∀ x ∈ xs, ∀ y, f x = .ok y ↔ passes x ∧ y = g x) :
    xs.mapM f = .ok ys ↔ (∀ x ∈ xs, passes x) ∧ ys = xs.map g := by
  induction xs generalizing ys with
  | nil =>
    rw [mapM_eq_ok, List.forall₂_nil_left_iff]
    exact ⟨fun h => ⟨fun _ hx => absurd hx List.not_mem_nil, h⟩, fun h => h.2⟩
  | cons x xs ih =>
    obtain ⟨hx, hxs⟩ := List.forall_mem_cons.1 hf
    rw [mapM_eq_ok, List.forall₂_cons_left_iff, List.forall_mem_cons, List.map_cons]
    constructor
    · rintro ⟨y, zs, hy, hzs, rfl⟩
      obtain ⟨hpasses, rfl⟩ := (hx y).1 hy
      obtain ⟨hrest, rfl⟩ := (ih hxs).1 (mapM_eq_ok.2 hzs)
      exact ⟨⟨hpasses, hrest⟩, rfl⟩
    · rintro ⟨⟨hpasses, hrest⟩, rfl⟩
      exact ⟨g x, xs.map g, (hx _).2 ⟨hpasses, rfl⟩, mapM_eq_ok.1 ((ih hxs).2 ⟨hrest, rfl⟩), rfl⟩

/-- A check of every item, followed by a check of what they come out as. -/
theorem mapM_bind_eq_ok_iff {γ : Type} {f : α → Except ε β} {g : α → β} {passes : α → Prop}
    {xs : List α} {k : List β → Except ε γ} {c : γ}
    (hf : ∀ x ∈ xs, ∀ y, f x = .ok y ↔ passes x ∧ y = g x) :
    xs.mapM f >>= k = .ok c ↔ (∀ x ∈ xs, passes x) ∧ k (xs.map g) = .ok c := by
  rw [bind_eq_ok]
  constructor
  · rintro ⟨ys, hys, hc⟩
    obtain ⟨hpasses, rfl⟩ := (mapM_eq_ok_iff_map hf).1 hys
    exact ⟨hpasses, hc⟩
  · rintro ⟨hpasses, hc⟩
    exact ⟨_, (mapM_eq_ok_iff_map hf).2 ⟨hpasses, rfl⟩, hc⟩

/-- A check of every item passes when it does for each. -/
theorem exists_mapM_ok_iff {f : α → Except ε β} {xs : List α} :
    (∃ ys, xs.mapM f = .ok ys) ↔ ∀ x ∈ xs, ∃ y, f x = .ok y := by
  induction xs with
  | nil => exact ⟨fun _ _ hx => absurd hx List.not_mem_nil, fun _ => ⟨[], rfl⟩⟩
  | cons x xs ih =>
    rw [List.forall_mem_cons, ← ih]
    simp only [mapM_eq_ok, List.forall₂_cons_left_iff]
    constructor
    · rintro ⟨_, y, ys, hy, hys, rfl⟩
      exact ⟨⟨y, hy⟩, ys, hys⟩
    · rintro ⟨⟨y, hy⟩, ys, hys⟩
      exact ⟨_, y, ys, hy, hys, rfl⟩

/-- The items in another order come out in another order. -/
theorem exists_mapM_of_perm {f : α → Except ε β} {xs xs' : List α} {ys : List β}
    (hperm : xs.Perm xs') (h : xs.mapM f = .ok ys) : ∃ ys', xs'.mapM f = .ok ys' ∧ ys'.Perm ys := by
  obtain ⟨ys', hys', hperm'⟩ := List.perm_comp_forall₂ hperm.symm (mapM_eq_ok.1 h)
  exact ⟨ys', mapM_eq_ok.2 hys', hperm'⟩

/-- Whatever comes out was made of an item. -/
theorem exists_mem_of_mapM {f : α → Except ε β} {xs : List α} {ys : List β}
    (h : xs.mapM f = .ok ys) {y : β} (hy : y ∈ ys) : ∃ x ∈ xs, f x = .ok y := by
  have hall := mapM_eq_ok.1 h
  induction hall with
  | nil => exact absurd hy List.not_mem_nil
  | cons hxy hall ih =>
    rcases List.mem_cons.1 hy with rfl | hy
    · exact ⟨_, List.mem_cons_self, hxy⟩
    · obtain ⟨x, hx, hxy⟩ := ih (mapM_eq_ok.2 hall) hy
      exact ⟨x, List.mem_cons_of_mem _ hx, hxy⟩

end Shelf
