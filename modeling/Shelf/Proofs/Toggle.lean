import Mathlib.Logic.Function.Basic
import Shelf.Proofs.Patch.Single
import Shelf.Proofs.Uuid
import Shelf.Toggle

/-!
Toggles in sequence.

Where an actor is depends on its own toggles alone, however many others come between them. What a
toggle does is said on the two lists first: an actor that is in one of them leaves it, every
occurrence of it, and an actor in neither goes to the end of the list of the side. The record then
holds these lists, and nothing else of it changes.

    toggles of u    a                   b                   a
    toggles of v              a                   b
    u               inA       inA       neither   neither   inA
    v               neither   inA       inA       neither   neither
-/

namespace Shelf

/-! ### The state of an actor -/

theorem Membership.side?_injective : Function.Injective Membership.side? := by
  intro m n h
  cases m <;> cases n <;> first | rfl | cases h

/-- A toggle takes an actor out of its list, or into the list of the side. -/
theorem Membership.side?_toggle (m : Membership) (side : Side) :
    (m.toggle side).side? = if m.side? = none then some side else none := by
  cases m <;> cases side <;> rfl

/-! ### Names in a list -/

theorem Json.beq_string_iff {x : Json} {s : String} : (x == .string s) = true ↔ x = .string s := by
  cases x with
  | string t =>
    change (t == s) = true ↔ _
    rw [beq_iff_eq, Json.string.injEq]
  | _ => exact ⟨nofun, nofun⟩

theorem Json.string_beq_self (s : String) : (Json.string s == .string s) = true :=
  Json.beq_string_iff.2 rfl

theorem Json.string_beq_of_ne {s t : String} (h : s ≠ t) :
    (Json.string s == .string t) = false := by
  rw [← Bool.not_eq_true, Json.beq_string_iff, Json.string.injEq]
  exact h

theorem Json.string?_beq_iff {x : Json} {s : String} :
    (x.string? == some s) = true ↔ x = .string s := by
  cases x with
  | string t => simp [Json.string?]
  | _ => exact ⟨nofun, nofun⟩

/-- How often an actor is in a list. -/
def occurrences (actor : String) (xs : List Json) : Nat := xs.countP (·.string? == some actor)

theorem occurrences_pos_iff {actor : String} {xs : List Json} :
    0 < occurrences actor xs ↔ .string actor ∈ xs := by
  rw [occurrences, List.countP_pos_iff]
  simp only [Json.string?_beq_iff, exists_eq_right]

theorem holdsActor_iff {actor : String} {xs : List Json} :
    holdsActor xs actor = true ↔ 0 < occurrences actor xs := by
  rw [holdsActor, occurrences, List.countP_pos_iff, List.any_eq_true]

theorem holdsActor_iff_mem {actor : String} {xs : List Json} :
    holdsActor xs actor = true ↔ .string actor ∈ xs := by
  rw [holdsActor_iff, occurrences_pos_iff]

/-- The occurrences of an actor are there in every part of a list that keeps them. -/
theorem occurrences_filter {actor : String} {test : Json → Bool}
    (h : test (.string actor) = true) (xs : List Json) :
    occurrences actor (xs.filter test) = occurrences actor xs := by
  rw [occurrences, occurrences, List.countP_filter]
  refine List.countP_congr fun x _ => ?_
  rw [Bool.and_eq_true, and_iff_left_iff_imp, Json.string?_beq_iff]
  rintro rfl
  exact h

/-- A list without an actor. -/
def without (actor : String) (xs : List Json) : List Json :=
  xs.filter fun x => !(x == .string actor)

theorem occurrences_without (actor : String) (xs : List Json) :
    occurrences actor (without actor xs) = 0 := by
  rw [occurrences, List.countP_eq_zero]
  intro x hx hname
  obtain rfl := Json.string?_beq_iff.1 hname
  have hkept := (List.mem_filter.1 hx).2
  rw [Json.string_beq_self] at hkept
  cases hkept

theorem occurrences_without_of_ne {actor other : String} (h : other ≠ actor) (xs : List Json) :
    occurrences other (without actor xs) = occurrences other xs := by
  have hkept : (fun x : Json => !(x == .string actor)) (.string other) = true :=
    congrArg not (Json.string_beq_of_ne h)
  exact occurrences_filter hkept xs

theorem filter_without {actor : String} {test : Json → Bool} (h : test (.string actor) = false)
    (xs : List Json) : (without actor xs).filter test = xs.filter test := by
  rw [without, List.filter_filter]
  refine List.filter_congr fun x _ => ?_
  cases hx : x == .string actor with
  | false => simp
  | true => rw [Json.beq_string_iff.1 hx, h]; rfl

/-! ### Two lists -/

/-- The lists of the two sides. -/
abbrev TwoLists := Side → List Json

namespace TwoLists

/-- No actor is in both lists. -/
def Apart (ls : TwoLists) : Prop := ∀ actor, .string actor ∈ ls .a → .string actor ∉ ls .b

/-- Where an actor is. -/
def place (ls : TwoLists) (actor : String) : Membership :=
  if holdsActor (ls .a) actor then .inA else if holdsActor (ls .b) actor then .inB else .neither

/-- The lists after a toggle of an actor that is in the list of one side, or in neither. -/
def move (ls : TwoLists) (actor : String) (side : Side) : Option Side → TwoLists
  | some s => Function.update ls s (without actor (ls s))
  | none   => Function.update ls side (ls side ++ [.string actor])

/-- A list after an actor has moved out of it or into it. -/
def moved (actor : String) : Option Side → List Json → List Json
  | some _, xs => without actor xs
  | none,   xs => xs ++ [.string actor]

/-- A move changes the list that the actor leaves, or the list of the side. -/
theorem move_eq_update (ls : TwoLists) (actor : String) (side : Side) (before : Option Side) :
    ls.move actor side before = Function.update ls (before.getD side)
      (moved actor before (ls (before.getD side))) := by
  cases before <;> rfl

/-- The lists after a toggle. -/
def toggle (ls : TwoLists) (actor : String) (side : Side) : TwoLists :=
  ls.move actor side (ls.place actor).side?

variable {ls : TwoLists} {actor other : String} {side : Side}

/-- An actor is in the list of this membership and in no other. -/
def Sits (ls : TwoLists) (actor : String) (m : Membership) : Prop :=
  ∀ s, .string actor ∈ ls s ↔ m.side? = some s

/-- An actor is in the list of its place and in no other. -/
theorem side?_place (h : ls.Apart) (actor : String) (s : Side) :
    (ls.place actor).side? = some s ↔ 0 < occurrences actor (ls s) := by
  have hnot := h actor
  rw [← holdsActor_iff_mem, ← holdsActor_iff_mem] at hnot
  rw [place, ← holdsActor_iff]
  cases ha : holdsActor (ls .a) actor <;> cases hb : holdsActor (ls .b) actor <;> cases s <;>
    simp_all [Membership.side?]

theorem sits_place (h : ls.Apart) (actor : String) : ls.Sits actor (ls.place actor) := fun s => by
  rw [side?_place h, occurrences_pos_iff]

theorem occurrences_eq_zero (h : ls.Apart) {s : Side} (hs : (ls.place actor).side? ≠ some s) :
    occurrences actor (ls s) = 0 :=
  Nat.eq_zero_of_not_pos fun hpos => hs ((side?_place h actor s).2 hpos)

theorem filter_moved {test : Json → Bool} (h : test (.string actor) = false)
    (before : Option Side) (xs : List Json) :
    (moved actor before xs).filter test = xs.filter test := by
  cases before with
  | some s => rw [moved, filter_without h]
  | none =>
    rw [moved, List.filter_append, List.filter_cons_of_neg (by simp [h]), List.filter_nil,
      List.append_nil]

/-- A test that turns the actor down sees the same items after a move, in the same order. -/
theorem filter_move {test : Json → Bool} (h : test (.string actor) = false) (ls : TwoLists)
    (side : Side) (before : Option Side) (s : Side) :
    (ls.move actor side before s).filter test = (ls s).filter test := by
  rw [move_eq_update]
  by_cases hs : s = before.getD side
  · rw [hs, Function.update_self, filter_moved h]
  · rw [Function.update_of_ne hs]

theorem filter_toggle {test : Json → Bool} (h : test (.string actor) = false) (ls : TwoLists)
    (side s : Side) : (ls.toggle actor side s).filter test = (ls s).filter test :=
  filter_move h ls side (ls.place actor).side? s

/-- A move of one actor does not touch the others. -/
theorem occurrences_move_of_ne (h : other ≠ actor) (ls : TwoLists) (side : Side)
    (before : Option Side) (s : Side) :
    occurrences other (ls.move actor side before s) = occurrences other (ls s) := by
  have hdropped : (fun x : Json => !(x == .string actor)) (.string actor) = false := by
    rw [Bool.not_eq_false', Json.string_beq_self]
  have hsame : without actor (ls.move actor side before s) = without actor (ls s) :=
    filter_move hdropped ls side before s
  rw [← occurrences_without_of_ne h, hsame, occurrences_without_of_ne h]

theorem occurrences_toggle_of_ne (h : other ≠ actor) (ls : TwoLists) (side s : Side) :
    occurrences other (ls.toggle actor side s) = occurrences other (ls s) :=
  occurrences_move_of_ne h ls side (ls.place actor).side? s

/-- After its toggle an actor is in the list that it went to once, and nowhere else. -/
theorem occurrences_toggle_self (h : ls.Apart) (actor : String) (side s : Side) :
    occurrences actor (ls.toggle actor side s) =
      if ((ls.place actor).toggle side).side? = some s then 1 else 0 := by
  rw [toggle, Membership.side?_toggle]
  cases hplace : (ls.place actor).side? with
  | some t =>
    rw [if_neg (by nofun : ¬some t = none), if_neg (by nofun : ¬none = some s), move]
    by_cases hs : s = t
    · rw [hs, Function.update_self, occurrences_without]
    · rw [Function.update_of_ne hs]
      exact occurrences_eq_zero h (by rw [hplace]; exact fun heq => hs (Option.some.inj heq).symm)
  | none =>
    have hnone : occurrences actor (ls s) = 0 := occurrences_eq_zero h (by rw [hplace]; nofun)
    rw [if_pos rfl, move]
    by_cases hs : s = side
    · subst hs
      rw [Function.update_self, if_pos rfl, occurrences, List.countP_append]
      change occurrences actor (ls s) + _ = 1
      rw [hnone]
      simp [Json.string?]
    · rw [Function.update_of_ne hs, if_neg fun heq => hs (Option.some.inj heq).symm, hnone]

/-- A toggle keeps the lists apart. -/
theorem apart_toggle (h : ls.Apart) (actor : String) (side : Side) :
    (ls.toggle actor side).Apart := by
  intro other ha hb
  rw [← occurrences_pos_iff] at ha hb
  by_cases hother : other = actor
  · subst hother
    rw [occurrences_toggle_self h] at ha hb
    split at ha
    · next hina => rw [hina, if_neg (by nofun)] at hb; exact Nat.lt_irrefl 0 hb
    · exact Nat.lt_irrefl 0 ha
  · rw [occurrences_toggle_of_ne hother, occurrences_pos_iff] at ha hb
    exact h other ha hb

/-- A toggle moves its own actor and no other. -/
theorem place_toggle (h : ls.Apart) (actor other : String) (side : Side) :
    (ls.toggle actor side).place other =
      if other = actor then (ls.place actor).toggle side else ls.place other := by
  refine Membership.side?_injective (Option.ext fun s => ?_)
  rw [side?_place (apart_toggle h actor side)]
  by_cases hother : other = actor
  · subst hother
    rw [if_pos rfl, occurrences_toggle_self h]
    split
    · next hs => exact ⟨fun _ => hs, fun _ => Nat.one_pos⟩
    · next hs => exact ⟨fun hpos => absurd hpos (Nat.lt_irrefl 0), fun heq => absurd heq hs⟩
  · rw [if_neg hother, occurrences_toggle_of_ne hother, side?_place h]

/-! ### Toggles in sequence -/

/-- The lists after toggles in order. -/
def toggles (ls : TwoLists) (steps : List (String × Side)) : TwoLists :=
  steps.foldl (fun ls step => ls.toggle step.1 step.2) ls

theorem apart_toggles (h : ls.Apart) (steps : List (String × Side)) : (ls.toggles steps).Apart := by
  induction steps generalizing ls with
  | nil => exact h
  | cons step steps ih => exact ih (apart_toggle h step.1 step.2)

/-- The sides that an actor toggles, in order. -/
def sidesOf (actor : String) (steps : List (String × Side)) : List Side :=
  (steps.filter (·.1 = actor)).map Prod.snd

theorem sidesOf_cons_self (actor : String) (side : Side) (steps : List (String × Side)) :
    sidesOf actor ((actor, side) :: steps) = side :: sidesOf actor steps := by
  rw [sidesOf, List.filter_cons_of_pos (by simp)]
  rfl

theorem sidesOf_cons_of_ne (h : other ≠ actor) (side : Side) (steps : List (String × Side)) :
    sidesOf other ((actor, side) :: steps) = sidesOf other steps := by
  rw [sidesOf, List.filter_cons_of_neg (by simpa using Ne.symm h)]
  rfl

/-- Where an actor is depends on its own toggles alone. -/
theorem place_toggles (h : ls.Apart) (actor : String) (steps : List (String × Side)) :
    (ls.toggles steps).place actor =
      (sidesOf actor steps).foldl Membership.toggle (ls.place actor) := by
  induction steps generalizing ls with
  | nil => rfl
  | cons step steps ih =>
    obtain ⟨other, side⟩ := step
    have hrest := ih (apart_toggle h other side)
    rw [place_toggle h] at hrest
    change ((ls.toggle other side).toggles steps).place actor = _
    by_cases hactor : actor = other
    · subst hactor
      rw [hrest, if_pos rfl, sidesOf_cons_self, List.foldl_cons]
    · rw [hrest, if_neg hactor, sidesOf_cons_of_ne hactor]

/-- A test that turns every toggling actor down sees the same items in the same order. -/
theorem filter_toggles {test : Json → Bool} (ls : TwoLists) {steps : List (String × Side)}
    (h : ∀ step ∈ steps, test (.string step.1) = false) (s : Side) :
    (ls.toggles steps s).filter test = (ls s).filter test := by
  induction steps generalizing ls with
  | nil => rfl
  | cons step steps ih =>
    have hrest := ih (ls.toggle step.1 step.2) fun p hp => h p (List.mem_cons_of_mem _ hp)
    exact hrest.trans (filter_toggle (h step List.mem_cons_self) ls step.2 s)

theorem occurrences_toggles_of_not_mem (ls : TwoLists) {steps : List (String × Side)}
    (h : actor ∉ steps.map Prod.fst) (s : Side) :
    occurrences actor (ls.toggles steps s) = occurrences actor (ls s) := by
  induction steps generalizing ls with
  | nil => rfl
  | cons step steps ih =>
    rw [List.map_cons, List.mem_cons, not_or] at h
    exact (ih (ls.toggle step.1 step.2) h.2).trans (occurrences_toggle_of_ne h.1 ls step.2 s)

/-- An actor that toggles ends up in the two lists once at most. -/
theorem occurrences_toggles_le (h : ls.Apart) {steps : List (String × Side)}
    (hactor : actor ∈ steps.map Prod.fst) :
    occurrences actor (ls.toggles steps .a) + occurrences actor (ls.toggles steps .b) ≤ 1 := by
  induction steps generalizing ls with
  | nil => exact absurd hactor List.not_mem_nil
  | cons step steps ih =>
    by_cases hrest : actor ∈ steps.map Prod.fst
    · exact ih (apart_toggle h step.1 step.2) hrest
    · -- The last toggle of this actor is the first one, and it leaves at most one occurrence.
      obtain rfl : actor = step.1 := (List.mem_cons.1 hactor).resolve_right hrest
      change occurrences step.1 ((ls.toggle step.1 step.2).toggles steps .a) +
        occurrences step.1 ((ls.toggle step.1 step.2).toggles steps .b) ≤ 1
      rw [occurrences_toggles_of_not_mem _ hrest, occurrences_toggles_of_not_mem _ hrest,
        occurrences_toggle_self h, occurrences_toggle_self h]
      cases ((ls.place step.1).toggle step.2).side? with
      | none => decide
      | some s => cases s <;> decide

end TwoLists

/-! ### Records with two lists -/

namespace TogglePair

/-- Two different lists that may be written and whose names are no paths. -/
structure Plain (t : TogglePair) : Prop where
  distinct : t.a ≠ t.b
  undotted : ∀ s, '.' ∉ (t.field s).toList
  unowned : ∀ s, t.field s ≠ idField ∧ t.field s ≠ versionField

/-- The record holds these lists. -/
def Holds (t : TogglePair) (r : Record) (ls : TwoLists) : Prop :=
  ∀ s, r.list (t.field s) = .ok (ls s)

variable {t : TogglePair} {r : Record} {ls : TwoLists}

theorem Plain.isPatchable (h : t.Plain) (s : Side) : isPatchable (t.field s) = true :=
  isPatchable_of_ne (h.unowned s).1 (h.unowned s).2

theorem Plain.field_ne (h : t.Plain) {s u : Side} (hne : s ≠ u) : t.field s ≠ t.field u := by
  cases s <;> cases u
  · exact absurd rfl hne
  · exact h.distinct
  · exact h.distinct.symm
  · exact absurd rfl hne

theorem field_mem (t : TogglePair) (s : Side) : t.field s ∈ [t.a, t.b] := by
  cases s <;> simp [field]

theorem membership_eq_ok_iff {actor : String} {m : Membership} (h : t.Holds r ls) :
    t.membership r actor = .ok m ↔ ls.Sits actor m := by
  have ha : r.list t.a = .ok (ls .a) := h .a
  have hb : r.list t.b = .ok (ls .b) := h .b
  have hsides : ls.Sits actor m ↔ (holdsActor (ls .a) actor = true ↔ m.side? = some .a) ∧
      (holdsActor (ls .b) actor = true ↔ m.side? = some .b) := by
    rw [holdsActor_iff_mem, holdsActor_iff_mem]
    exact ⟨fun h => ⟨h .a, h .b⟩, fun h s => by cases s; exacts [h.1, h.2]⟩
  rw [hsides, membership, ha, hb]
  dsimp only [bind, Except.bind]
  cases holdsActor (ls .a) actor <;> cases holdsActor (ls .b) actor <;> cases m <;>
    simp [Membership.side?]

theorem membership_eq (h : t.Holds r ls) (hapart : ls.Apart) (actor : String) :
    t.membership r actor = .ok (ls.place actor) :=
  (membership_eq_ok_iff h).2 (TwoLists.sits_place hapart actor)

/-- Writing one of the two lists. -/
theorem holds_set (hplain : t.Plain) (h : t.Holds r ls) (s : Side) (xs : List Json) :
    t.Holds (r.set (t.field s) (.array xs)) (Function.update ls s xs) := by
  intro u
  by_cases hu : u = s
  · rw [hu, Function.update_self, Record.list_set_self]
  · rw [Function.update_of_ne hu, Record.list_set_of_ne (hplain.field_ne hu), h u]

/-- The patch of a toggle writes the list that the actor moves out of or into. -/
theorem applied_patch (hplain : t.Plain) (h : t.Holds r ls) {actor : String} {m : Membership}
    (hsits : ls.Sits actor m) (side : Side) (matched : Option Filter) :
    (t.patch actor m side).applied matched r = .ok (r.set (t.field (m.side?.getD side))
      (.array (TwoLists.moved actor m.side? (ls (m.side?.getD side))))) := by
  rw [patch]
  cases hplace : m.side? with
  | some s =>
    have hne : ls s ≠ [] := List.ne_nil_of_mem ((hsits s).2 hplace)
    have hstored : r.get? (t.field s) = some (.array (ls s)) := by
      rw [Record.get?_of_undotted (hplain.undotted s)]
      exact (Record.list_eq_ok_iff.1 (h s)).eq_array hne
    dsimp only
    rw [Patch.applied_pull (hplain.isPatchable s) hstored, h s]
    rfl
  | none =>
    dsimp only
    rw [Patch.applied_push (hplain.isPatchable side), h side]
    rfl

/-- A toggle is one write to one of the two lists. -/
theorem apply_eq (hplain : t.Plain) (h : t.Holds r ls) (hapart : ls.Apart) (actor : String)
    (side : Side) : ∃ s xs, t.apply r actor side = .ok (r.set (t.field s) (.array xs)) ∧
      ls.toggle actor side = Function.update ls s xs := by
  have happly : t.apply r actor side =
      (t.patch actor (ls.place actor) side).applied none r := by
    rw [apply, plan, membership_eq h hapart]
    rfl
  have hpatch := applied_patch hplain h (TwoLists.sits_place hapart actor) side none
  exact ⟨_, _, happly.trans hpatch, ls.move_eq_update actor side _⟩

/-- A toggle succeeds, and the record then holds the toggled lists and is otherwise unchanged. -/
theorem exists_apply (hplain : t.Plain) (h : t.Holds r ls) (hapart : ls.Apart) (actor : String)
    (side : Side) : ∃ w, t.apply r actor side = .ok w ∧ t.Holds w (ls.toggle actor side) ∧
      r.Agrees [t.a, t.b] w := by
  obtain ⟨s, xs, happly, htoggle⟩ := apply_eq hplain h hapart actor side
  refine ⟨_, happly, htoggle ▸ holds_set hplain h s xs, ?_⟩
  exact (Record.Agrees.set r (t.field s) _).mono
    (List.cons_subset.2 ⟨t.field_mem s, List.nil_subset _⟩)

/-- Toggles in order. -/
def run (t : TogglePair) : Record → List (String × Side) → Except Corruption Record
  | r, []                     => .ok r
  | r, (actor, side) :: steps => do t.run (← t.apply r actor side) steps

theorem exists_run (hplain : t.Plain) (steps : List (String × Side)) (h : t.Holds r ls)
    (hapart : ls.Apart) : ∃ w, t.run r steps = .ok w ∧ t.Holds w (ls.toggles steps) ∧
      r.Agrees [t.a, t.b] w := by
  induction steps generalizing r ls with
  | nil => exact ⟨r, rfl, h, .refl _ r⟩
  | cons step steps ih =>
    obtain ⟨v, happly, hv, hagrees⟩ := exists_apply hplain h hapart step.1 step.2
    obtain ⟨w, hrun, hw, hmore⟩ := ih hv (TwoLists.apart_toggle hapart step.1 step.2)
    refine ⟨w, ?_, hw, hagrees.trans hmore⟩
    rw [run, happly]
    exact hrun

/-- Whether an item is anything but the name of an actor that toggles. -/
def isBystander (steps : List (String × Side)) (x : Json) : Bool :=
  steps.all fun step => !(x == .string step.1)

/-- What toggles in sequence make of a record with two lists. -/
structure Ran (t : TogglePair) (steps : List (String × Side)) (r : Record) (ls : TwoLists)
    (w : Record) (ms : TwoLists) : Prop where
  holds : t.Holds w ms
  apart : ms.Apart
  membership : ∀ actor, ∃ before, t.membership r actor = .ok before ∧
    t.membership w actor =
      .ok ((TwoLists.sidesOf actor steps).foldl Membership.toggle before)
  once : ∀ actor ∈ steps.map Prod.fst,
    occurrences actor (ms .a) + occurrences actor (ms .b) ≤ 1
  order : ∀ s, (ms s).filter (isBystander steps) = (ls s).filter (isBystander steps)
  agrees : r.Agrees [t.a, t.b] w

/-- Toggles of any actors in any order succeed, and each actor is where its own toggles took it. -/
theorem exists_ran (t : TogglePair) (hplain : t.Plain) (r : Record) (ls : TwoLists)
    (hlists : ∀ s, Record.ReadsAsList (r.fields.get? (t.field s)) (ls s)) (hapart : ls.Apart)
    (steps : List (String × Side)) :
    ∃ w ms, t.run r steps = .ok w ∧ t.Ran steps r ls w ms := by
  have h : t.Holds r ls := fun s => Record.list_eq_ok_iff.2 (hlists s)
  obtain ⟨w, hrun, hw, hagrees⟩ := exists_run hplain steps h hapart
  have hafter := TwoLists.apart_toggles hapart steps
  refine ⟨w, ls.toggles steps, hrun, hw, hafter, fun actor => ?_, fun actor hactor => ?_, ?_,
    hagrees⟩
  · refine ⟨ls.place actor, membership_eq h hapart actor, ?_⟩
    rw [membership_eq hw hafter, TwoLists.place_toggles hapart]
  · exact TwoLists.occurrences_toggles_le hapart hactor
  · refine TwoLists.filter_toggles ls fun step hstep => ?_
    rw [isBystander, List.all_eq_false]
    exact ⟨step, hstep, by simp [Json.string_beq_self]⟩

/-- Two actors in turn; one is in a list twice at first, next to an item that names nobody. -/
theorem ran_two_actors :
    let r : Record := ⟨.uniform 1, [("likes", .array [.string "u", .int 3, .string "u"])]⟩
    let ls : TwoLists := fun
      | .a => [.string "u", .int 3, .string "u"]
      | .b => []
    let steps : List (String × Side) := [("v", .b), ("u", .b), ("v", .a), ("u", .a)]
    Plain {} ∧ (∀ s, Record.ReadsAsList (r.fields.get? (field {} s)) (ls s)) ∧ ls.Apart ∧
      ∃ w ms, run {} r steps = .ok w ∧ Ran {} steps r ls w ms := by
  intro r ls steps
  have hplain : Plain {} :=
    ⟨by decide, fun s => by cases s <;> decide, fun s => by cases s <;> decide⟩
  have hlists : ∀ s, Record.ReadsAsList (r.fields.get? (field {} s)) (ls s) := by
    intro s
    cases s with
    | a => exact .array _
    | b => exact .absent
  have hapart : ls.Apart := fun _ _ => List.not_mem_nil
  exact ⟨hplain, hlists, hapart, exists_ran {} hplain r ls hlists hapart steps⟩

end TogglePair

end Shelf
