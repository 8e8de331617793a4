import Shelf.Proofs.Toggle

/-!
Toggles of different actors.

Two actors may plan their toggles on the same record. The patch of the second is then carried out on
a record that the first has changed, and it does what a plan made afterwards would have done: a
patch adds or removes its own actor, and how often any other actor is in a list does not depend on
it. The order of the two patches shows only where both put their actor at the end of one list.

    likes [u, w, u]     u leaves    [w]             then v enters    [w, v]
                        v enters    [u, w, u, v]    then u leaves    [w, v]
    likes [w]           u enters    [w, u]          then v enters    [w, u, v]
                        v enters    [w, v]          then u enters    [w, v, u]
-/

namespace Shelf

namespace TwoLists

variable {ls : TwoLists} {x y actor other : String} {m : Membership} {side : Side}

/-! ### Where one actor is -/

/-- A move of one actor leaves every other where it is. -/
theorem mem_move_iff_of_ne (h : other ≠ actor) (ls : TwoLists) (side s : Side)
    (before : Option Side) :
    .string other ∈ ls.move actor side before s ↔ .string other ∈ ls s := by
  rw [← occurrences_pos_iff, occurrences_move_of_ne h, occurrences_pos_iff]

/-- A move takes its own actor to where its toggle leads. -/
theorem sits_move_self (h : ls.Sits actor m) (side : Side) :
    (ls.move actor side m.side?).Sits actor (m.toggle side) := by
  intro s
  rw [move_eq_update, Membership.side?_toggle]
  cases hplace : m.side? with
  | some i =>
    rw [if_neg (Option.some_ne_none i), Option.getD_some, moved]
    refine iff_of_false ?_ (Option.some_ne_none s).symm
    by_cases hs : s = i
    · rw [hs, Function.update_self, ← occurrences_pos_iff, occurrences_without]
      exact Nat.lt_irrefl 0
    · rw [Function.update_of_ne hs, h s, hplace]
      exact fun heq => hs (Option.some.inj heq).symm
  | none =>
    rw [if_pos rfl, Option.getD_none, moved, Option.some.injEq]
    by_cases hs : s = side
    · rw [hs, Function.update_self]
      exact iff_of_true (List.mem_append_right _ (List.mem_singleton.2 rfl)) rfl
    · rw [Function.update_of_ne hs, h s, hplace]
      exact iff_of_false (Option.some_ne_none s).symm (Ne.symm hs)

/-! ### Two moves -/

theorem without_concat_of_ne (h : y ≠ x) (xs : List Json) :
    without x (xs ++ [.string y]) = without x xs ++ [.string y] := by
  have hkept : (!(Json.string y == .string x)) = true := congrArg not (Json.string_beq_of_ne h)
  rw [without, List.filter_append, List.filter_cons_of_pos (by exact hkept), List.filter_nil,
    without]

/-- Two moves in the two orders give the same items. -/
theorem perm_moved_moved (h : x ≠ y) (p q : Option Side) (xs : List Json) :
    (moved y q (moved x p xs)).Perm (moved x p (moved y q xs)) := by
  cases p with
  | some i =>
    cases q with
    | some j => exact .of_eq (List.filter_comm _ _ xs)
    | none => exact .of_eq (without_concat_of_ne (Ne.symm h) xs).symm
  | none =>
    cases q with
    | some j => exact .of_eq (without_concat_of_ne h xs)
    | none =>
      rw [moved, moved, moved, moved, List.append_assoc, List.append_assoc]
      exact (List.Perm.swap (.string y) (.string x) []).append_left xs

end TwoLists

namespace TogglePair

open TwoLists (Sits moved)

variable {t : TogglePair} {r w : Record} {ls ms : TwoLists} {actor x y : String} {m : Membership}
  {side s u : Side} {p q : Transition}

/-! ### Memberships and plans -/

/-- Where an actor is, or why that cannot be told, is a matter of whether it is in each list. -/
theorem membership_congr (h : t.Holds r ls) (h' : t.Holds w ms) (hid : w.id = r.id)
    (hsame : ∀ s, .string actor ∈ ms s ↔ .string actor ∈ ls s) :
    t.membership w actor = t.membership r actor := by
  have hholds : ∀ s, holdsActor (ms s) actor = holdsActor (ls s) actor := fun s => by
    rw [Bool.eq_iff_iff, holdsActor_iff_mem, holdsActor_iff_mem, hsame s]
  rw [membership, membership, show w.list t.a = .ok (ms .a) from h' .a,
    show w.list t.b = .ok (ms .b) from h' .b, show r.list t.a = .ok (ls .a) from h .a,
    show r.list t.b = .ok (ls .b) from h .b]
  dsimp only [bind, Except.bind]
  rw [hholds .a, hholds .b, hid]

theorem plan_eq_ok_iff : t.plan r actor side = .ok p ↔
    ∃ m, t.membership r actor = .ok m ∧ p = ⟨m, m.toggle side, t.patch actor m side⟩ := by
  rw [plan, bind_eq_ok]
  exact exists_congr fun m => and_congr_right fun _ => ⟨fun h => by cases h; rfl, fun h => h ▸ rfl⟩

theorem exists_holds_of_membership (h : t.membership r actor = .ok m) : ∃ ls, t.Holds r ls := by
  rw [membership, bind_eq_ok] at h
  obtain ⟨as, ha, h⟩ := h
  obtain ⟨bs, hb, -⟩ := bind_eq_ok.1 h
  refine ⟨Function.update (fun _ => bs) .a as, fun s => ?_⟩
  cases s with
  | a => rwa [Function.update_self]
  | b => rwa [Function.update_of_ne (by decide)]

/-! ### Patches -/

/-- The patch of a toggle, on any record in which the actor is where it was planned from. -/
structure Moves (t : TogglePair) (actor : String) (m : Membership) (side : Side) (r : Record)
    (ls : TwoLists) (w : Record) : Prop where
  applied : ∀ matched, (t.patch actor m side).applied matched r = .ok w
  eq_set : w = r.set (t.field (m.side?.getD side))
    (.array (moved actor m.side? (ls (m.side?.getD side))))
  holds : t.Holds w (ls.move actor side m.side?)
  sits : (ls.move actor side m.side?).Sits actor (m.toggle side)

theorem exists_moves (hplain : t.Plain) (h : t.Holds r ls) (hsits : ls.Sits actor m)
    (side : Side) : ∃ w, t.Moves actor m side r ls w := by
  refine ⟨_, applied_patch hplain h hsits side, rfl, ?_, TwoLists.sits_move_self hsits side⟩
  rw [ls.move_eq_update]
  exact holds_set hplain h _ _

/-- A record, and those that differ from it in the order of the items of one of the two lists. -/
inductive Rearranged (t : TogglePair) (w : Record) : Record → Prop
  | same : Rearranged t w w
  | list (s : Side) {xs ys : List Json} (hxs : w.list (t.field s) = .ok xs) (hperm : ys.Perm xs) :
    Rearranged t w (w.set (t.field s) (.array ys))

/-- The order of two patches decides the order of two names at most. -/
theorem rearranged_of_moves (hplain : t.Plain) (hxy : x ≠ y) {m n : Membership} {v v' w' : Record}
    (hv : t.Moves x m s r ls v) (hw : t.Moves y n u v (ls.move x s m.side?) w)
    (hv' : t.Moves y n u r ls v') (hw' : t.Moves x m s v' (ls.move y u n.side?) w') :
    t.Rearranged w w' := by
  have hlist := hw.holds (n.side?.getD u)
  have hafter := hw.eq_set
  have hafter' := hw'.eq_set
  rw [hv.eq_set, ls.move_eq_update] at hafter
  rw [hv'.eq_set, ls.move_eq_update] at hafter'
  by_cases hside : m.side?.getD s = n.side?.getD u
  · -- Both write one list, and the second write is what remains.
    rw [hside, Function.update_self, Record.set_set_self] at hafter
    rw [hside, Function.update_self, Record.set_set_self] at hafter'
    rw [hafter, Record.list_set_self] at hlist
    have hperm := TwoLists.perm_moved_moved (Ne.symm hxy) n.side? m.side? (ls (n.side?.getD u))
    have hsame : w' = w.set (t.field (n.side?.getD u))
        (.array (moved x m.side? (moved y n.side? (ls (n.side?.getD u))))) := by
      rw [hafter', hafter, Record.set_set_self]
    rw [hsame]
    exact .list _ (hafter ▸ Record.list_set_self ..) hperm
  · rw [Function.update_of_ne (Ne.symm hside), Record.set_comm (hplain.field_ne hside)] at hafter
    rw [Function.update_of_ne hside] at hafter'
    rw [hafter', hafter]
    exact .same

/-- What two toggles come to that were planned on one record. -/
structure PlannedTogether (t : TogglePair) (r : Record) (x y : String) (s u : Side)
    (p q : Transition) (w : Record) : Prop where
  inTurn : ∃ v, t.apply r x s = .ok v ∧ t.apply v y u = .ok w
  patches : ∀ matched, ∃ v, p.patch.applied matched r = .ok v ∧ q.patch.applied matched v = .ok w
  first : t.membership w x = .ok p.after
  second : t.membership w y = .ok q.after
  others : ∀ z, z ≠ x → z ≠ y → t.membership w z = t.membership r z
  swapped : ∀ matched, ∃ v w', q.patch.applied matched r = .ok v ∧
    p.patch.applied matched v = .ok w' ∧ t.Rearranged w w'

/-- Toggles of different actors do not get lost when they are planned on one record. -/
theorem exists_plannedTogether (hplain : t.Plain) (hxy : x ≠ y) (hp : t.plan r x s = .ok p)
    (hq : t.plan r y u = .ok q) : ∃ w, t.PlannedTogether r x y s u p q w := by
  obtain ⟨m, hm, rfl⟩ := plan_eq_ok_iff.1 hp
  obtain ⟨n, hn, rfl⟩ := plan_eq_ok_iff.1 hq
  obtain ⟨ls, hls⟩ := exists_holds_of_membership hm
  have hx : ls.Sits x m := (membership_eq_ok_iff hls).1 hm
  have hy : ls.Sits y n := (membership_eq_ok_iff hls).1 hn
  have hx' : (ls.move y u n.side?).Sits x m := fun k =>
    (TwoLists.mem_move_iff_of_ne hxy ls u k _).trans (hx k)
  have hy' : (ls.move x s m.side?).Sits y n := fun k =>
    (TwoLists.mem_move_iff_of_ne (Ne.symm hxy) ls s k _).trans (hy k)
  obtain ⟨v, hv⟩ := exists_moves hplain hls hx s
  obtain ⟨w, hw⟩ := exists_moves hplain hv.holds hy' u
  obtain ⟨v', hv'⟩ := exists_moves hplain hls hy u
  obtain ⟨w', hw'⟩ := exists_moves hplain hv'.holds hx' s
  refine ⟨w, ⟨v, ?_, ?_⟩, fun matched => ⟨v, hv.applied matched, hw.applied matched⟩, ?_, ?_,
    fun z hzx hzy => ?_, fun matched => ⟨v', w', hv'.applied matched, hw'.applied matched,
      rearranged_of_moves hplain hxy hv hw hv' hw'⟩⟩
  · rw [apply, plan_eq_ok_iff.2 ⟨m, hm, rfl⟩]
    exact hv.applied none
  · rw [apply, plan_eq_ok_iff.2 ⟨n, (membership_eq_ok_iff hv.holds).2 hy', rfl⟩]
    exact hw.applied none
  · refine (membership_eq_ok_iff hw.holds).2 fun k => ?_
    exact (TwoLists.mem_move_iff_of_ne hxy _ u k _).trans (hv.sits k)
  · exact (membership_eq_ok_iff hw.holds).2 hw.sits
  · refine membership_congr hls hw.holds ?_ fun k => ?_
    · rw [hw.eq_set, hv.eq_set]
      rfl
    · exact (TwoLists.mem_move_iff_of_ne hzy _ u k _).trans
        (TwoLists.mem_move_iff_of_ne hzx ls s k _)

/-- One actor leaves a list that it is in twice, one enters the same list, and a third is in both
lists. -/
theorem plannedTogether_same_list :
    let r : Record := ⟨.uniform 1, [("dislikes", .array [.string "w"]),
      ("likes", .array [.string "u", .string "w", .int 3, .string "u"])]⟩
    ∃ p q, Plain {} ∧ "u" ≠ "v" ∧ plan {} r "u" .b = .ok p ∧ plan {} r "v" .a = .ok q ∧
      ∃ w, PlannedTogether {} r "u" "v" .b .a p q w := by
  intro r
  have hplain : Plain {} :=
    ⟨by decide, fun s => by cases s <;> decide, fun s => by cases s <;> decide⟩
  have hne : "u" ≠ "v" := by decide
  have hp : plan {} r "u" .b = .ok ⟨.inA, .neither, patch {} "u" .inA .b⟩ := rfl
  have hq : plan {} r "v" .a = .ok ⟨.neither, .inA, patch {} "v" .neither .a⟩ := rfl
  exact ⟨_, _, hplain, hne, hp, hq, exists_plannedTogether hplain hne hp hq⟩

end TogglePair

end Shelf
