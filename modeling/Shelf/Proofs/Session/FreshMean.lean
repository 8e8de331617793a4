import Shelf.Proofs.Json.Members
import Shelf.Proofs.Mean.Finite
import Shelf.Proofs.Session.Failure

/-!
The mean of a rated record stays fresh.

A rating that succeeds stores the mean of the ratings that the record then has. From there on the
mean stays that of the ratings, whatever is called, as long as nothing but ratings writes to the two
fields; and the next rating never fails for what is stored, since all stars can be read. A mean that
is fresh is close to the exact mean of the stars.

    rate 5     [5]      5.0
    toggle     [5]      5.0
    rate 4     [5, 4]   4.5
    rate 6     [5, 4]   4.5     refused
-/

namespace Shelf

open StoredMean (StandsForNumber)

/-! ### One record -/

/-- The fields that hold the ratings and their mean. -/
def meanFields : List String := [StoredMean.ratings.list, StoredMean.ratings.target]

/-- A record whose stored mean is that of its ratings. -/
def Record.MeanFresh (r : Record) : Prop :=
  ∃ mean, StoredMean.ratings.compute r = .ok mean ∧
    r.fields.get? StoredMean.ratings.target = some (.real mean)

namespace Record.MeanFresh

variable {r w : Record} {rating : Rating}

/-- Only the two fields matter. -/
theorem congr (h : r.MeanFresh)
    (hsame : ∀ f ∈ meanFields, w.fields.get? f = r.fields.get? f) : w.MeanFresh := by
  obtain ⟨mean, hmean, hstored⟩ := h
  have hlist : w.list StoredMean.ratings.list = r.list StoredMean.ratings.list := by
    rw [list, list, hsame _ List.mem_cons_self]
  refine ⟨mean, (StoredMean.compute_congr hlist).trans hmean, ?_⟩
  rw [hsame _ (List.mem_cons_of_mem _ List.mem_cons_self), hstored]

theorem of_agrees {fields : List String} (h : r.MeanFresh) (hagrees : r.Agrees fields w)
    (hfields : ∀ f ∈ meanFields, f ∉ fields) : w.MeanFresh :=
  h.congr fun f hf => hagrees.frame f (hfields f hf)

theorem rewritten (h : r.MeanFresh) (version : Nat) (now : String) :
    (r.rewritten version now).MeanFresh := by
  refine h.congr fun f hf => get?_rewritten (fun hstamped => ?_) r version now
  revert f
  decide

/-- Storing the mean makes it fresh, since the mean is no part of what it is taken of. -/
theorem of_recompute (h : StoredMean.ratings.recompute r = .ok w) : w.MeanFresh := by
  rw [StoredMean.recompute_eq (by decide)] at h
  cases hmean : StoredMean.ratings.compute r with
  | error e =>
    rw [hmean] at h
    cases h
  | ok mean =>
    rw [hmean] at h
    cases h
    refine ⟨mean, ?_, Fields.get?_insert_self _ _ r.fields⟩
    exact (StoredMean.compute_congr (list_set_of_ne (by decide) r _)).trans hmean

theorem of_rateDetached (h : Service.rateDetached r rating = .ok w) : w.MeanFresh := by
  obtain ⟨rated, -, h⟩ := bind_eq_ok.1 h
  exact of_recompute (mapError_eq_ok.1 h)

/-- What is stored is close to the exact mean of the stars. -/
theorem near (h : r.MeanFresh) {ys : List Float} {qs : List ℚ} {p : Nat}
    (hys : StoredMean.ratings.Reads r ys) (hp : p ≤ 971) (hqs : StoredMean.Values p ys qs)
    (hlen : ys.length < 2 ^ 53) :
    ∃ x v, r.fields.get? StoredMean.ratings.target = some (.number (.real x)) ∧
      floatValue? x = some v ∧
      |v - StoredMean.average qs| ≤ 1 / 20 + (ys.length + 3) * (2 ^ p / 2 ^ 53) := by
  obtain ⟨mean, hmean, hstored⟩ := h
  have hread := StoredMean.compute_eq_ok_iff.2 ⟨ys, hys, rfl⟩
  obtain rfl := Except.ok.inj (hmean.symm.trans hread)
  obtain ⟨v, hv, hnear⟩ := StoredMean.abs_meanOf_sub_le hp hqs hlen
  rw [StoredMean.real_of_value hv] at hstored
  exact ⟨_, v, hstored, hv, hnear⟩

end Record.MeanFresh

/-! ### Rating a record again -/

namespace Rating

variable {rating : Rating} {r : Record}

theorem sorted_payload (rating : Rating) : rating.payload.Sorted := by
  cases h : rating.comment with
  | none =>
    rw [payload, h]
    exact List.pairwise_singleton _ _
  | some text =>
    have hlt : "comment" < "star" := by decide
    rw [payload, h]
    exact List.pairwise_pair.2 hlt

/-- An entry that a rating is written over has its star. -/
theorem get?_star (rating : Rating) (fs : Fields) :
    (fs.override rating.payload).get? "star" = some (.int rating.star) := by
  have hstar : rating.payload.get? "star" = some (.int rating.star) := by
    cases h : rating.comment with
    | none => rw [payload, h]; rfl
    | some text => rw [payload, h]; rfl
  rw [Fields.get?_override rating.sorted_payload, hstar, Option.some_or]

/-- A record whose mean is fresh can be rated. -/
theorem exists_rateDetached (h : r.MeanFresh) (rating : Rating) :
    ∃ w, Service.rateDetached r rating = .ok w := by
  obtain ⟨mean, hmean, -⟩ := h
  obtain ⟨xs, hxs, -⟩ := bind_eq_ok.1 hmean
  have hread := (StoredMean.exists_compute_ok_iff hxs).1 ⟨mean, hmean⟩
  have happly := KeyedList.apply_of_check (KeyedList.check_ratings rating) (by decide) hxs
  have hrated : (rating.entered r xs).list StoredMean.ratings.list =
      .ok (upserted rating.key rating.payload xs) := Record.list_set_self r _ _
  obtain ⟨next, hnext⟩ : ∃ next, StoredMean.ratings.compute (rating.entered r xs) = .ok next := by
    refine (StoredMean.exists_compute_ok_iff hrated).2 fun entry hentry => ?_
    rcases mem_upserted hentry with hold | ⟨fs, rfl⟩
    · exact hread entry hold
    · have hstar : (Json.object (fs.override rating.payload)).member? "star" =
          some (.int rating.star) := rating.get?_star fs
      exact hstar ▸ StandsForNumber.number _
  refine ⟨(rating.entered r xs).set StoredMean.ratings.target (.real next), ?_⟩
  have hmean : StoredMean.ratings.recompute (rating.entered r xs) = _ :=
    StoredMean.recompute_eq (by decide) _
  rw [hnext] at hmean
  rw [Service.rateDetached, happly]
  exact congrArg ofStored hmean

end Rating

/-! ### One call -/

/-- A record is stored under the identifier, and its mean is fresh. -/
def Memory.MeanFreshAt (m : Memory) (id : Uuid) : Prop :=
  ∃ r, m.findById id = some r ∧ r.MeanFresh

namespace Call

variable {m : Memory} {id : Uuid} {rating : Rating} {s : Service} {now : String}

/-- Whether a call leaves the ratings and their mean to ratings. -/
def SparesMean : Call → Prop
  | .toggle pair _ _ _   => ∀ side, pair.field side ∉ meanFields
  | .upsertEntry _ l _ _ => l.field ∉ meanFields
  | _                    => True

/-- A rating by stars in the range, of a record whose mean is fresh. -/
theorem rate_of_meanFreshAt (hm : m.ids.Nodup) (h : m.MeanFreshAt id)
    (hcheck : rating.check = .ok ()) (s : Service) (now : String) :
    ∃ w, (((Call.rate id rating).act s now).runOn m).1 = .ok w ∧
      ((Call.rate id rating).after s now m).findById id = some w ∧ w.MeanFresh := by
  obtain ⟨r, hfind, hfresh⟩ := h
  obtain ⟨w, hw⟩ := rating.exists_rateDetached hfresh
  obtain ⟨hanswer, hstored⟩ := Service.yields_rate hm hfind hcheck s now
  rw [hw] at hanswer hstored
  exact ⟨_, hanswer, hstored _ rfl, (Record.MeanFresh.of_rateDetached hw).rewritten _ _⟩

theorem rate_of_check_error {cause : Rejection} (hcheck : rating.check = .error cause)
    (s : Service) (now : String) (id : Uuid) (m : Memory) :
    ((Call.rate id rating).act s now).runOn m = (.error (.rejected cause), m) := by
  change (s.rate now id rating).runOn m = _
  rw [Service.rate, hcheck]
  rfl

/-- Writes to other fields, or to another record. -/
theorem meanFreshAt_of_writes {t : Memory} {i : Uuid} {fields : List String} {n : Nat}
    (hm : m.ids.Nodup) (h : m.MeanFreshAt id) (hwrites : m.Writes i fields n t)
    (hfields : id = i → ∀ f ∈ meanFields, f ∉ fields) : t.MeanFreshAt id := by
  obtain ⟨r, hfind, hfresh⟩ := h
  obtain ⟨w, hw, hrow⟩ := hwrites.exists_found hm hfind
  refine ⟨w, hw, ?_⟩
  split at hrow
  · next hid =>
    refine hfresh.of_agrees hrow.agrees fun f hf => ?_
    rw [List.mem_append, not_or]
    refine ⟨hfields hid f hf, ?_⟩
    revert f
    decide
  · exact hrow ▸ hfresh

/-- What is about other fields is about none of the two. -/
theorem SparesMean.not_mem_about {c : Call} (hc : c.SparesMean)
    (hrate : ∀ i rating, c ≠ .rate i rating) :
    ∀ fields ∈ c.about, ∀ f ∈ meanFields, f ∉ fields := by
  cases c with
  | toggle pair _ _ _ =>
    intro fields hin f hf hmem
    have hside : ∃ side, fields = [pair.field side] := by
      rcases List.mem_pair.1 hin with rfl | rfl
      · exact ⟨.a, rfl⟩
      · exact ⟨.b, rfl⟩
    obtain ⟨side, rfl⟩ := hside
    exact hc side (List.mem_singleton.1 hmem ▸ hf)
  | upsertEntry _ l _ _ =>
    intro fields hin f hf hmem
    rw [List.mem_singleton.1 hin, List.mem_singleton] at hmem
    exact hc (hmem ▸ hf)
  | updateCart _ _ =>
    intro fields hin
    rw [List.mem_singleton.1 hin]
    decide
  | rate i rating => exact absurd rfl (hrate i rating)
  | _ => exact fun _ hin => absurd hin List.not_mem_nil

/-- A rating that succeeds makes the mean fresh. -/
theorem meanFreshAt_of_rate (hm : m.ids.Nodup) (h : (Call.rate id rating).succeeds s now m = true) :
    ((Call.rate id rating).after s now m).MeanFreshAt id := by
  have hrun : ((Call.rate id rating).act s now).runOn m =
      (s.enterRating now id rating >>= s.storeMean now id).runOn m := s.runOn_rate now id rating m
  rw [succeeds] at h
  cases hentry : (s.enterRating now id rating).runOn m with
  | mk answer t =>
    cases answer with
    | error e =>
      rw [hrun, Action.runOn_bind_error hentry] at h
      cases h
    | ok rated =>
      obtain ⟨hcheck, r, hfind, -⟩ := Service.enterRating_eq_ok hm hentry
      obtain ⟨hanswer, hstored⟩ := Service.yields_rate hm hfind hcheck s now
      cases hw : Service.rateDetached r rating with
      | error e =>
        have hfail : (((Call.rate id rating).act s now).runOn m).1 = .error e :=
          hanswer.trans (congrArg _ hw)
        rw [hfail] at h
        cases h
      | ok w =>
        rw [hw] at hstored
        exact ⟨_, hstored _ rfl, (Record.MeanFresh.of_rateDetached hw).rewritten _ _⟩

/-- No call that spares the mean makes it stale. -/
theorem meanFreshAt_after (hm : m.ids.Nodup) (h : m.MeanFreshAt id) {c : Call}
    (hc : c.SparesMean) (s : Service) (now : String) : (c.after s now m).MeanFreshAt id := by
  cases htarget : c.target? with
  | none =>
    rcases after_cases htarget s now m with ⟨-, hafter⟩ | ⟨q, -, -, hafter⟩
    · rw [hafter]
      exact h
    · obtain ⟨r, hfind, hfresh⟩ := h
      refine ⟨r, ?_, hfresh⟩
      rw [Memory.findById] at hfind
      rw [hafter, Memory.findById, List.find?_append, hfind, Option.some_or]
  | some i =>
    by_cases hrate : ∃ rating, c = .rate id rating
    · obtain ⟨rating, rfl⟩ := hrate
      cases hcheck : rating.check with
      | ok u =>
        obtain ⟨w, -, hstored, hfresh⟩ := rate_of_meanFreshAt hm h hcheck s now
        exact ⟨w, hstored, hfresh⟩
      | error cause =>
        rw [after, rate_of_check_error hcheck]
        exact h
    · obtain ⟨fields, hin, hwrites⟩ := exists_writes hm htarget s now
      refine meanFreshAt_of_writes hm h hwrites fun hid => ?_
      refine hc.not_mem_about (fun j rating hcall => ?_) fields hin
      subst hcall
      cases htarget
      exact hrate ⟨rating, hid ▸ rfl⟩

end Call

/-! ### Sessions -/

namespace Session

theorem meanFreshAt_run (s : Service) {id : Uuid} : ∀ {calls : Session} {m : Memory},
    m.ids.Nodup → m.MeanFreshAt id → (∀ step ∈ calls, step.2.SparesMean) →
      (run s calls m).MeanFreshAt id
  | [],                _, _,  h, _      => h
  | (now, c) :: calls, m, hm, h, hcalls => by
    have hstep := Call.meanFreshAt_after hm h (hcalls _ List.mem_cons_self) s now
    have hrest : ∀ step ∈ calls, step.2.SparesMean := fun step hin =>
      hcalls step (List.mem_cons_of_mem _ hin)
    rw [run]
    exact meanFreshAt_run s (c.ids_after hm s now).2 hstep hrest

/-- A rated record as its mean stays fresh: it can be rated again, by stars in the range. -/
structure Rated (s : Service) (id : Uuid) (m : Memory) : Prop where
  fresh : m.MeanFreshAt id
  accepts : ∀ (now : String) (rating : Rating), 1 ≤ rating.star ∧ rating.star ≤ 5 →
    (Call.rate id rating).succeeds s now m = true
  refuses : ∀ (now : String) (rating : Rating), ¬ (1 ≤ rating.star ∧ rating.star ≤ 5) →
    (((Call.rate id rating).act s now).runOn m).1 =
      .error (.rejected (.invalidValue "star" (.starOutOfRange rating.star)))

/-- Once a rating has succeeded, the mean is fresh at every later point of a session in which only
ratings write to it. -/
theorem rated_run (s : Service) (calls : Session) (now : String) (id : Uuid) (rating : Rating)
    (hrate : (Call.rate id rating).succeeds s now (run s calls {}) = true) (later : Session)
    (hlater : ∀ step ∈ later, step.2.SparesMean) :
    Rated s id (run s (calls ++ (now, .rate id rating) :: later) {}) := by
  have hm := nodup_run s calls
  have hnodup := nodup_run s (calls ++ (now, .rate id rating) :: later)
  have hfresh : (run s (calls ++ (now, .rate id rating) :: later) {}).MeanFreshAt id := by
    rw [run_append, run]
    exact meanFreshAt_run s (Call.ids_after hm _ s now).2 (Call.meanFreshAt_of_rate hm hrate) hlater
  refine ⟨hfresh, fun now again hstar => ?_, fun now again hstar => ?_⟩
  · have hcheck := Rating.check_eq_ok_iff.2 hstar
    obtain ⟨w, hanswer, -⟩ := Call.rate_of_meanFreshAt hnodup hfresh hcheck s now
    rw [Call.succeeds, hanswer]
    rfl
  · have hcheck : again.check = .error (.invalidValue "star" (.starOutOfRange again.star)) :=
      if_neg hstar
    rw [Call.rate_of_check_error hcheck]

/-- A rating that is changed, next to one whose star is a text, with toggles in between. -/
theorem rated_after_toggle :
    let id : Uuid := .uniform 1
    let stored : Json := .array [.object [("postedBy", .string "u"), ("star", .string " 4 ")]]
    let calls : Session := [("noon", .insert ⟨id, [("ratings", stored)]⟩)]
    let first : Rating := { postedBy := .uniform 2, star := 5, comment := some "good" }
    let later : Session :=
      [("one", .toggle {} id (.uniform 2) .a), ("two", .rate id { first with star := 3 }),
        ("three", .rate id { first with star := 6 })]
    (Call.rate id first).succeeds {} "noon" (run {} calls {}) = true ∧
      (∀ step ∈ later, step.2.SparesMean) ∧
        Rated {} id (run {} (calls ++ ("noon", .rate id first) :: later) {}) := by
  intro id stored calls first later
  have hrate : (Call.rate id first).succeeds {} "noon" (run {} calls {}) = true := by
    decide +kernel
  have hlater : ∀ step ∈ later, step.2.SparesMean := by
    intro step hstep
    simp only [later, List.mem_cons, List.not_mem_nil, or_false] at hstep
    rcases hstep with rfl | rfl | rfl
    · intro side
      cases side <;> decide
    · exact trivial
    · exact trivial
  exact ⟨hrate, hlater, rated_run {} calls "noon" id first hrate later hlater⟩

end Session

end Shelf
