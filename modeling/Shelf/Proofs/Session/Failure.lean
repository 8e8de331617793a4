import Shelf.Proofs.Service.Detached
import Shelf.Proofs.Session

/-!
What a failed operation leaves.

A failed operation leaves the records as they were, with one exception. A rating is entered first
and the mean is stored after it; when the mean cannot be taken the entry stays, and the records are
those that the entry alone would have left. This is so when an entry of the new list has a value
that stands for no number, which a stored list can bring along.

    ratings    [{postedBy: u, star: ?}]   ──▶   [{postedBy: u, star: ?}, {postedBy: v, star: 5}]
    mean       4.5                              4.5
    version    7                                8
-/

namespace Shelf

open StoredMean (StandsForNumber)

/-! ### Ratings -/

theorem Rating.check_eq_ok_iff {rating : Rating} :
    rating.check = .ok () ↔ 1 ≤ rating.star ∧ rating.star ≤ 5 := by
  rw [check]
  split
  · next h => exact iff_of_true rfl h
  · next h => exact iff_of_false nofun h

/-- Key and payload of a rating fit the list of ratings. -/
theorem KeyedList.check_ratings (rating : Rating) :
    ratings.check rating.key rating.payload = .ok () := by
  cases h : rating.comment with
  | none =>
    rw [Rating.payload, h]
    rfl
  | some text =>
    rw [Rating.payload, h]
    rfl

/-- The record with a rating entered in the list of its ratings. -/
def Rating.entered (rating : Rating) (r : Record) (xs : List Json) : Record :=
  r.set "ratings" (.array (upserted rating.key rating.payload xs))

theorem Rating.list_entered (rating : Rating) (r : Record) (xs : List Json) (version : Nat)
    (now : String) : ((rating.entered r xs).rewritten version now).list "ratings" =
      .ok (upserted rating.key rating.payload xs) := by
  rw [Record.list_rewritten (by decide), entered, Record.list_set_self]

/-! ### A rating that stays half done -/

namespace Service

variable {m : Memory} {id : Uuid} {now : String} {r : Record} {rating : Rating} {s : Service}

/-- A rating is entered, and then its mean is not stored. -/
def HalfRated (s : Service) (now : String) (id : Uuid) (rating : Rating) (m : Memory) : Prop :=
  ∃ rated t e, (s.enterRating now id rating).runOn m = (.ok rated, t) ∧
    ((s.storeMean now id rated).runOn t).1 = .error e

theorem runOn_enterRating_of_list (hm : m.ids.Nodup) (hfind : m.findById id = some r)
    (hcheck : rating.check = .ok ()) {xs : List Json} (hxs : r.list "ratings" = .ok xs)
    (s : Service) (now : String) :
    ∃ t, (s.enterRating now id rating).runOn m =
        (.ok ((rating.entered r xs).rewritten (r.version + 1) now), t) ∧
      t.findById id = some ((rating.entered r xs).rewritten (r.version + 1) now) := by
  obtain ⟨hanswer, hstored⟩ := yields_enterRating hm hfind hcheck s now
  rw [KeyedList.apply_of_check (KeyedList.check_ratings rating) (by decide) hxs] at hanswer hstored
  exact ⟨_, Prod.ext hanswer rfl, hstored _ rfl⟩

/-- A rating that is entered fits, and its record is stored and has a list of ratings. -/
theorem enterRating_eq_ok (hm : m.ids.Nodup) {rated : Record} {t : Memory}
    (h : (s.enterRating now id rating).runOn m = (.ok rated, t)) :
    rating.check = .ok () ∧ ∃ r, m.findById id = some r ∧ ∃ xs, r.list "ratings" = .ok xs ∧
      rated = (rating.entered r xs).rewritten (r.version + 1) now ∧
      t.findById id = some rated := by
  cases hcheck : rating.check with
  | error e =>
    rw [enterRating, hcheck] at h
    cases h
  | ok u =>
    cases hfind : m.findById id with
    | none =>
      rw [runOn_enterRating hcheck, upsertEntry, Action.runOn_bind_error (runOn_get_none hfind s)]
        at h
      cases h
    | some r =>
      obtain ⟨hanswer, hstored⟩ := yields_enterRating hm hfind hcheck s now
      rw [h] at hanswer hstored
      cases happly : KeyedList.ratings.apply r rating.key rating.payload with
      | error e =>
        rw [happly] at hanswer
        cases hanswer
      | ok d =>
        obtain ⟨-, -, xs, hxs, rfl⟩ := KeyedList.apply_eq_ok_iff.1 happly
        rw [happly] at hanswer hstored
        cases hanswer
        exact ⟨rfl, r, rfl, xs, hxs, rfl, hstored _ rfl⟩

/-- The mean of a stored record is stored unless some value stands for no number. -/
theorem storeMean_fails_iff (hfind : m.findById id = some r) {xs : List Json}
    (hxs : r.list "ratings" = .ok xs) (s : Service) (now : String) :
    (∃ e, ((s.storeMean now id r).runOn m).1 = .error e) ↔
      ∃ entry ∈ xs, ¬ StandsForNumber (entry.member? "star") := by
  have hcompute := StoredMean.exists_compute_ok_iff (m := .ratings) hxs
  rw [(yields_storeMean hfind s now).answered, StoredMean.recompute_eq (by decide)]
  have hsame : (∃ e, ofStored (((StoredMean.ratings.compute r).map fun x =>
        r.set StoredMean.ratings.target (.real x)).map (·.rewritten (r.version + 1) now)) =
      .error e) ↔ ¬ ∃ x, StoredMean.ratings.compute r = .ok x := by
    cases StoredMean.ratings.compute r with
    | error e => exact iff_of_true ⟨_, rfl⟩ nofun
    | ok x => exact iff_of_false nofun (not_not_intro ⟨x, rfl⟩)
  rw [hsame, hcompute]
  push Not
  rfl

theorem halfRated_iff (hm : m.ids.Nodup) : s.HalfRated now id rating m ↔
    rating.check = .ok () ∧ ∃ r, m.findById id = some r ∧ ∃ xs, r.list "ratings" = .ok xs ∧
      ∃ entry ∈ upserted rating.key rating.payload xs,
        ¬ StandsForNumber (entry.member? "star") := by
  constructor
  · rintro ⟨rated, t, e, hentry, hmean⟩
    obtain ⟨hcheck, r, hfind, xs, hxs, rfl, hrated⟩ := enterRating_eq_ok hm hentry
    have hvalue := (storeMean_fails_iff hrated (Rating.list_entered ..) s now).1 ⟨e, hmean⟩
    exact ⟨hcheck, r, hfind, xs, hxs, hvalue⟩
  · rintro ⟨hcheck, r, hfind, xs, hxs, hvalue⟩
    obtain ⟨t, hentry, hrated⟩ := runOn_enterRating_of_list hm hfind hcheck hxs s now
    obtain ⟨e, hmean⟩ := (storeMean_fails_iff hrated (Rating.list_entered ..) s now).2 hvalue
    exact ⟨_, t, e, hentry, hmean⟩

end Service

/-! ### One call -/

namespace Call

variable {m : Memory} {s : Service} {now : String}

/-- A rating that stays half done; no other call does. -/
def HalfDone (s : Service) (now : String) (m : Memory) : Call → Prop
  | .rate id rating => s.HalfRated now id rating m
  | _               => False

/-- A rating of which the entry alone is stored. -/
structure EntryOnly (s : Service) (now : String) (m : Memory) (id : Uuid) (rating : Rating) :
    Prop where
  answer : ∃ cause,
    (((Call.rate id rating).act s now).runOn m).1 = .error (.storage (.integrity cause))
  left : (Call.rate id rating).after s now m =
    (Call.upsertEntry id .ratings rating.key rating.payload).after s now m
  record : ∃ r w,
    m.findById id = some r ∧ ((Call.rate id rating).after s now m).findById id = some w ∧
      w.fields.get? "totalRatings" = r.fields.get? "totalRatings" ∧ w.version = r.version + 1

/-- A rating that stays half done leaves its entry. -/
theorem entryOnly_of_halfDone (hm : m.ids.Nodup) {id : Uuid} {rating : Rating}
    (h : (Call.rate id rating).HalfDone s now m) : EntryOnly s now m id rating := by
  obtain ⟨rated, t, e, hentry, hmean⟩ := h
  obtain ⟨hcheck, r, hfind, xs, -, rfl, hrated⟩ := Service.enterRating_eq_ok hm hentry
  have ht : t.ids.Nodup := by
    have hwrites := (Service.commits_enterRating hm s now id rating).writes
    rw [hentry] at hwrites
    exact hwrites.ids_eq ▸ hm
  have hrun := (s.runOn_rate now id rating m).trans (Action.runOn_bind_ok hentry)
  have hrate : (Call.rate id rating).after s now m = t :=
    (congrArg Prod.snd hrun).trans ((Service.commits_storeMean ht s now id _).eq_of_error hmean)
  have hupsert : (Call.upsertEntry id .ratings rating.key rating.payload).after s now m = t :=
    congrArg Prod.snd ((Service.runOn_enterRating hcheck s now id m).symm.trans hentry)
  refine ⟨?_, hrate.trans hupsert.symm, r, _, hfind, hrate ▸ hrated, ?_,
    Record.version_rewritten ..⟩
  · have hanswer := (Service.yields_storeMean hrated s now).answered
    obtain ⟨cause, rfl⟩ := eq_integrity_of_ofStored (hanswer.symm.trans hmean)
    exact ⟨cause, (congrArg Prod.fst hrun).trans hmean⟩
  · rw [Record.get?_rewritten (by decide)]
    exact Fields.get?_insert_of_ne (by decide) _ r.fields

/-- A call that fails, and is not left half done, changes nothing. -/
theorem after_eq_of_failed (hm : m.ids.Nodup) {c : Call} {e : Error}
    (hfail : ((c.act s now).runOn m).1 = .error e) (hhalf : ¬ c.HalfDone s now m) :
    c.after s now m = m := by
  cases c with
  | insert r =>
    have hrun : ((Call.insert r).act s now).runOn m = m.insert now r := rfl
    rw [hrun] at hfail
    rw [after, hrun]
    rcases m.insert_cases now r with ⟨-, h⟩ | ⟨-, e, h⟩
    · rw [h] at hfail
      cases hfail
    · rw [h]
  | toggle pair id actor side =>
    obtain ⟨_, h⟩ := Service.commits_toggle hm { s with toggles := pair } now id actor side
    exact h.eq_of_error hfail
  | upsertEntry id l key payload =>
    exact (Service.commits_upsertEntry hm s now id l key payload).eq_of_error hfail
  | updateCart id line => exact (Service.commits_updateCart hm s now id line).eq_of_error hfail
  | rate id rating =>
    have hentry := Service.commits_enterRating hm s now id rating
    have hrun : ((Call.rate id rating).act s now).runOn m =
        (s.enterRating now id rating >>= s.storeMean now id).runOn m := s.runOn_rate now id rating m
    rw [hrun] at hfail
    rw [after, hrun]
    cases hout : (s.enterRating now id rating).runOn m with
    | mk answer t =>
      rw [hout] at hentry
      cases answer with
      | error e =>
        rw [Action.runOn_bind_error hout]
        exact hentry
      | ok rated =>
        rw [Action.runOn_bind_ok hout] at hfail
        exact absurd ⟨rated, t, e, hout, hfail⟩ hhalf
  | list p => exact s.list_leaves p m
  | get id => exact s.get_leaves id m
  | membership pair id actor =>
    exact Service.membership_leaves { s with toggles := pair } id actor m

end Call

/-! ### Sessions -/

/-- What failed calls leave, and when a rating stays half done. -/
structure Memory.FailsCleanly (s : Service) (m : Memory) : Prop where
  unchanged : ∀ (now : String) (c : Call) (e : Error), ((c.act s now).runOn m).1 = .error e →
    ¬ c.HalfDone s now m → c.after s now m = m
  halfDone : ∀ (now : String) (id : Uuid) (rating : Rating),
    (Call.rate id rating).HalfDone s now m → Call.EntryOnly s now m id rating
  halfDone_iff : ∀ (now : String) (id : Uuid) (rating : Rating),
    (Call.rate id rating).HalfDone s now m ↔
      (1 ≤ rating.star ∧ rating.star ≤ 5) ∧ ∃ r, m.findById id = some r ∧
        ∃ xs, Record.ReadsAsList (r.fields.get? "ratings") xs ∧
          ∃ entry ∈ upserted rating.key rating.payload xs,
            ¬ StandsForNumber (entry.member? "star")

namespace Session

/-- In a session, whatever fails leaves no trace, but for the entry of a rating without a mean. -/
theorem failsCleanly_run (s : Service) (calls : Session) : (run s calls {}).FailsCleanly s where
  unchanged _ _ _ hfail hhalf := Call.after_eq_of_failed (nodup_run s calls) hfail hhalf
  halfDone _ _ _ h := Call.entryOnly_of_halfDone (nodup_run s calls) h
  halfDone_iff now id rating := by
    rw [← Rating.check_eq_ok_iff]
    simp only [← Record.list_eq_ok_iff]
    exact Service.halfRated_iff (nodup_run s calls)

/-- A stored value that is no number leaves the next rating half done. -/
example :
    let ratings : Json := .array [.object [("postedBy", .string "u"), ("star", .bool true)]]
    let calls : Session := [("noon", .insert ⟨.uniform 1, [("ratings", ratings)]⟩)]
    (Call.rate (.uniform 1) { postedBy := .uniform 2, star := 5 }).HalfDone {} "noon"
      (run {} calls {}) :=
  ⟨_, _, _, rfl, rfl⟩

end Session

end Shelf
