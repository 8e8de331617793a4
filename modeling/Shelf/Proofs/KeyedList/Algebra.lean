import Shelf.Proofs.KeyedList.Run

/-!
Two writes to a keyed list.

The list may be any: it may hold one key twice, entries that lack a part of the key, and items that
are no entries at all. A write changes the first entry that carries its key, or puts an entry at the
end. Two writes under one key come to one write of both payloads. Writes under different keys do not
see each other: each finds its entry where it was, and their order shows only in the order of the
entries that they append.

    list                 [7, {k: 2}, {k: 2}]
    {k: 1} a: 1          [7, {k: 2}, {k: 2}, {k: 1, a: 1}]
    then {k: 2} b: 1     [7, {k: 2, b: 1}, {k: 2}, {k: 1, a: 1}]
-/

namespace Shelf

/-! ### Keys of a list -/

namespace KeyedList

variable {l : KeyedList} {write other : Fields × Fields}

/-- A payload takes no entry away from a key and gives it none. -/
theorem Fits.carries_override (h : l.Fits write) (h' : l.Fits other) (fs : Fields) :
    (fs.override write.2).carries other.1 = fs.carries other.1 :=
  Fields.carries_congr fun name hname =>
    Fields.get?_override_of_not_mem h.payload (fun hin => h.apart h' name hin hname) fs

theorem Fits.carries_eq_sameKey (h : l.Fits write) (h' : l.Fits other) :
    write.1.carries other.1 = sameKey write.1 other.1 :=
  Fields.carries_eq_beq h.key.nodup_names (h.names_eq h')

/-- An entry that carries two keys of a list shows that they are the same. -/
theorem Fits.sameKey_of_carries (h : l.Fits write) (h' : l.Fits other) {fs : Fields}
    (hfs : fs.carries write.1 = true) (hfs' : fs.carries other.1 = true) :
    sameKey write.1 other.1 = true := by
  rw [← h.carries_eq_sameKey h', Fields.carries_iff]
  intro m hm
  obtain ⟨v, hv, hequal⟩ := Fields.carries_iff.1 hfs' m hm
  have hname : m.1 ∈ write.1.names := h.names_eq h' ▸ List.mem_map_of_mem hm
  obtain ⟨n, hn, hnm⟩ := List.mem_map.1 hname
  obtain ⟨u, hu, hequal'⟩ := Fields.carries_iff.1 hfs n hn
  rw [hnm, hv] at hu
  cases hu
  rw [← hnm]
  exact ⟨n.2, Fields.get?_of_mem h.key hn,
    Json.beq_trans n.2 v m.2 ((Json.beq_comm n.2 v).trans hequal') hequal⟩

/-- Two payloads that fit, as one. -/
theorem Fits.override {key first second : Fields} (h : l.Fits (key, first))
    (h' : l.Fits (key, second)) : l.Fits (key, first.override second) := by
  obtain ⟨hpresent, hknown, hfirst⟩ := check_eq_ok_iff.1 h.accepted
  obtain ⟨-, -, hsecond⟩ := check_eq_ok_iff.1 h'.accepted
  refine ⟨check_eq_ok_iff.2 ⟨hpresent, hknown, fun m hm => ?_⟩, h.key, h.finite,
    h.payload.override second⟩
  rcases Fields.mem_override hm with hm | hm
  · exact hfirst m hm
  · obtain ⟨n, hn, hnm⟩ := List.mem_map.1 hm
    exact hnm ▸ hsecond n hn

end KeyedList

/-! ### Lists -/

theorem exists_object_of_carries {x : Json} {key : Fields} (h : x.carries key = true) :
    ∃ fs : Fields, x = .object fs ∧ fs.carries key = true := by
  cases x with
  | object fs => exact ⟨fs, rfl, h⟩
  | _ => cases h

theorem upserted_cons_of_carries {fs key : Fields} (h : fs.carries key = true) (payload : Fields)
    (xs : List Json) :
    upserted key payload (.object fs :: xs) = .object (fs.override payload) :: xs := by
  rw [upserted, if_pos h]

/-- The place of a key says which entry is written over. -/
theorem upserted_of_findIdx? {key : Fields} (payload : Fields) : ∀ {xs : List Json} {i : Nat},
    xs.findIdx? (·.carries key) = some i → ∃ fs : Fields, xs[i]? = some (.object fs) ∧
      upserted key payload xs = xs.set i (.object (fs.override payload))
  | x :: xs, i, h => by
    rw [List.findIdx?_cons] at h
    cases hx : x.carries key with
    | true =>
      obtain ⟨fs, rfl, hfs⟩ := exists_object_of_carries hx
      rw [hx, if_pos rfl] at h
      cases h
      exact ⟨fs, rfl, upserted_cons_of_carries hfs payload xs⟩
    | false =>
      rw [hx, if_neg Bool.false_ne_true, Option.map_eq_some_iff] at h
      obtain ⟨j, hj, rfl⟩ := h
      obtain ⟨fs, hfs, hset⟩ := upserted_of_findIdx? payload hj
      exact ⟨fs, hfs, by rw [upserted_cons_of_not_carries hx, hset, List.set_cons_succ]⟩

section writes

variable {l : KeyedList} {write other : Fields × Fields}

/-- Two payloads under one key. -/
theorem upserted_upserted_self (h : l.Fits write) (payload : Fields) : ∀ xs : List Json,
    upserted write.1 payload (upserted write.1 write.2 xs) =
      upserted write.1 (write.2.override payload) xs
  | []      => by
    have hself : (write.1.override write.2).carries write.1 = true := by
      rw [h.carries_override h, h.carries_eq_sameKey h, sameKey_self h.finite]
    rw [upserted, upserted_cons_of_carries hself, Fields.override_override h.payload, upserted]
  | x :: xs => by
    cases hx : x.carries write.1 with
    | true =>
      obtain ⟨fs, rfl, hfs⟩ := exists_object_of_carries hx
      have hafter : (fs.override write.2).carries write.1 = true := by
        rw [h.carries_override h, hfs]
      rw [upserted_cons_of_carries hfs, upserted_cons_of_carries hafter,
        upserted_cons_of_carries hfs, Fields.override_override h.payload]
    | false =>
      rw [upserted_cons_of_not_carries hx, upserted_cons_of_not_carries hx,
        upserted_cons_of_not_carries hx, upserted_upserted_self h payload xs]

/-- A write does not move the entry of another key. -/
theorem findIdx?_upserted (h : l.Fits write) (h' : l.Fits other)
    (hne : sameKey write.1 other.1 = false) : ∀ xs : List Json,
    (upserted write.1 write.2 xs).findIdx? (·.carries other.1) =
      xs.findIdx? (·.carries other.1)
  | []      => by
    have hnew : (Json.object (write.1.override write.2)).carries other.1 = false :=
      (h.carries_override h' write.1).trans ((h.carries_eq_sameKey h').trans hne)
    rw [upserted, List.findIdx?_cons, hnew]
    rfl
  | x :: xs => by
    cases hx : x.carries write.1 with
    | true =>
      obtain ⟨fs, rfl, hfs⟩ := exists_object_of_carries hx
      have hsame : (Json.object (fs.override write.2)).carries other.1 =
        (Json.object fs).carries other.1 := h.carries_override h' fs
      rw [upserted_cons_of_carries hfs, List.findIdx?_cons, List.findIdx?_cons, hsame]
    | false =>
      rw [upserted_cons_of_not_carries hx, List.findIdx?_cons, List.findIdx?_cons,
        findIdx?_upserted h h' hne xs]

/-- A write to an entry and a write to another key may change places. -/
theorem upserted_comm_of_any (h : l.Fits write) (h' : l.Fits other)
    (hne : sameKey write.1 other.1 = false) : ∀ {xs : List Json},
    xs.any (·.carries write.1) = true →
      upserted other.1 other.2 (upserted write.1 write.2 xs) =
        upserted write.1 write.2 (upserted other.1 other.2 xs)
  | x :: xs, hany => by
    cases hx : x.carries write.1 with
    | true =>
      obtain ⟨fs, rfl, hfs⟩ := exists_object_of_carries hx
      have hother : fs.carries other.1 = false := by
        rw [← Bool.not_eq_true]
        intro hfs'
        rw [h.sameKey_of_carries h' hfs hfs'] at hne
        cases hne
      have hafter : (Json.object (fs.override write.2)).carries other.1 = false :=
        (h.carries_override h' fs).trans hother
      rw [upserted_cons_of_carries hfs, upserted_cons_of_not_carries hafter,
        upserted_cons_of_not_carries (show (Json.object fs).carries other.1 = false from hother),
        upserted_cons_of_carries hfs]
    | false =>
      rw [List.any_cons, hx, Bool.false_or] at hany
      rw [upserted_cons_of_not_carries hx]
      cases hy : x.carries other.1 with
      | true =>
        obtain ⟨fs, rfl, hfs⟩ := exists_object_of_carries hy
        have hafter : (Json.object (fs.override other.2)).carries write.1 = false :=
          (h'.carries_override h fs).trans hx
        rw [upserted_cons_of_carries hfs, upserted_cons_of_carries hfs,
          upserted_cons_of_not_carries hafter]
      | false =>
        rw [upserted_cons_of_not_carries hy, upserted_cons_of_not_carries hy,
          upserted_cons_of_not_carries hx, upserted_comm_of_any h h' hne hany]

/-- Two entries that are appended, in the order of the writes. -/
theorem upserted_of_not_any_of_not_any (h : l.Fits write) (h' : l.Fits other)
    (hne : sameKey write.1 other.1 = false) {xs : List Json}
    (hany : xs.any (·.carries write.1) = false) (hany' : xs.any (·.carries other.1) = false) :
    upserted other.1 other.2 (upserted write.1 write.2 xs) =
      xs ++ [.object (write.1.override write.2), .object (other.1.override other.2)] := by
  have hnone : (upserted write.1 write.2 xs).any (·.carries other.1) = false := by
    rw [← List.findIdx?_isSome, findIdx?_upserted h h' hne, List.findIdx?_isSome, hany']
  rw [upserted_of_not_any hnone, upserted_of_not_any hany, List.append_assoc]
  rfl

end writes

/-! ### Records -/

namespace KeyedList

variable {l : KeyedList} {r : Record} {write other : Fields × Fields} {xs : List Json}

/-- A plan is made for the record with this identifier, whatever else it has. -/
theorem planAt_set (l : KeyedList) (r : Record) (field : String) (v : Json) (key payload : Fields)
    (place : Option Nat) :
    l.planAt (r.set field v) key payload place = l.planAt r key payload place := by
  cases place <;> rfl

/-- A write to a record whose list has been written. -/
theorem apply_set {key payload : Fields} (h : l.Fits (key, payload))
    (hpatchable : isPatchable l.field = true) (r : Record) (xs : List Json) :
    l.apply (r.set l.field (.array xs)) key payload =
      .ok (r.set l.field (.array (upserted key payload xs))) := by
  rw [apply_of_check h.accepted hpatchable (Record.list_set_self r l.field xs),
    Record.set_set_self]

/-- Two writes under one key come to one, and a write done again changes nothing. -/
structure Overwrites (l : KeyedList) (r : Record) (key first second : Fields) : Prop where
  once : ∃ v w, l.apply r key first = .ok v ∧ l.apply v key second = .ok w ∧
    l.apply r key (first.override second) = .ok w
  again : ∃ v, l.apply r key first = .ok v ∧ l.apply v key first = .ok v

theorem overwrites_of_fits (hpatchable : isPatchable l.field = true)
    (hxs : r.list l.field = .ok xs) {key first second : Fields} (h : l.Fits (key, first))
    (h' : l.Fits (key, second)) : l.Overwrites r key first second := by
  have hfirst := apply_of_check h.accepted hpatchable hxs
  have hthen : ∀ {payload : Fields}, l.Fits (key, payload) →
      l.apply (r.set l.field (.array (upserted key first xs))) key payload =
        .ok (r.set l.field (.array (upserted key (first.override payload) xs))) := by
    intro payload hpayload
    rw [apply_set hpayload hpatchable, upserted_upserted_self h payload xs]
  refine ⟨⟨_, _, hfirst, hthen h', apply_of_check (h.override h').accepted hpatchable hxs⟩,
    _, hfirst, ?_⟩
  have hagain := hthen h
  rwa [Fields.override_self h.payload] at hagain

/-- Two writes that are planned on one record. The plan of the second is what it would be after the
first, and it changes the entry it was made for. In the other order the writes leave the same
record, unless both append. -/
structure Independent (l : KeyedList) (r : Record) (write other : Fields × Fields)
    (p q : UpsertPlan) (w w' : Record) : Prop where
  inTurn : ∃ v, l.apply r write.1 write.2 = .ok v ∧ l.plan v other.1 other.2 = .ok q ∧
    q.patch.applied q.matcher v = .ok w ∧ l.apply v other.1 other.2 = .ok w
  swapped : ∃ v, l.apply r other.1 other.2 = .ok v ∧ l.apply v write.1 write.2 = .ok w'
  same : p.outcome ≠ .appended ∨ q.outcome ≠ .appended → w' = w
  appended : p.outcome = .appended → q.outcome = .appended → ∃ xs, r.list l.field = .ok xs ∧
    w = r.set l.field (.array (xs ++
      [.object (write.1.override write.2), .object (other.1.override other.2)])) ∧
    w' = r.set l.field (.array (xs ++
      [.object (other.1.override other.2), .object (write.1.override write.2)]))

theorem outcome_planAt_findIdx? (l : KeyedList) (r : Record) (key payload : Fields)
    (xs : List Json) :
    (l.planAt r key payload (xs.findIdx? (·.carries key))).outcome = .appended ↔
      xs.any (·.carries key) = false := by
  rw [← List.findIdx?_isSome]
  cases xs.findIdx? (·.carries key) with
  | none => exact iff_of_true rfl rfl
  | some i => exact iff_of_false nofun nofun

theorem independent_of_fits (hpatchable : isPatchable l.field = true)
    (hxs : r.list l.field = .ok xs) (h : l.Fits write) (h' : l.Fits other)
    (hne : sameKey write.1 other.1 = false) :
    ∃ p q w w', l.plan r write.1 write.2 = .ok p ∧ l.plan r other.1 other.2 = .ok q ∧
      l.Independent r write other p q w w' := by
  have hne' : sameKey other.1 write.1 = false := (sameKey_comm _ _).trans hne
  have hlist := Record.list_set_self r l.field (upserted write.1 write.2 xs)
  have hplace := findIdx?_upserted h h' hne xs
  have hplan : l.plan (r.set l.field (.array (upserted write.1 write.2 xs))) other.1 other.2 =
      .ok (l.planAt r other.1 other.2 (xs.findIdx? (·.carries other.1))) := by
    rw [plan_of_check h'.accepted hlist, hplace, planAt_set]
  have hpatch := @applied_planAt l _ other.1 hpatchable _ hlist other.2
  rw [hplace, planAt_set, Record.set_set_self] at hpatch
  refine ⟨_, _, _, _, plan_of_check h.accepted hxs, plan_of_check h'.accepted hxs,
    ⟨_, apply_of_check h.accepted hpatchable hxs, hplan, hpatch, apply_set h' hpatchable r _⟩,
    ⟨_, apply_of_check h'.accepted hpatchable hxs, apply_set h hpatchable r _⟩, fun hout => ?_,
    fun hp hq => ?_⟩
  · rw [Ne, Ne, outcome_planAt_findIdx?, outcome_planAt_findIdx?, Bool.not_eq_false,
      Bool.not_eq_false] at hout
    rcases hout with hany | hany
    · rw [upserted_comm_of_any h h' hne hany]
    · rw [upserted_comm_of_any h' h hne' hany]
  · rw [outcome_planAt_findIdx?] at hp hq
    exact ⟨xs, hxs, by rw [upserted_of_not_any_of_not_any h h' hne hp hq],
      by rw [upserted_of_not_any_of_not_any h' h hne' hq hp]⟩

/-- A write changes one entry of a list or adds one, and nothing else. -/
structure ChangesOne (l : KeyedList) (r : Record) (xs : List Json) (key payload : Fields)
    (q : UpsertPlan) (w : Record) : Prop where
  updated : ∀ i, q.outcome = .updated i → ∃ fs entry : Fields, xs[i]? = some (.object fs) ∧
    w.list l.field = .ok (xs.set i (.object entry)) ∧
      ∀ name, entry.get? name = (payload.get? name).or (fs.get? name)
  appended : q.outcome = .appended → (∀ x ∈ xs, x.carries key = false) ∧ ∃ entry : Fields,
    w.list l.field = .ok (xs ++ [.object entry]) ∧
      ∀ name, entry.get? name = (payload.get? name).or (key.get? name)
  agrees : r.Agrees [l.field] w

theorem changesOne_of_fits (hpatchable : isPatchable l.field = true)
    (hxs : r.list l.field = .ok xs) {key payload : Fields} (h : l.Fits (key, payload)) :
    ∃ q w, l.plan r key payload = .ok q ∧ l.apply r key payload = .ok w ∧
      l.ChangesOne r xs key payload q w := by
  refine ⟨_, _, plan_of_check h.accepted hxs, apply_of_check h.accepted hpatchable hxs,
    fun i hi => ?_, fun hout => ?_, .set r l.field _⟩
  · have hplace : xs.findIdx? (·.carries key) = some i := by
      cases hfound : xs.findIdx? (·.carries key) with
      | none =>
        rw [hfound] at hi
        cases hi
      | some j =>
        rw [hfound] at hi
        cases hi
        rfl
    obtain ⟨fs, hfs, hset⟩ := upserted_of_findIdx? payload hplace
    refine ⟨fs, _, hfs, ?_, Fields.get?_override h.payload fs⟩
    rw [Record.list_set_self, hset]
  · rw [outcome_planAt_findIdx?] at hout
    refine ⟨fun x hx => by simpa using List.any_eq_false.1 hout x hx, _, ?_,
      Fields.get?_override h.payload key⟩
    rw [Record.list_set_self, upserted_of_not_any hout]

/-- Writes to any list: under one key the second goes over the first, under different keys they do
not see each other, and each of them touches one entry. -/
theorem upserts_of_readsAsList (l : KeyedList) (hid : l.field ≠ idField)
    (hversion : l.field ≠ versionField) (r : Record) (xs : List Json)
    (hlist : Record.ReadsAsList (r.fields.get? l.field) xs) :
    (∀ key first second, l.Fits (key, first) → l.Fits (key, second) →
      l.Overwrites r key first second) ∧
    (∀ write other, l.Fits write → l.Fits other → sameKey write.1 other.1 = false →
      ∃ p q w w', l.plan r write.1 write.2 = .ok p ∧ l.plan r other.1 other.2 = .ok q ∧
        l.Independent r write other p q w w') ∧
    ∀ key payload, l.Fits (key, payload) → ∃ q w, l.plan r key payload = .ok q ∧
      l.apply r key payload = .ok w ∧ l.ChangesOne r xs key payload q w := by
  have hpatchable := isPatchable_of_ne hid hversion
  have hxs : r.list l.field = .ok xs := Record.list_eq_ok_iff.2 hlist
  exact ⟨fun _ _ _ => overwrites_of_fits hpatchable hxs,
    fun _ _ => independent_of_fits hpatchable hxs, fun _ _ => changesOne_of_fits hpatchable hxs⟩

/-- A list under a dotted name, with one key twice, half a key, and an item that is no entry. -/
theorem upserts_duplicate_entries :
    let l : KeyedList := ⟨"a.lines", ["c", "k"]⟩
    let xs : List Json := [.int 7, .object [("k", .int 2)],
      .object [("c", .string "red"), ("k", .int 2), ("note", .null)],
      .object [("c", .string "red"), ("k", .int 2)]]
    let r : Record := ⟨.uniform 1, [("a.lines", .array xs)]⟩
    let write : Fields × Fields := ([("c", .string "red"), ("k", .int 2)], [("n", .int 3)])
    let other : Fields × Fields := ([("c", .string "red"), ("k", .number (.real 2.0))], [])
    (l.field ≠ idField ∧ l.field ≠ versionField) ∧
      Record.ReadsAsList (r.fields.get? l.field) xs ∧ (l.Fits write ∧ l.Fits other) ∧
        sameKey write.1 other.1 = false ∧
          l.Overwrites r write.1 write.2 write.2 ∧
            (∃ p q w w', l.plan r write.1 write.2 = .ok p ∧ l.plan r other.1 other.2 = .ok q ∧
              l.Independent r write other p q w w') ∧
              ∃ q w, l.plan r write.1 write.2 = .ok q ∧ l.apply r write.1 write.2 = .ok w ∧
                l.ChangesOne r xs write.1 write.2 q w := by
  intro l xs r write other
  have hid : l.field ≠ idField := by decide
  have hversion : l.field ≠ versionField := by decide
  have hlist : Record.ReadsAsList (r.fields.get? l.field) xs := .array xs
  have hwrite : l.Fits write := ⟨rfl, by decide, by decide, by decide⟩
  have hother : l.Fits other := ⟨rfl, by decide, by decide, by decide⟩
  have hne : sameKey write.1 other.1 = false := rfl
  obtain ⟨hover, hapart, hone⟩ := upserts_of_readsAsList l hid hversion r xs hlist
  exact ⟨⟨hid, hversion⟩, hlist, ⟨hwrite, hother⟩, hne, hover _ _ _ hwrite hwrite,
    hapart write other hwrite hother hne, hone _ _ hwrite⟩

end KeyedList

end Shelf
