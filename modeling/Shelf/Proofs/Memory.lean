import Mathlib.Data.List.Forall2
import Mathlib.Data.List.Nodup
import Shelf.Memory
import Shelf.Proofs.Outcome
import Shelf.Proofs.Patch
import Shelf.Proofs.Uuid

/-!
What a write does to the stored records.

A write addressed to an identifier changes at most the record of that identifier, and in it the
fields that the patch targets, the version and the time of the write. A write that fails, or finds
nothing, leaves everything as it was. Writes in sequence add up.

    records     r₀   r₁   r₂            r₀   w    r₂       w  = r₁ but for targets, __v, updatedAt
                     ▲ id       ──▶          ▲ id
-/

namespace Shelf

/-! ### One record -/

/-- The fields that every write to a record sets. -/
def stampedFields : List String := [versionField, updatedField]

/-- A record after so many writes to certain fields. -/
structure Record.Evolves (fields : List String) (n : Nat) (r w : Record) : Prop where
  agrees : r.Agrees (fields ++ stampedFields) w
  version : ∀ v : Nat, r.fields.get? versionField = some (.int v) →
    w.fields.get? versionField = some (.int ((v + n : Nat) : Int))

namespace Record

namespace Evolves

variable {fields more : List String} {n k : Nat} {r w v : Record}

theorem refl (fields : List String) (r : Record) : r.Evolves fields 0 r :=
  ⟨.refl _ r, fun _ h => h⟩

theorem mono (h : r.Evolves fields n w) (hsub : fields ⊆ more) : r.Evolves more n w := by
  refine ⟨h.agrees.mono (List.append_subset.2 ⟨?_, List.subset_append_right _ _⟩), h.version⟩
  exact List.Subset.trans hsub (List.subset_append_left _ _)

theorem trans (h : r.Evolves fields n w) (h' : w.Evolves fields k v) :
    r.Evolves fields (n + k) v := by
  refine ⟨h.agrees.trans h'.agrees, fun c hc => ?_⟩
  rw [← Nat.add_assoc]
  exact h'.version (c + n) (h.version c hc)

end Evolves

theorem version_eq {r : Record} {v : Nat} (h : r.fields.get? versionField = some (.int v)) :
    r.version = v := by
  rw [version, h]
  rfl

theorem agrees_stamped (r : Record) (now : String) : r.Agrees stampedFields (r.stamped now) := by
  have hversion := Agrees.set r versionField (.int (r.version + 1))
  have htime := Agrees.set (r.set versionField (.int (r.version + 1))) updatedField (.string now)
  refine (hversion.mono ?_).trans (htime.mono ?_) <;> simp [stampedFields]

theorem get?_version_stamped (r : Record) (now : String) :
    (r.stamped now).fields.get? versionField = some (.int (r.version + 1)) := by
  have htime : versionField ≠ updatedField := by decide
  exact (Fields.get?_insert_of_ne htime _ _).trans (Fields.get?_insert_self ..)

/-- A patch that succeeds is one write to its targets. -/
theorem evolves_of_commit {r w : Record} {now : String} {p : Patch} {matched : Option Filter}
    (h : r.commit now p matched = .ok w) : r.Evolves p.targets 1 w := by
  obtain ⟨t, ht, h⟩ := bind_eq_ok.1 h
  cases h
  obtain ⟨hagrees, hversion⟩ := Patch.agrees_of_applied ht
  refine ⟨?_, fun v hv => ?_⟩
  · exact (hagrees.mono (List.subset_append_left _ _)).trans
      ((agrees_stamped t now).mono (List.subset_append_right _ _))
  · have ht : t.fields.get? versionField = some (.int v) := (hagrees.frame _ hversion).trans hv
    rw [get?_version_stamped, version_eq ht]
    rfl

/-- A record starts at version zero. -/
theorem get?_version_fresh (r : Record) (now : String) :
    (r.fresh now).fields.get? versionField = some (.int (0 : Nat)) := by
  have htime : versionField ≠ updatedField := by decide
  have hcreated : versionField ≠ createdField := by decide
  refine (Fields.get?_insert_of_ne htime _ _).trans ?_
  split
  · exact (Fields.get?_insert_of_ne hcreated _ _).trans (Fields.get?_insert_self ..)
  · exact Fields.get?_insert_self ..

theorem fresh_id (r : Record) (now : String) : (r.fresh now).id = r.id := by
  simp only [fresh]
  split <;> rfl

end Record

/-! ### The first record that a test accepts -/

theorem changeFirst_none {test : Record → Bool} {change : Record → Except Corruption Record} :
    ∀ {rs ts : List Record}, changeFirst test change rs = .ok (none, ts) → ts = rs
  | [],      ts, h => by cases h; rfl
  | r :: rs, ts, h => by
    rw [changeFirst] at h
    split at h
    · obtain ⟨w, -, h⟩ := bind_eq_ok.1 h
      cases h
    · obtain ⟨⟨found, us⟩, hus, h⟩ := bind_eq_ok.1 h
      cases h
      rw [changeFirst_none hus]

theorem changeFirst_some {test : Record → Bool} {change : Record → Except Corruption Record}
    {w : Record} : ∀ {rs ts : List Record}, changeFirst test change rs = .ok (some w, ts) →
      ∃ before r after, rs = before ++ r :: after ∧ test r = true ∧ change r = .ok w ∧
        ts = before ++ w :: after
  | [],      ts, h => by cases h
  | r :: rs, ts, h => by
    rw [changeFirst] at h
    split at h
    · next htest =>
      obtain ⟨v, hv, h⟩ := bind_eq_ok.1 h
      cases h
      exact ⟨[], r, rs, rfl, htest, hv, rfl⟩
    · obtain ⟨⟨found, us⟩, hus, h⟩ := bind_eq_ok.1 h
      cases h
      obtain ⟨before, q, after, rfl, htest, hq, rfl⟩ := changeFirst_some hus
      exact ⟨r :: before, q, after, rfl, htest, hq, rfl⟩

/-! ### All records -/

namespace Memory

/-- The identifiers in order. -/
def ids (m : Memory) : List Uuid := m.records.map Record.id

/-- The versions of the records are these counts, which are zero for everything else. -/
structure Counts (m : Memory) (count : Uuid → Nat) : Prop where
  version : ∀ r ∈ m.records, r.fields.get? versionField = some (.int (count r.id))
  absent : ∀ id, id ∉ m.ids → count id = 0

/-- So many writes to certain fields of one record; with none of them nothing has changed. -/
structure Writes (id : Uuid) (fields : List String) (n : Nat) (m t : Memory) : Prop where
  rows : List.Forall₂ (fun r w => if r.id = id then r.Evolves fields n w else w = r)
    m.records t.records
  found : 0 < n → id ∈ m.ids
  still : n = 0 → t = m

namespace Writes

variable {id : Uuid} {fields more : List String} {n k : Nat} {m t u : Memory}

theorem refl (id : Uuid) (fields : List String) (m : Memory) : m.Writes id fields 0 m := by
  refine ⟨List.forall₂_same.2 fun r _ => ?_, fun h => absurd h (Nat.lt_irrefl 0), fun _ => rfl⟩
  split
  · exact .refl fields r
  · rfl

theorem mono (h : m.Writes id fields n t) (hsub : fields ⊆ more) : m.Writes id more n t := by
  refine ⟨h.rows.imp fun r w hrow => ?_, h.found, h.still⟩
  by_cases hid : r.id = id
  · rw [if_pos hid] at hrow ⊢
    exact hrow.mono hsub
  · rw [if_neg hid] at hrow ⊢
    exact hrow

theorem row_id {r w : Record}
    (h : if r.id = id then r.Evolves fields n w else w = r) : w.id = r.id := by
  by_cases hid : r.id = id
  · rw [if_pos hid] at h
    exact h.agrees.id
  · rw [if_neg hid] at h
    rw [h]

/-- Writes move no record and lose none. -/
theorem ids_eq (h : m.Writes id fields n t) : t.ids = m.ids := by
  have hids := h.rows.imp fun r w hrow => (row_id hrow).symm
  have hmap : List.Forall₂ (· = ·) (m.records.map Record.id) (t.records.map Record.id) :=
    List.forall₂_map_left_iff.2 (List.forall₂_map_right_iff.2 hids)
  rw [List.forall₂_eq_eq_eq] at hmap
  exact hmap.symm

theorem row_trans {r w v : Record} (h : if r.id = id then r.Evolves fields n w else w = r)
    (h' : if w.id = id then w.Evolves fields k v else v = w) :
    if r.id = id then r.Evolves fields (n + k) v else v = r := by
  rw [row_id h] at h'
  by_cases hid : r.id = id
  · rw [if_pos hid] at h h' ⊢
    exact h.trans h'
  · rw [if_neg hid] at h h' ⊢
    exact h'.trans h

theorem trans (h : m.Writes id fields n t) (h' : t.Writes id fields k u) :
    m.Writes id fields (n + k) u := by
  refine ⟨?_, fun hpos => ?_, fun hzero => ?_⟩
  · have hrows : ∀ {rs ws vs : List Record},
        List.Forall₂ (fun r w => if r.id = id then r.Evolves fields n w else w = r) rs ws →
        List.Forall₂ (fun r w => if r.id = id then r.Evolves fields k w else w = r) ws vs →
        List.Forall₂ (fun r w => if r.id = id then r.Evolves fields (n + k) w else w = r) rs vs := by
      intro rs ws vs hrw hwv
      induction hrw generalizing vs with
      | nil => cases hwv; exact .nil
      | cons hrow _ ih =>
        cases hwv with
        | cons hrow' hrest => exact .cons (row_trans hrow hrow') (ih hrest)
    exact hrows h.rows h'.rows
  · rcases Nat.eq_zero_or_pos n with hn | hn
    · have hk : 0 < k := by omega
      exact h.ids_eq ▸ h'.found hk
    · exact h.found hn
  · rw [h'.still (by omega), h.still (by omega)]

/-- Where a record came from, and what became of it. -/
theorem exists_row (h : m.Writes id fields n t) {w : Record} (hw : w ∈ t.records) :
    ∃ r ∈ m.records, if r.id = id then r.Evolves fields n w else w = r := by
  have hmem : ∀ {rs ws : List Record},
      List.Forall₂ (fun r w => if r.id = id then r.Evolves fields n w else w = r) rs ws →
      w ∈ ws → ∃ r ∈ rs, if r.id = id then r.Evolves fields n w else w = r := by
    intro rs ws hrows hw
    induction hrows with
    | nil => exact absurd hw List.not_mem_nil
    | @cons r _ _ _ hrow _ ih =>
      rcases List.mem_cons.1 hw with rfl | hw
      · exact ⟨r, List.mem_cons_self, hrow⟩
      · obtain ⟨q, hq, hrow⟩ := ih hw
        exact ⟨q, List.mem_cons_of_mem _ hq, hrow⟩
  exact hmem h.rows hw

/-- Writes raise the count of their record. -/
theorem counts (h : m.Writes id fields n t) {count : Uuid → Nat} (hm : m.Counts count) :
    t.Counts fun i => count i + if i = id then n else 0 := by
  refine ⟨fun w hw => ?_, fun i hi => ?_⟩
  · obtain ⟨r, hr, hrow⟩ := h.exists_row hw
    have hversion := hm.version r hr
    rw [row_id hrow]
    by_cases hid : r.id = id
    · rw [if_pos hid] at hrow ⊢
      exact hrow.version _ hversion
    · rw [if_neg hid] at hrow ⊢
      rw [hrow]
      exact hversion
  · rw [h.ids_eq] at hi
    by_cases hid : i = id
    · have hn : n = 0 := Nat.eq_zero_of_not_pos fun hpos => hi (hid ▸ h.found hpos)
      rw [if_pos hid, hn, hm.absent i hi]
    · rw [if_neg hid, hm.absent i hi]

end Writes

/-! ### Finding, updating and inserting -/

variable {m : Memory} {id : Uuid}

theorem mem_of_findById {r : Record} (h : m.findById id = some r) :
    r ∈ m.records ∧ r.id = id := by
  refine ⟨List.mem_of_find?_eq_some h, ?_⟩
  simpa using List.find?_some h

theorem not_mem_of_findById (h : m.findById id = none) : id ∉ m.ids := by
  intro hid
  obtain ⟨q, hq, hid⟩ := List.mem_map.1 hid
  have hq := List.find?_eq_none.1 h q hq
  exact hq (decide_eq_true hid)

/-- Every record is found under its own identifier. -/
theorem findById_id (hm : m.ids.Nodup) {r : Record} (hr : r ∈ m.records) :
    m.findById r.id = some r := by
  cases hfind : m.findById r.id with
  | none => exact absurd (List.mem_map_of_mem hr) (not_mem_of_findById hfind)
  | some w =>
    obtain ⟨hw, hid⟩ := mem_of_findById hfind
    rw [List.inj_on_of_nodup_map hm hw hr hid]

/-- What has become of a record, after writes to it or to another one. -/
theorem Writes.exists_found {t : Memory} {i : Uuid} {fields : List String} {n : Nat}
    (h : m.Writes i fields n t) (hm : m.ids.Nodup) {r : Record} (hfind : m.findById id = some r) :
    ∃ w, t.findById id = some w ∧ if id = i then r.Evolves fields n w else w = r := by
  obtain ⟨hr, rfl⟩ := mem_of_findById hfind
  have hids : r.id ∈ t.ids := h.ids_eq ▸ List.mem_map_of_mem hr
  obtain ⟨w, hw, hid⟩ := List.mem_map.1 hids
  obtain ⟨q, hq, hrow⟩ := h.exists_row hw
  have hsame : q = r := List.inj_on_of_nodup_map hm hq hr ((Writes.row_id hrow).symm.trans hid)
  subst hsame
  exact ⟨w, hid ▸ findById_id (h.ids_eq ▸ hm) hw, hrow⟩

/-- An update whose test accepts one identifier only is a write to that record, if it succeeds and
finds it, and nothing otherwise. -/
theorem writes_update (hm : m.ids.Nodup) {test : Record → Bool} (now : String) (p : Patch)
    (matched : Option Filter) (htest : ∀ r ∈ m.records, test r = true → r.id = id) :
    match m.update now test p matched with
    | (.ok (some _), t) => m.Writes id p.targets 1 t
    | (_, t)            => t = m := by
  rw [update]
  cases hchange : changeFirst test (·.commit now p matched) m.records with
  | error e => rfl
  | ok changed =>
    obtain ⟨found, ts⟩ := changed
    cases found with
    | none =>
      obtain rfl := changeFirst_none hchange
      rfl
    | some w =>
      obtain ⟨before, r, after, hrecords, hr, hw, rfl⟩ := changeFirst_some hchange
      have hmem : r ∈ m.records := hrecords ▸ List.mem_append_right _ List.mem_cons_self
      have hid := htest r hmem hr
      have hothers : ∀ q ∈ before ++ after, q.id ≠ id := by
        intro q hq hqid
        rw [ids, hrecords, List.map_append, List.map_cons, List.nodup_middle,
          List.nodup_cons, ← List.map_append] at hm
        exact hm.1 (List.mem_map.2 ⟨q, hq, hqid.trans hid.symm⟩)
      have hkept : ∀ {qs : List Record}, qs ⊆ before ++ after → List.Forall₂
          (fun q w => if q.id = id then q.Evolves p.targets 1 w else w = q) qs qs := by
        intro qs hqs
        refine List.forall₂_same.2 fun q hq => ?_
        rw [if_neg (hothers q (hqs hq))]
      refine ⟨?_, fun _ => ?_, fun h => absurd h Nat.one_ne_zero⟩
      · rw [hrecords]
        refine List.rel_append (hkept (List.subset_append_left _ _)) (.cons ?_ ?_)
        · rw [if_pos hid]
          exact Record.evolves_of_commit hw
        · exact hkept (List.subset_append_right _ _)
      · exact List.mem_map.2 ⟨r, hmem, hid⟩

/-- A new record goes to the end, if its identifier is new, and is not stored otherwise. -/
theorem insert_cases (m : Memory) (now : String) (r : Record) :
    (r.id ∉ m.ids ∧ m.insert now r = (.ok (r.fresh now), ⟨m.records ++ [r.fresh now]⟩)) ∨
    (r.id ∈ m.ids ∧ ∃ e, m.insert now r = (.error e, m)) := by
  rw [insert]
  cases hfind : m.findById r.id with
  | none => exact .inl ⟨not_mem_of_findById hfind, rfl⟩
  | some q =>
    obtain ⟨hq, hid⟩ := mem_of_findById hfind
    exact .inr ⟨List.mem_map.2 ⟨q, hq, hid⟩, _, rfl⟩

end Memory

/-! ### Finding a record by filter -/

/-- The filter for an entry of a record accepts that record alone. -/
theorem Filter.id_eq_of_accepts {id : Uuid} {field : String} {cond : Condition} {r : Record}
    (h : ((byId id).and field cond).accepts r = true) : r.id = id := by
  have hfirst : (⟨idField, .equals id.text⟩ : Predicate).accepts r = true :=
    List.all_eq_true.1 h _ (List.mem_append_left _ (List.mem_singleton.2 rfl))
  have htext : (r.id.text == id.text) = true := hfirst
  exact Uuid.text_injective (beq_iff_eq.1 htext)

end Shelf
