import Mathlib.Data.List.Sort
import Mathlib.Data.String.Basic
import Shelf.Json.Basic

/-!
Objects as maps from names to values.

Members written under different names may be written in either order, and of two written under one
name the second remains. Writing one object over another gives each name the value of the second
object if it has one there, and the value of the first if not; two objects written over a third come
to the second written over the first. The names stay in order. Whether an object carries some
members depends on what it has under their names alone; an object with the same names carries them
when the two are equal.
-/

namespace Shelf.Fields

variable {fs new : Fields} {name : String} {v : Json}

/-- The names of the members, in order. -/
def names (fs : Fields) : List String := fs.map Prod.fst

theorem get?_eq_none_iff : fs.get? name = none ↔ name ∉ fs.names := by
  rw [get?, List.lookup_eq_none_iff, names, List.mem_map]
  constructor
  · rintro h ⟨m, hm, rfl⟩
    exact absurd (h m hm) (by simp)
  · intro h m hm
    rw [bne_iff_ne]
    rintro rfl
    exact h ⟨m, hm, rfl⟩

/-! ### Order -/

instance (fs : Fields) : Decidable fs.Sorted :=
  inferInstanceAs (Decidable (fs.Pairwise fun a b => a.1 < b.1))

theorem Sorted.nodup_names (h : fs.Sorted) : fs.names.Nodup :=
  (List.pairwise_map.2 h).imp fun hlt => ne_of_lt hlt

/-- Two objects whose names are the same have them in the same order. -/
theorem Sorted.names_eq {gs : Fields} (hfs : fs.Sorted) (hgs : gs.Sorted)
    (h : ∀ name, name ∈ fs.names ↔ name ∈ gs.names) : fs.names = gs.names :=
  List.Pairwise.eq_of_mem_iff (List.pairwise_map.2 hfs) (List.pairwise_map.2 hgs) h

theorem mem_insert {m : String × Json} {v : Json} : ∀ {fs : Fields},
    m ∈ fs.insert name v → m.1 = name ∨ m ∈ fs
  | [],             h => .inl (congrArg Prod.fst (List.mem_singleton.1 h))
  | (n, w) :: rest, h => by
    rw [insert] at h
    split at h
    · next hn =>
      rcases List.mem_cons.1 h with rfl | h
      · exact .inl hn.symm
      · exact .inr (List.mem_cons_of_mem _ h)
    · split at h
      · rcases List.mem_cons.1 h with rfl | h
        · exact .inl rfl
        · exact .inr h
      · rcases List.mem_cons.1 h with rfl | h
        · exact .inr List.mem_cons_self
        · exact (mem_insert h).imp_right (List.mem_cons_of_mem _)

theorem Sorted.insert (name : String) (v : Json) : ∀ {fs : Fields},
    fs.Sorted → (fs.insert name v).Sorted
  | [],             _ => List.pairwise_singleton _ _
  | (n, w) :: rest, h => by
    obtain ⟨hfirst, hrest⟩ := List.pairwise_cons.1 h
    rw [Fields.insert]
    split
    · exact List.pairwise_cons.2 ⟨hfirst, hrest⟩
    · next hne =>
      split
      · next hlt =>
        refine List.pairwise_cons.2 ⟨fun m hm => ?_, h⟩
        rcases List.mem_cons.1 hm with rfl | hm
        · exact hlt
        · exact hlt.trans (hfirst m hm)
      · next hnlt =>
        have hlt : n < name := lt_of_le_of_ne (not_lt.1 hnlt) (Ne.symm hne)
        refine List.pairwise_cons.2 ⟨fun m hm => ?_, Sorted.insert name v hrest⟩
        rcases mem_insert hm with hm | hm
        · exact hm ▸ hlt
        · exact hfirst m hm

theorem Sorted.override (h : fs.Sorted) (new : Fields) : (fs.override new).Sorted := by
  induction new generalizing fs with
  | nil => exact h
  | cons m new ih => exact ih (h.insert m.1 m.2)

/-! ### Lookups -/

theorem get?_cons_self (name : String) (v : Json) (fs : Fields) :
    Fields.get? ((name, v) :: fs) name = some v :=
  List.lookup_cons_self

theorem get?_cons_of_ne {n : String} (h : name ≠ n) (v : Json) (fs : Fields) :
    Fields.get? ((n, v) :: fs) name = fs.get? name := by
  rw [get?, List.lookup_cons, beq_eq_false_iff_ne.2 h, get?]

theorem get?_of_mem {m : String × Json} (h : fs.Sorted) (hm : m ∈ fs) :
    fs.get? m.1 = some m.2 := by
  induction fs with
  | nil => exact absurd hm List.not_mem_nil
  | cons head fs ih =>
    obtain ⟨hfirst, hrest⟩ := List.pairwise_cons.1 h
    rcases List.mem_cons.1 hm with rfl | hm
    · exact get?_cons_self m.1 m.2 fs
    · rw [show head = (head.1, head.2) from rfl, get?_cons_of_ne (ne_of_gt (hfirst m hm))]
      exact ih hrest hm

theorem mem_of_get? (h : fs.get? name = some v) : (name, v) ∈ fs := by
  obtain ⟨before, after, rfl, -⟩ := List.lookup_eq_some_iff.1 h
  exact List.mem_append_right _ List.mem_cons_self

theorem get?_erase_self (name : String) : ∀ fs : Fields, (fs.erase name).get? name = none
  | []             => rfl
  | (n, v) :: rest => by
    have ih := get?_erase_self name rest
    by_cases hn : n = name
    · rw [erase, List.filter_cons_of_neg (by simpa using hn)]
      exact ih
    · rw [erase, List.filter_cons_of_pos (by simpa using hn), get?, List.lookup_cons,
        beq_eq_false_iff_ne.2 (Ne.symm hn)]
      exact ih

/-! ### Erasing -/

/-- Erasing a member that is not there. -/
theorem erase_eq_self (h : fs.get? name = none) : fs.erase name = fs := by
  refine List.filter_eq_self.2 fun m hm => decide_eq_true ?_
  rintro rfl
  exact get?_eq_none_iff.1 h (List.mem_map_of_mem hm)

/-- Erasing the member that was written last. -/
theorem erase_insert (h : fs.get? name = none) (v : Json) : (fs.insert name v).erase name = fs := by
  induction fs with
  | nil => exact List.filter_cons_of_neg (by simp)
  | cons m fs ih =>
    obtain ⟨n, w⟩ := m
    have hne : name ≠ n := by
      rintro rfl
      rw [get?_cons_self] at h
      cases h
    rw [insert, if_neg hne]
    split
    · rw [erase, List.filter_cons_of_neg (by simp)]
      exact erase_eq_self h
    · rw [get?_cons_of_ne hne] at h
      rw [erase, List.filter_cons_of_pos (by simpa using Ne.symm hne)]
      exact congrArg ((n, w) :: ·) (ih h)

/-- The members, with another value under a name. -/
def replaced (fs : Fields) (name : String) (v : Json) : Fields :=
  fs.map fun m => if m.1 = name then (name, v) else m

theorem replaced_eq_self (h : fs.get? name = none) (v : Json) : fs.replaced name v = fs := by
  refine (List.map_congr_left fun m hm => if_neg ?_).trans (List.map_id _)
  rintro rfl
  exact get?_eq_none_iff.1 h (List.mem_map_of_mem hm)

/-- A member that is erased and written again is back in its place. -/
theorem insert_erase : ∀ {fs : Fields}, fs.Sorted → name ∈ fs.names → ∀ v : Json,
    (fs.erase name).insert name v = fs.replaced name v
  | (n, w) :: rest, h, hname, v => by
    obtain ⟨hfirst, hrest⟩ := List.pairwise_cons.1 h
    by_cases hn : n = name
    · subst hn
      have hnone : Fields.get? rest n = none := by
        rw [get?_eq_none_iff, names, List.mem_map]
        rintro ⟨m, hm, rfl⟩
        exact lt_irrefl _ (hfirst m hm)
      have herase : Fields.erase ((n, w) :: rest) n = rest := by
        rw [erase, List.filter_cons_of_neg (by simp)]
        exact erase_eq_self hnone
      have hmap : Fields.replaced ((n, w) :: rest) n v = (n, v) :: rest := by
        rw [replaced, List.map_cons, if_pos rfl]
        exact congrArg ((n, v) :: ·) (replaced_eq_self hnone v)
      rw [herase, hmap]
      cases rest with
      | nil => rfl
      | cons m rest =>
        have hlt : n < m.1 := hfirst m List.mem_cons_self
        rw [insert, if_neg (ne_of_lt hlt), if_pos hlt]
    · have hin : name ∈ names rest := (List.mem_cons.1 hname).resolve_left (Ne.symm hn)
      obtain ⟨m, hm, hm'⟩ := List.mem_map.1 hin
      have hlt : n < name := hm' ▸ hfirst m hm
      rw [erase, List.filter_cons_of_pos (by simpa using hn), insert, if_neg (Ne.symm hn),
        if_neg (lt_asymm hlt), replaced, List.map_cons, if_neg hn]
      exact congrArg ((n, w) :: ·) (insert_erase hrest hin v)

/-! ### Writes in sequence -/

theorem insert_insert_self (name : String) (v w : Json) : ∀ fs : Fields,
    (fs.insert name v).insert name w = fs.insert name w
  | []             => by simp [insert]
  | (n, u) :: rest => by
    by_cases hn : name = n
    · simp [insert, hn]
    · by_cases hlt : name < n
      · simp [insert, hn, hlt]
      · simp [insert, hn, hlt, insert_insert_self name v w rest]

/-- Two writes to different names, the smaller one first. -/
theorem insert_comm_of_lt {a b : String} (h : a < b) (v w : Json) : ∀ fs : Fields,
    (fs.insert a v).insert b w = (fs.insert b w).insert a v
  | []             => by simp [insert, h, h.ne, h.ne', h.not_gt]
  | (n, u) :: rest => by
    rcases lt_trichotomy a n with ha | rfl | ha
    · rcases lt_trichotomy b n with hb | rfl | hb
      · simp only [insert, ha, ha.ne, hb, hb.ne, h, h.ne, h.ne', h.not_gt, if_true, if_false]
      · simp only [insert, h, h.ne, h.ne', h.not_gt, if_true, if_false]
      · simp only [insert, ha, ha.ne, hb.ne', hb.not_gt, h.ne', h.not_gt, if_true, if_false]
    · simp only [insert, h.ne', h.not_gt, if_true, if_false]
    · have hb : n < b := ha.trans h
      simp only [insert, ha.ne', ha.not_gt, hb.ne', hb.not_gt, if_false,
        insert_comm_of_lt h v w rest]

theorem insert_comm {a b : String} (h : a ≠ b) (v w : Json) (fs : Fields) :
    (fs.insert a v).insert b w = (fs.insert b w).insert a v := by
  rcases lt_or_gt_of_ne h with h | h
  · exact insert_comm_of_lt h v w fs
  · exact (insert_comm_of_lt h w v fs).symm

/-! ### Writing one object over another -/

/-- What an object has under a name after another one is written over it. -/
theorem get?_override : ∀ {new : Fields}, new.Sorted → ∀ (fs : Fields) (name : String),
    (fs.override new).get? name = (new.get? name).or (fs.get? name)
  | [],            _, _,  _    => rfl
  | (n, v) :: new, h, fs, name => by
    obtain ⟨hfirst, hrest⟩ := List.pairwise_cons.1 h
    refine (get?_override hrest (fs.insert n v) name).trans ?_
    by_cases hn : name = n
    · subst hn
      have hnone : Fields.get? new name = none := by
        rw [get?_eq_none_iff, names, List.mem_map]
        rintro ⟨m, hm, rfl⟩
        exact lt_irrefl _ (hfirst m hm)
      rw [hnone, Option.none_or, get?_insert_self, get?_cons_self, Option.some_or]
    · rw [get?_insert_of_ne hn, get?_cons_of_ne hn]

/-- A name that the second object does not have keeps its value. -/
theorem get?_override_of_not_mem (h : new.Sorted) (hname : name ∉ new.names) (fs : Fields) :
    (fs.override new).get? name = fs.get? name := by
  rw [get?_override h, get?_eq_none_iff.2 hname, Option.none_or]

theorem mem_override {m : String × Json} : ∀ {new fs : Fields},
    m ∈ fs.override new → m ∈ fs ∨ m.1 ∈ new.names
  | [],             _,  h => .inl h
  | (n, w) :: new, fs, h => by
    have hrest : m ∈ (fs.insert n w).override new := h
    rcases mem_override hrest with hin | hin
    · rcases mem_insert hin with hname | hin
      · exact .inr (List.mem_cons.2 (.inl hname))
      · exact .inl hin
    · exact .inr (List.mem_cons_of_mem _ hin)

/-- A member that the new object does not have may be written before it or after it. -/
theorem override_insert_of_not_mem (h : name ∉ new.names) (v : Json) (fs : Fields) :
    (fs.insert name v).override new = (fs.override new).insert name v := by
  induction new generalizing fs with
  | nil => rfl
  | cons m new ih =>
    obtain ⟨hne, hrest⟩ := not_or.1 (fun hin => h (List.mem_cons.2 hin))
    change ((fs.insert name v).insert m.1 m.2).override new = _
    rw [insert_comm hne]
    exact ih hrest (fs.insert m.1 m.2)

theorem override_insert (name : String) (v : Json) : ∀ {new : Fields}, new.Sorted →
    ∀ fs : Fields, fs.override (new.insert name v) = (fs.override new).insert name v
  | [],             _, _  => rfl
  | (n, w) :: rest, h, fs => by
    obtain ⟨hfirst, hrest⟩ := List.pairwise_cons.1 h
    rw [insert]
    split
    · next hn =>
      subst hn
      have hnew : name ∉ names rest := (List.nodup_cons.1 h.nodup_names).1
      change (fs.insert name v).override rest = ((fs.insert name w).override rest).insert name v
      rw [← override_insert_of_not_mem hnew, insert_insert_self]
    · next hn =>
      split
      · next hlt =>
        have hnew : name ∉ names ((n, w) :: rest) := by
          intro hin
          obtain ⟨m, hm, rfl⟩ := List.mem_map.1 hin
          rcases List.mem_cons.1 hm with rfl | hm
          · exact hn rfl
          · exact lt_asymm hlt (hfirst m hm)
        exact override_insert_of_not_mem hnew v fs
      · exact override_insert name v hrest (fs.insert n w)

/-- Two objects written over a third come to the second written over the first. -/
theorem override_override (h : new.Sorted) (fs more : Fields) :
    (fs.override new).override more = fs.override (new.override more) := by
  induction more generalizing new with
  | nil => rfl
  | cons m more ih =>
    change ((fs.override new).insert m.1 m.2).override more = _
    rw [← override_insert m.1 m.2 h]
    exact ih (h.insert m.1 m.2)

/-- Writing a member that is there. -/
theorem insert_eq_self : ∀ {fs : Fields}, fs.Sorted → fs.get? name = some v →
    fs.insert name v = fs
  | (n, w) :: rest, h, hv => by
    obtain ⟨hfirst, hrest⟩ := List.pairwise_cons.1 h
    by_cases hn : name = n
    · subst hn
      rw [get?_cons_self] at hv
      rw [insert, if_pos rfl, Option.some.inj hv]
    · rw [get?_cons_of_ne hn] at hv
      have hlt : n < name := hfirst _ (mem_of_get? hv)
      rw [insert, if_neg hn, if_neg (lt_asymm hlt), insert_eq_self hrest hv]

theorem override_self (h : fs.Sorted) : fs.override fs = fs := by
  have hall : ∀ new : Fields, (∀ m ∈ new, fs.get? m.1 = some m.2) → fs.override new = fs := by
    intro new hnew
    induction new with
    | nil => rfl
    | cons m new ih =>
      change (fs.insert m.1 m.2).override new = fs
      rw [insert_eq_self h (hnew m List.mem_cons_self)]
      exact ih fun m hm => hnew m (List.mem_cons_of_mem _ hm)
  exact hall fs fun m hm => get?_of_mem h hm

/-! ### Carrying members -/

theorem carries_iff {criteria : Fields} : fs.carries criteria = true ↔
    ∀ m ∈ criteria, ∃ v, fs.get? m.1 = some v ∧ (v == m.2) = true := by
  rw [carries, List.all_eq_true]
  refine forall₂_congr fun m _ => ?_
  cases fs.get? m.1 <;> simp

theorem carries_congr {fs gs : Fields} : ∀ {criteria : Fields},
    (∀ name ∈ criteria.names, fs.get? name = gs.get? name) →
      fs.carries criteria = gs.carries criteria
  | [],                  _ => rfl
  | (n, v) :: criteria, h => by
    have hrest : fs.carries criteria = gs.carries criteria :=
      carries_congr fun name hname => h name (List.mem_cons_of_mem _ hname)
    rw [carries, carries] at hrest
    rw [carries, carries, List.all_cons, List.all_cons, hrest, h n List.mem_cons_self]

/-- Among objects with the same names, to carry the members is to be equal. -/
theorem carries_eq_beq : ∀ {fs gs : Fields}, fs.names.Nodup → fs.names = gs.names →
    fs.carries gs = Json.beqMembers fs gs
  | [],           [],           _,      _      => rfl
  | (n, v) :: fs, (k, w) :: gs, hnodup, hnames => by
    obtain ⟨rfl, hrest⟩ := List.cons.inj hnames
    obtain ⟨hfirst, hnodup⟩ := List.nodup_cons.1 hnodup
    have htail : Fields.carries ((n, v) :: fs) gs = Fields.carries fs gs := by
      refine carries_congr fun name hname => get?_cons_of_ne ?_ v fs
      rintro rfl
      rw [names, ← hrest] at hname
      exact hfirst hname
    rw [carries_eq_beq hnodup hrest] at htail
    rw [carries] at htail
    rw [carries, List.all_cons, get?_cons_self, htail, Json.beqMembers, beq_self_eq_true,
      Bool.true_and]
    rfl

end Shelf.Fields
