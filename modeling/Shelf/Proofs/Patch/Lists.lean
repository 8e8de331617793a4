import Shelf.Proofs.Json.Equality
import Shelf.Proofs.Patch.Single
import Shelf.Proofs.Uuid

/-!
Adding to a list and removing from it.

An addition does what it says under every name. A removal first looks whether anything is there, and
it looks along the name as a path, while the list that it removes from is the field of that name.
Under a name without a dot the two are one. Under a name with a dot it can overlook the field, and
it can begin a list in a field that was absent.

    name    fields             fields after x is removed
    tags    tags: [x, y, x]    tags: [y]
    a.b     a.b: [x]           a.b: [x]
    a.b     a: {b: 1}          a: {b: 1}, a.b: []
-/

namespace Shelf

/-- What is found along a name as a path tells a removal what it has to know of the field: that it
is there, or that it is a list without such an item. -/
inductive Record.InSight (r : Record) (field : String) (v : Json) : Prop
  | found (hpath : (r.get? field).isSome) (hfield : (r.fields.get? field).isSome)
  | nothing {xs : List Json} (hpath : r.get? field = none) (hlist : r.list field = .ok xs)
      (hnone : ∀ x ∈ xs, (x == v) = false)

namespace Patch

variable {field : String} {v : Json} {matched : Option Filter} {r w : Record}

/-- A list without the items that equal a value. -/
def removed (v : Json) (xs : List Json) : List Json := xs.filter fun x => !(x == v)

theorem removed_eq_self_iff {xs : List Json} :
    removed v xs = xs ↔ ∀ x ∈ xs, (x == v) = false := by
  rw [removed, List.filter_eq_self]
  simp only [Bool.not_eq_true']

theorem beq_of_mem_removed {xs : List Json} {x : Json} (h : x ∈ removed v xs) :
    (x == v) = false := by
  have hkept := List.of_mem_filter h
  rwa [Bool.not_eq_true'] at hkept

/-- An update succeeds when its field reads as a list, does this to the list, and does nothing else
to the record. -/
structure Rewrites (u : FieldUpdate) (change : List Json → List Json) (matched : Option Filter)
    (r : Record) : Prop where
  succeeds_iff : (∃ w, (one u).applied matched r = .ok w) ↔ ∃ xs, r.list u.target = .ok xs
  list : ∀ w xs, (one u).applied matched r = .ok w → r.list u.target = .ok xs →
    w.list u.target = .ok (change xs)
  agrees : ∀ w, (one u).applied matched r = .ok w → r.Agrees [u.target] w

theorem rewrites_of_applied {u : FieldUpdate} {change : List Json → List Json}
    (h : (one u).applied matched r =
      (r.list u.target).map fun xs => r.set u.target (.array (change xs))) :
    Rewrites u change matched r := by
  have hwrite : ∀ w, (one u).applied matched r = .ok w ↔
      ∃ xs, r.list u.target = .ok xs ∧ r.set u.target (.array (change xs)) = w := fun w => by
    rw [h, map_eq_ok]
  refine ⟨?_, fun w xs hw hxs => ?_, fun w hw => ?_⟩
  · simp only [hwrite]
    exact ⟨fun ⟨_, xs, hxs, _⟩ => ⟨xs, hxs⟩, fun ⟨xs, hxs⟩ => ⟨_, xs, hxs, rfl⟩⟩
  · obtain ⟨ys, hys, rfl⟩ := (hwrite w).1 hw
    obtain rfl := Except.ok.inj (hys.symm.trans hxs)
    exact Record.list_set_self r u.target _
  · obtain ⟨ys, -, rfl⟩ := (hwrite w).1 hw
    exact .set r u.target _

/-- A removal takes the equal items out of the list in its field, and an absent field stays
absent. -/
structure Removes (field : String) (v : Json) (matched : Option Filter) (r : Record) : Prop where
  rewrites : Rewrites (.pull field v) (removed v) matched r
  keepsAbsent : r.fields.get? field = none → ∀ w, (one (.pull field v)).applied matched r = .ok w →
    w.fields.get? field = none

/-- Where the path leads nowhere, nothing is done, and that is right if there is nothing to do. -/
theorem removes_iff_of_none (hpatchable : isPatchable field = true) (hpath : r.get? field = none) :
    Removes field v matched r ↔ ∃ xs, r.list field = .ok xs ∧ ∀ x ∈ xs, (x == v) = false := by
  have happlied : (one (.pull field v)).applied matched r = .ok r :=
    applied_pull_of_none hpatchable hpath v
  have hsame : ∀ w, (one (.pull field v)).applied matched r = .ok w → w = r := fun w hw =>
    (Except.ok.inj (happlied.symm.trans hw)).symm
  constructor
  · intro h
    obtain ⟨xs, hxs⟩ := h.rewrites.succeeds_iff.1 ⟨r, happlied⟩
    have hlist := hxs.symm.trans (h.rewrites.list r xs happlied hxs)
    exact ⟨xs, hxs, removed_eq_self_iff.1 (Except.ok.inj hlist).symm⟩
  · rintro ⟨xs, hxs, hnone⟩
    refine ⟨⟨iff_of_true ⟨r, happlied⟩ ⟨xs, hxs⟩, fun w ys hw hys => ?_, fun w hw => ?_⟩,
      fun habsent w hw => ?_⟩
    · obtain rfl := Except.ok.inj (hxs.symm.trans hys)
      rw [hsame w hw, removed_eq_self_iff.2 hnone]
      exact hxs
    · rw [hsame w hw]
      exact .refl _ r
    · rw [hsame w hw, habsent]

/-- Where the path leads to something, the list is written, and that is right if it was there. -/
theorem removes_iff_of_some (hpatchable : isPatchable field = true) {found : Json}
    (hpath : r.get? field = some found) :
    Removes field v matched r ↔ (r.fields.get? field).isSome := by
  have happlied : (one (.pull field v)).applied matched r =
      (r.list field).map fun xs => r.set field (.array (removed v xs)) :=
    applied_pull hpatchable hpath v
  cases hfield : r.fields.get? field with
  | some stored =>
    refine iff_of_true ⟨rewrites_of_applied happlied, fun habsent => ?_⟩ rfl
    rw [hfield] at habsent
    cases habsent
  | none =>
    -- The list that is begun here was absent before.
    have hempty : r.list field = .ok [] := Record.list_eq_ok_iff.2 (hfield ▸ .absent)
    rw [hempty] at happlied
    refine iff_of_false (fun h => ?_) nofun
    have habsent := h.keepsAbsent hfield _ happlied
    rw [show (r.set field (.array (removed v []))).fields.get? field = _ from
      Fields.get?_insert_self field _ r.fields] at habsent
    cases habsent

theorem removes_iff (hpatchable : isPatchable field = true) :
    Removes field v matched r ↔ r.InSight field v := by
  cases hpath : r.get? field with
  | none =>
    rw [removes_iff_of_none hpatchable hpath]
    constructor
    · rintro ⟨xs, hxs, hnone⟩
      exact .nothing hpath hxs hnone
    · rintro (⟨hsome, -⟩ | ⟨-, hlist, hnone⟩)
      · rw [hpath] at hsome
        cases hsome
      · exact ⟨_, hlist, hnone⟩
  | some found =>
    rw [removes_iff_of_some hpatchable hpath]
    constructor
    · exact fun hfield => .found (by rw [hpath]; rfl) hfield
    · rintro (⟨-, hfield⟩ | ⟨hnone, -⟩)
      · exact hfield
      · rw [hpath] at hnone
        cases hnone

/-- Under a name without a dot a removal sees what it removes from. -/
theorem inSight_of_undotted (hdot : '.' ∉ field.toList) (r : Record) (v : Json) :
    r.InSight field v := by
  have hpath := Record.get?_of_undotted hdot r
  cases hfield : r.fields.get? field with
  | none =>
    have hempty : r.list field = .ok [] := Record.list_eq_ok_iff.2 (hfield ▸ .absent)
    exact .nothing (hpath.trans hfield) hempty fun _ hx => absurd hx List.not_mem_nil
  | some stored => exact .found (by rw [hpath, hfield]; rfl) (by rw [hfield]; rfl)

/-- After an addition, a removal finds something along its path unless a dot leads it elsewhere. -/
theorem get?_isSome_of_push (hpatchable : isPatchable field = true)
    (h : (one (.push field v)).applied matched r = .ok w) :
    (w.get? field).isSome ↔ ('.' ∈ field.toList → (r.get? field).isSome) := by
  rw [applied_push hpatchable, map_eq_ok] at h
  obtain ⟨xs, -, rfl⟩ := h
  by_cases hdot : '.' ∈ field.toList
  · rw [Record.get?_set_of_dotted hdot, forall_prop_of_true hdot]
  · refine iff_of_true ?_ fun hin => absurd hin hdot
    rw [Record.get?_of_undotted hdot]
    exact congrArg Option.isSome (Fields.get?_insert_self field _ r.fields)

/-- What additions to a list and removals from it do under a name. -/
structure ListLaws (field : String) (v : Json) (matched : Option Filter) (r : Record) : Prop where
  adds : Rewrites (.push field v) (· ++ [v]) matched r
  removes_iff : Removes field v matched r ↔ r.InSight field v
  removes : '.' ∉ field.toList → Removes field v matched r
  leavesNone_iff : ∀ w, (one (.push field v)).applied matched r = .ok w →
    ∃ u ys, (one (.pull field v)).applied matched w = .ok u ∧ u.list field = .ok ys ∧
      ((∀ y ∈ ys, (y == v) = false) ↔ ('.' ∈ field.toList → (r.get? field).isSome))

/-- Additions do what they say under every name, and removals where they see the list. -/
theorem listLaws_of_unowned (hid : field ≠ idField) (hversion : field ≠ versionField)
    (hv : v.isFinite = true) (matched : Option Filter) (r : Record) :
    ListLaws field v matched r := by
  have hpatchable := isPatchable_of_ne hid hversion
  refine ⟨rewrites_of_applied (applied_push hpatchable v), removes_iff hpatchable,
    fun hdot => (removes_iff hpatchable).2 (inSight_of_undotted hdot r v), fun w hw => ?_⟩
  rw [← get?_isSome_of_push hpatchable hw]
  obtain ⟨xs, -, rfl⟩ := map_eq_ok.1 ((applied_push hpatchable v).symm.trans hw)
  have hlist := Record.list_set_self r field (xs ++ [v])
  cases hpath : (r.set field (.array (xs ++ [v]))).get? field with
  | none =>
    refine ⟨_, _, applied_pull_of_none hpatchable hpath v, hlist, iff_of_false (fun h => ?_) nofun⟩
    have hself : (v == v) = true := v.beq_self hv
    rw [h v (List.mem_append_right xs (List.mem_singleton.2 rfl))] at hself
    cases hself
  | some found =>
    refine ⟨_, _, (applied_pull hpatchable hpath v).trans (congrArg _ hlist),
      Record.list_set_self _ field _, iff_of_true (fun y hy => beq_of_mem_removed hy) rfl⟩

/-- A list under a dotted name, next to a value at the path. -/
theorem listLaws_dotted :
    let r : Record := ⟨.uniform 1, [("a", .object [("b", .int 1)]),
      ("a.b", .array [.string "x", .number (.real 0.5), .string "x"])]⟩
    "a.b" ≠ idField ∧ "a.b" ≠ versionField ∧ (Json.string "x").isFinite = true ∧
      r.InSight "a.b" (.string "x") ∧ ListLaws "a.b" (.string "x") none r := by
  intro r
  have hid : "a.b" ≠ idField := by decide
  have hversion : "a.b" ≠ versionField := by decide
  exact ⟨hid, hversion, rfl, .found rfl rfl, listLaws_of_unowned hid hversion rfl none r⟩

/-- An item that was added under a dotted name is not removed; and a removal begins a list under a
dotted name where only the path leads to something. -/
theorem dotted_list_overlooked :
    let added : Record := ⟨.uniform 1, [("a.b", .array [.string "x"])]⟩
    let nested : Record := ⟨.uniform 1, [("a", .object [("b", .int 1)])]⟩
    (one (.push "a.b" (.string "x"))).applied none ⟨.uniform 1, []⟩ = .ok added ∧
      (one (.pull "a.b" (.string "x"))).applied none added = .ok added ∧
        ¬ Removes "a.b" (.string "x") none added ∧
          (one (.pull "a.b" (.string "x"))).applied none nested =
            .ok (nested.set "a.b" (.array [])) ∧ ¬ Removes "a.b" (.string "x") none nested := by
  intro added nested
  have hadded : (one (.pull "a.b" (.string "x"))).applied none added = .ok added := rfl
  have hnested : (one (.pull "a.b" (.string "x"))).applied none nested =
    .ok (nested.set "a.b" (.array [])) := rfl
  refine ⟨rfl, hadded, fun h => ?_, hnested, fun h => ?_⟩
  · have hlist := h.rewrites.list added _ hadded rfl
    cases hlist
  · have habsent := h.keepsAbsent rfl _ hnested
    cases habsent

end Patch

end Shelf
