import Shelf.Proofs.Arrival
import Shelf.Proofs.Outcome
import Shelf.Proofs.Uuid
import Shelf.Rendering

/-!
What a rendered patch carries.

Each update writes entries, every one under an operator and a key, and the document of a patch holds
them together with a version and a time. Where two writes have the operator and the key in common,
the later one is all that the document shows. A second push to a list thus takes the place of the
first, although both are carried out on a record in memory.

    push tags a, push title b     { $push: { tags: a, title: b } }
    push tags a, push tags b      { $push: { tags: b } }
-/

namespace Shelf

/-! ### Writes -/

/-- The operators under which updates are written. -/
inductive Operator
  | set
  | push
  | pull
  deriving DecidableEq

/-- The name of the operator. -/
def Operator.token : Operator → String
  | .set  => "$set"
  | .push => "$push"
  | .pull => "$pull"

/-- A place in an update document. -/
structure Slot where
  operator : Operator
  key : String
  deriving DecidableEq

/-- The place of the time. -/
def Slot.stamp : Slot := ⟨.set, updatedField⟩

/-- What an update writes, and where. -/
def FieldUpdate.writes : FieldUpdate → List (Slot × Json)
  | .set field v         => [(⟨.set, field⟩, v)]
  | .push field v        => [(⟨.push, field⟩, v)]
  | .pull field v        => [(⟨.pull, field⟩, v)]
  | .setMatched list ms  => ms.map fun m => (⟨.set, matchedPath list m.1⟩, m.2)

/-- What the updates of a patch write, in order. -/
def Patch.writes (p : Patch) : List (Slot × Json) := p.updates.flatMap FieldUpdate.writes

/-- Writes and what they are rendered as. -/
def Renders (ws : List (Slot × Json)) (xs : List (Slot × DocValue)) : Prop :=
  List.Forall₂ (fun w x => x.1 = w.1 ∧ w.2.render = .ok x.2) ws xs

theorem Json.render_eq_ok_iff {v : Json} {x : DocValue} :
    v.render = .ok x ↔ DocValue.ofJson? v = some x := by
  rw [render]
  cases DocValue.ofJson? v with
  | none => exact ⟨nofun, nofun⟩
  | some y => exact ⟨fun h => by cases h; rfl, fun h => by cases h; rfl⟩

theorem exists_renders_iff {ws : List (Slot × Json)} :
    (∃ xs, Renders ws xs) ↔ ∀ w ∈ ws, ∃ x, w.2.render = .ok x := by
  induction ws with
  | nil => exact ⟨fun _ _ h => absurd h List.not_mem_nil, fun _ => ⟨[], .nil⟩⟩
  | cons w ws ih =>
    rw [List.forall_mem_cons, ← ih]
    constructor
    · rintro ⟨_, h⟩
      cases h with
      | cons hw hws => exact ⟨⟨_, hw.2⟩, _, hws⟩
    · rintro ⟨⟨x, hx⟩, xs, hxs⟩
      exact ⟨(w.1, x) :: xs, .cons ⟨rfl, hx⟩ hxs⟩

theorem renders_singleton_iff {slot : Slot} {v : Json} {xs : List (Slot × DocValue)} :
    Renders [(slot, v)] xs ↔ ∃ x, v.render = .ok x ∧ xs = [(slot, x)] := by
  constructor
  · intro h
    cases h with
    | @cons _ w _ _ hw hnil =>
      cases hnil
      obtain ⟨rfl, hx⟩ := hw
      exact ⟨w.2, hx, rfl⟩
  · rintro ⟨x, hx, rfl⟩
    exact .cons ⟨rfl, hx⟩ .nil

theorem renders_append_iff {ws vs : List (Slot × Json)} {zs : List (Slot × DocValue)} :
    Renders (ws ++ vs) zs ↔ ∃ xs ys, Renders ws xs ∧ Renders vs ys ∧ zs = xs ++ ys := by
  constructor
  · intro h
    exact ⟨zs.take ws.length, zs.drop ws.length, (List.forall₂_take_append zs ws vs h.flip).flip,
      (List.forall₂_drop_append zs ws vs h.flip).flip, (List.take_append_drop _ zs).symm⟩
  · rintro ⟨xs, ys, hxs, hys, rfl⟩
    exact List.rel_append hxs hys

theorem Renders.slots {ws : List (Slot × Json)} {xs : List (Slot × DocValue)} (h : Renders ws xs) :
    xs.map Prod.fst = ws.map Prod.fst := by
  induction h with
  | nil => rfl
  | cons hw _ ih => rw [List.map_cons, List.map_cons, hw.1, ih]

/-- Under a slot, the rendered writes are the writes rendered. -/
theorem Renders.lookup {ws : List (Slot × Json)} {xs : List (Slot × DocValue)} (h : Renders ws xs)
    (slot : Slot) : xs.lookup slot = (ws.lookup slot).bind DocValue.ofJson? := by
  induction h with
  | nil => rfl
  | @cons w x _ _ hw _ ih =>
    rw [List.lookup_cons, List.lookup_cons, hw.1, ih]
    cases slot == w.1 with
    | true => exact (Json.render_eq_ok_iff.1 hw.2).symm
    | false => rfl

/-! ### The parts of an update document -/

namespace UpdateParts

/-- The entries under an operator. -/
def entries (parts : UpdateParts) : Operator → Document
  | .set  => parts.set
  | .push => parts.push
  | .pull => parts.pull

/-- Writes one entry. -/
def put (parts : UpdateParts) (w : Slot × DocValue) : UpdateParts :=
  match w.1.operator with
  | .set  => { parts with set := parts.set.insert w.1.key w.2 }
  | .push => { parts with push := parts.push.insert w.1.key w.2 }
  | .pull => { parts with pull := parts.pull.insert w.1.key w.2 }

/-- An entry changes the entries under its operator alone. -/
theorem entries_put (parts : UpdateParts) (w : Slot × DocValue) (op : Operator) :
    (parts.put w).entries op =
      if op = w.1.operator then (parts.entries op).insert w.1.key w.2 else parts.entries op := by
  obtain ⟨⟨own, key⟩, x⟩ := w
  cases own <;> cases op <;> rfl

theorem lookup_put (parts : UpdateParts) (w : Slot × DocValue) (slot : Slot) :
    ((parts.put w).entries slot.operator).lookup slot.key =
      if slot = w.1 then some w.2 else (parts.entries slot.operator).lookup slot.key := by
  obtain ⟨op, key⟩ := slot
  obtain ⟨⟨own, name⟩, x⟩ := w
  rw [entries_put]
  by_cases hop : op = own
  · by_cases hkey : key = name
    · rw [if_pos hop, hkey, if_pos (by rw [hop])]
      exact Arrival.lookup_put_self name x _
    · rw [if_pos hop, if_neg fun h => hkey (congrArg Slot.key h)]
      exact Arrival.lookup_put_of_ne hkey x _
  · rw [if_neg hop, if_neg fun h => hop (congrArg Slot.operator h)]

/-- After writes in order, each slot has what was written to it last. -/
theorem lookup_foldl_put (slot : Slot) : ∀ (xs : List (Slot × DocValue)) (parts : UpdateParts),
    ((xs.foldl put parts).entries slot.operator).lookup slot.key =
      (xs.reverse.lookup slot).or ((parts.entries slot.operator).lookup slot.key)
  | [],      _     => rfl
  | x :: xs, parts => by
    rw [List.foldl_cons, lookup_foldl_put slot xs, lookup_put, List.reverse_cons,
      List.lookup_append, Option.or_assoc, List.lookup_cons, List.lookup_nil]
    by_cases hslot : slot = x.1
    · rw [if_pos hslot, beq_iff_eq.2 hslot, Option.some_or]
    · rw [if_neg hslot, beq_eq_false_iff_ne.2 hslot, Option.none_or]

theorem nodup_foldl_put (op : Operator) : ∀ (xs : List (Slot × DocValue)) {parts : UpdateParts},
    ((parts.entries op).map Prod.fst).Nodup →
      (((xs.foldl put parts).entries op).map Prod.fst).Nodup
  | [],      _,     h => h
  | x :: xs, parts, h => by
    refine nodup_foldl_put op xs ?_
    rw [entries_put]
    split
    · exact Arrival.nodup_names_put x.1.key x.2 h
    · exact h

theorem isEmpty_foldl_put (op : Operator) : ∀ (xs : List (Slot × DocValue)) (parts : UpdateParts),
    ((xs.foldl put parts).entries op).isEmpty =
      ((parts.entries op).isEmpty && !(xs.map Prod.fst).any (·.operator == op))
  | [],      parts => (Bool.and_true _).symm
  | x :: xs, parts => by
    rw [List.foldl_cons, isEmpty_foldl_put op xs, entries_put, List.map_cons, List.any_cons]
    by_cases hop : op = x.1.operator
    · have hput : ((parts.entries op).insert x.1.key x.2).isEmpty = false := by
        rw [Document.insert]
        cases parts.entries op with
        | nil => rfl
        | cons e row =>
          rw [Arrival.put]
          split <;> rfl
      rw [if_pos hop, hput, beq_iff_eq.2 hop.symm, Bool.true_or, Bool.not_true, Bool.and_false,
        Bool.false_and]
    · rw [if_neg hop, beq_eq_false_iff_ne.2 (Ne.symm hop), Bool.false_or]

/-! ### Updates -/

/-- An update of one entry. -/
theorem exists_put_iff {parts next : UpdateParts} {slot : Slot} {v : Json}
    {change : DocValue → UpdateParts} (hchange : ∀ x, change x = parts.put (slot, x)) :
    (do return change (← v.render)) = Except.ok next ↔
      ∃ xs, Renders [(slot, v)] xs ∧ next = xs.foldl put parts := by
  rw [bind_eq_ok]
  constructor
  · rintro ⟨x, hx, h⟩
    cases h
    exact ⟨[(slot, x)], renders_singleton_iff.2 ⟨x, hx, rfl⟩, hchange x⟩
  · rintro ⟨xs, hxs, rfl⟩
    obtain ⟨x, hx, rfl⟩ := renders_singleton_iff.1 hxs
    exact ⟨x, hx, congrArg Except.ok (hchange x)⟩

/-- An update of the members of a matched element. -/
theorem exists_renderMembers_iff {list : String} {next : UpdateParts} :
    ∀ {ms : Fields} {parts : UpdateParts},
      (do return { parts with set := ← renderMembers list parts.set ms }) = Except.ok next ↔
        ∃ xs, Renders (FieldUpdate.setMatched list ms).writes xs ∧ next = xs.foldl put parts
  | [],           parts => by
    constructor
    · intro h
      cases h
      exact ⟨[], .nil, rfl⟩
    · rintro ⟨_, h, rfl⟩
      cases h
      rfl
  | (k, v) :: ms, parts => by
    constructor
    · intro h
      obtain ⟨d, hd, h⟩ := bind_eq_ok.1 h
      obtain ⟨x, hx, hd⟩ := bind_eq_ok.1 hd
      cases h
      let first := parts.put (⟨.set, matchedPath list k⟩, x)
      have hrest : (do return { first with set := ← renderMembers list first.set ms }) =
          Except.ok { parts with set := d } := bind_eq_ok.2 ⟨d, hd, rfl⟩
      obtain ⟨xs, hxs, hnext⟩ := exists_renderMembers_iff.1 hrest
      exact ⟨_ :: xs, .cons ⟨rfl, hx⟩ hxs, hnext⟩
    · rintro ⟨_, h, rfl⟩
      cases h with
      | @cons _ w _ xs hw hxs =>
        obtain ⟨slot, x⟩ := w
        obtain ⟨rfl, hx⟩ := hw
        let first := parts.put (⟨.set, matchedPath list k⟩, x)
        have hrest : (do return { first with set := ← renderMembers list first.set ms }) =
            Except.ok (xs.foldl put first) := exists_renderMembers_iff.2 ⟨xs, hxs, rfl⟩
        obtain ⟨d, hd, h⟩ := bind_eq_ok.1 hrest
        exact bind_eq_ok.2 ⟨d, bind_eq_ok.2 ⟨x, hx, hd⟩, h⟩

/-- An update that may be written adds its entries. -/
theorem add_eq_ok_iff {parts next : UpdateParts} {u : FieldUpdate} :
    parts.add u = .ok next ↔ isPatchable u.target = true ∧
      ∃ xs, Renders u.writes xs ∧ next = xs.foldl put parts := by
  unfold add
  cases hpatchable : isPatchable u.target with
  | false => exact iff_of_false nofun fun h => absurd h.1 Bool.false_ne_true
  | true =>
    rw [if_pos rfl, and_iff_right rfl]
    cases u with
    | set field v => exact exists_put_iff fun _ => rfl
    | push field v => exact exists_put_iff fun _ => rfl
    | pull field v => exact exists_put_iff fun _ => rfl
    | setMatched list ms => exact exists_renderMembers_iff

theorem foldlM_add_eq_ok_iff {next : UpdateParts} : ∀ {us : List FieldUpdate} {parts : UpdateParts},
    us.foldlM add parts = .ok next ↔ (∀ u ∈ us, isPatchable u.target = true) ∧
      ∃ xs, Renders (us.flatMap FieldUpdate.writes) xs ∧ next = xs.foldl put parts
  | [],      parts => by
    constructor
    · intro h
      cases h
      exact ⟨fun _ h => absurd h List.not_mem_nil, [], .nil, rfl⟩
    · rintro ⟨-, _, h, rfl⟩
      cases h
      rfl
  | u :: us, parts => by
    rw [List.foldlM_cons, bind_eq_ok, List.forall_mem_cons, List.flatMap_cons]
    simp only [add_eq_ok_iff, foldlM_add_eq_ok_iff]
    constructor
    · rintro ⟨_, ⟨hu, xs, hxs, rfl⟩, hus, ys, hys, rfl⟩
      exact ⟨⟨hu, hus⟩, xs ++ ys, renders_append_iff.2 ⟨xs, ys, hxs, hys, rfl⟩,
        (List.foldl_append ..).symm⟩
    · rintro ⟨⟨hu, hus⟩, zs, hzs, rfl⟩
      obtain ⟨xs, ys, hxs, hys, rfl⟩ := renders_append_iff.1 hzs
      exact ⟨_, ⟨hu, xs, hxs, rfl⟩, hus, ys, hys, List.foldl_append ..⟩

end UpdateParts

/-! ### The document of a patch -/

/-- The entries under an operator. -/
def Document.under (d : Document) (operator : String) : Document :=
  match d.lookup operator with
  | some (.document entries) => entries
  | _                        => []

namespace UpdateParts

variable (parts : UpdateParts) (now : String)

theorem under_increment : (parts.document now).under "$inc" = [(versionField, .int32 1)] := rfl

theorem under_push : (parts.document now).under "$push" = parts.push := by
  obtain ⟨set, push, pull⟩ := parts
  cases push with
  | nil => cases pull <;> rfl
  | cons e push => rfl

theorem under_pull : (parts.document now).under "$pull" = parts.pull := by
  obtain ⟨set, push, pull⟩ := parts
  cases push <;> cases pull <;> rfl

/-- Beside the time, what is under the operators are the parts. -/
theorem lookup_under {slot : Slot} (h : slot ≠ .stamp) :
    ((parts.document now).under slot.operator.token).lookup slot.key =
      (parts.entries slot.operator).lookup slot.key := by
  obtain ⟨op, key⟩ := slot
  cases op with
  | set =>
    have hkey : key ≠ updatedField := fun hkey => h (hkey ▸ rfl)
    exact Arrival.lookup_put_of_ne hkey (.string now) parts.set
  | push => exact congrArg (·.lookup key) (parts.under_push now)
  | pull => exact congrArg (·.lookup key) (parts.under_pull now)

theorem nodup_under (h : ∀ op, ((parts.entries op).map Prod.fst).Nodup) (op : Operator) :
    (((parts.document now).under op.token).map Prod.fst).Nodup := by
  cases op with
  | set => exact Arrival.nodup_names_put updatedField (.string now) (h .set)
  | push => exact (parts.under_push now).symm ▸ h .push
  | pull => exact (parts.under_pull now).symm ▸ h .pull

theorem operators_document : (parts.document now).map Prod.fst = "$set" :: "$inc" ::
    ([Operator.push, .pull].filter fun op => !(parts.entries op).isEmpty).map Operator.token := by
  obtain ⟨set, push, pull⟩ := parts
  cases push <;> cases pull <;> rfl

end UpdateParts

/-! ### Patches -/

/-- The value of a write is rendered at its place. -/
def Document.Carries (d : Document) (w : Slot × Json) : Prop :=
  ∃ x, w.2.render = .ok x ∧ (d.under w.1.operator.token).lookup w.1.key = some x

namespace Patch

variable {p : Patch} {now : String} {d : Document}

theorem render_eq_ok_iff : p.render now = .ok d ↔
    (∀ u ∈ p.updates, isPatchable u.target = true) ∧
      ∃ xs, Renders p.writes xs ∧ d = (xs.foldl UpdateParts.put {}).document now := by
  rw [render, bind_eq_ok]
  simp only [UpdateParts.foldlM_add_eq_ok_iff]
  constructor
  · rintro ⟨_, ⟨hall, xs, hxs, rfl⟩, h⟩
    cases h
    exact ⟨hall, xs, hxs, rfl⟩
  · rintro ⟨hall, xs, hxs, rfl⟩
    exact ⟨_, ⟨hall, xs, hxs, rfl⟩, rfl⟩

/-- A patch is rendered when its fields may be written and its values have a place in documents. -/
theorem exists_render_iff : (∃ d, p.render now = .ok d) ↔
    (∀ u ∈ p.updates, isPatchable u.target = true) ∧ ∀ w ∈ p.writes, ∃ x, w.2.render = .ok x := by
  rw [← exists_renders_iff]
  constructor
  · rintro ⟨d, h⟩
    obtain ⟨hall, xs, hxs, -⟩ := render_eq_ok_iff.1 h
    exact ⟨hall, xs, hxs⟩
  · rintro ⟨hall, xs, hxs⟩
    exact ⟨_, render_eq_ok_iff.2 ⟨hall, xs, hxs, rfl⟩⟩

/-- A write, with what is written to its slot later on. -/
theorem lookup_reverse_writes {before after : List (Slot × Json)} {w : Slot × Json}
    (h : p.writes = before ++ w :: after) :
    p.writes.reverse.lookup w.1 = some ((after.reverse.lookup w.1).getD w.2) := by
  rw [h, List.reverse_append, List.reverse_cons, List.lookup_append, List.lookup_append,
    List.lookup_cons, beq_self_eq_true]
  cases after.reverse.lookup w.1 <;> rfl

/-- What the document of a patch consists of: the increment of the version, the time, and under each
other slot the last of the writes to it. A write is carried unless the last one after it to its slot
is rendered as something else. -/
structure RenderedAs (p : Patch) (now : String) (d : Document) : Prop where
  operators : d.map Prod.fst = "$set" :: "$inc" :: ([Operator.push, .pull].filter fun op =>
    (p.writes.map Prod.fst).any (·.operator == op)).map Operator.token
  increment : d.under "$inc" = [(versionField, .int32 1)]
  stamped : (d.under "$set").lookup updatedField = some (.string now)
  entries : ∀ slot, slot ≠ .stamp → (d.under slot.operator.token).lookup slot.key =
    (p.writes.reverse.lookup slot).bind DocValue.ofJson?
  distinct : ∀ op : Operator, ((d.under op.token).map Prod.fst).Nodup
  carries_iff : ∀ before w after, p.writes = before ++ w :: after → w.1 ≠ .stamp →
    (d.Carries w ↔ ∀ v, after.reverse.lookup w.1 = some v → v.render = w.2.render)

/-- A rendered patch loses a write to a later one under the same operator and key, and not else. -/
theorem renderedAs_of_render (h : p.render now = .ok d) : p.RenderedAs now d := by
  obtain ⟨-, xs, hxs, rfl⟩ := render_eq_ok_iff.1 h
  have hempty : ∀ op, ({} : UpdateParts).entries op = [] := fun op => by cases op <;> rfl
  have hentries : ∀ slot, slot ≠ Slot.stamp →
      (((xs.foldl UpdateParts.put {}).document now).under slot.operator.token).lookup slot.key =
        (p.writes.reverse.lookup slot).bind DocValue.ofJson? := by
    intro slot hslot
    have hlast : Renders p.writes.reverse xs.reverse := List.rel_reverse hxs
    rw [UpdateParts.lookup_under _ now hslot, UpdateParts.lookup_foldl_put, hlast.lookup, hempty,
      List.lookup_nil, Option.or_none]
  refine ⟨?_, UpdateParts.under_increment _ now, ?_, hentries, ?_, ?_⟩
  · rw [UpdateParts.operators_document]
    simp only [UpdateParts.isEmpty_foldl_put, hempty, List.isEmpty_nil, Bool.true_and,
      Bool.not_not, hxs.slots]
  · exact Arrival.lookup_put_self updatedField (DocValue.string now) _
  · refine UpdateParts.nodup_under _ now fun op => UpdateParts.nodup_foldl_put op xs ?_
    rw [hempty]
    exact List.nodup_nil
  · intro before w after hwrites hw
    have hall := exists_renders_iff.1 ⟨xs, hxs⟩
    rw [Document.Carries, hentries w.1 hw, lookup_reverse_writes hwrites, Option.bind_some]
    cases hlater : after.reverse.lookup w.1 with
    | none =>
      obtain ⟨x, hx⟩ := hall w (hwrites ▸ List.mem_append_right _ List.mem_cons_self)
      exact iff_of_true ⟨x, hx, Json.render_eq_ok_iff.1 hx⟩ nofun
    | some v =>
      have hv : (w.1, v) ∈ p.writes := by
        obtain ⟨_, _, hafter, -⟩ := List.lookup_eq_some_iff.1 hlater
        have hin : (w.1, v) ∈ after.reverse := hafter ▸ List.mem_append_right _ List.mem_cons_self
        rw [hwrites]
        exact List.mem_append_right _ (List.mem_cons_of_mem _ (List.mem_reverse.1 hin))
      obtain ⟨y, hy⟩ := hall _ hv
      rw [Option.getD_some, Json.render_eq_ok_iff.1 hy]
      constructor
      · rintro ⟨x, hx, hsame⟩ u hu
        cases hu
        cases hsame
        rw [hx]
        exact hy
      · intro hsame
        exact ⟨y, hsame v rfl ▸ hy, rfl⟩

/-- Updates of five kinds, of which one is lost. -/
theorem renderedAs_mixed :
    let p : Patch := ⟨[.set "title" (.string "a"), .push "tags" (.string "a"),
      .setMatched "ratings" [("comment", .null), ("star", .int 4)], .pull "likes" (.string "u"),
      .set "title" (.string "b"), .push "colors" (.string "red")]⟩
    ∃ d, p.render "noon" = .ok d ∧ p.RenderedAs "noon" d := by
  intro p
  exact ⟨_, rfl, renderedAs_of_render rfl⟩

/-- Of two pushes to one list only the second is in the document; a record gets both. -/
theorem second_push_in_place_of_first :
    let p : Patch := ⟨[.push "tags" (.string "a"), .push "tags" (.string "b")]⟩
    let r : Record := ⟨.uniform 1, []⟩
    (∃ d, p.render "noon" = .ok d ∧ d.under "$push" = [("tags", .string "b")] ∧
      ¬ d.Carries (⟨.push, "tags"⟩, .string "a")) ∧
      p.applied none r = .ok ⟨.uniform 1, [("tags", .array [.string "a", .string "b"])]⟩ := by
  intro p r
  refine ⟨⟨_, rfl, rfl, ?_⟩, rfl⟩
  rintro ⟨x, hx, hentry⟩
  cases hx
  exact absurd (DocValue.string.inj (Option.some.inj hentry)) (by decide)

end Patch

end Shelf
