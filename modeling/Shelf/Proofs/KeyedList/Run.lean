import Shelf.Proofs.Json.Equality
import Shelf.Proofs.Json.Members
import Shelf.Proofs.KeyedList
import Shelf.Proofs.Uuid

/-!
Writes to a keyed list in sequence.

Writes that start from an empty list make a map: one entry for each key, in the order in which the
keys were first used, with the key as it was first used and all payloads given for it; where two of
them name one field, the later one wins. Keys are the same when they are equal as JSON objects, so
`1` and `1.0` are two keys, and `0.0` and `-0.0` are one.

    write    {k: 0.0} {a: 1}          [{k: 0.0, a: 1}]
    write    {k: 1}   {a: 2}          [{k: 0.0, a: 1}, {k: 1, a: 2}]
    write    {k: -0.0} {a: 3, b: 4}   [{k: 0.0, a: 3, b: 4}, {k: 1, a: 2}]
-/

namespace Shelf

/-! ### Keys -/

/-- Whether two keys are the same. -/
def sameKey (a b : Fields) : Bool := Json.beq (.object a) (.object b)

theorem sameKey_comm (a b : Fields) : sameKey a b = sameKey b a := Json.beq_comm (.object a) _

theorem sameKey_trans {a b c : Fields} (hab : sameKey a b = true) (hbc : sameKey b c = true) :
    sameKey a c = true :=
  Json.beq_trans (.object a) (.object b) (.object c) hab hbc

theorem sameKey_self {a : Fields} (h : Json.membersFinite a = true) : sameKey a a = true :=
  Json.beq_self (.object a) h

/-- The different keys, each as it is used first, in the order of first use. -/
def firstUses : List Fields → List Fields
  | []          => []
  | key :: keys => key :: (firstUses keys).filter (!sameKey key ·)

theorem sublist_firstUses : ∀ keys : List Fields, (firstUses keys).Sublist keys
  | []          => .slnil
  | _ :: keys => (List.filter_sublist.trans (sublist_firstUses keys)).cons_cons _

theorem pairwise_firstUses : ∀ keys : List Fields,
    (firstUses keys).Pairwise fun a b => sameKey a b = false
  | []          => .nil
  | key :: keys => by
    refine .cons (fun k hk => ?_) ((pairwise_firstUses keys).filter _)
    simpa using (List.mem_filter.1 hk).2

/-- Every key is the same as one that is used first. -/
theorem exists_firstUse {key : Fields} (hself : sameKey key key = true) : ∀ {keys : List Fields},
    key ∈ keys → ∃ k ∈ firstUses keys, sameKey k key = true
  | k :: keys, h => by
    cases hk : sameKey k key with
    | true => exact ⟨k, List.mem_cons_self, hk⟩
    | false =>
      have hrest : key ∈ keys := by
        refine (List.mem_cons.1 h).resolve_left ?_
        rintro rfl
        rw [hself] at hk
        cases hk
      obtain ⟨j, hj, hsame⟩ := exists_firstUse hself hrest
      refine ⟨j, List.mem_cons_of_mem _ (List.mem_filter.2 ⟨hj, ?_⟩), hsame⟩
      cases hkj : sameKey k j with
      | false => rfl
      | true => rw [sameKey_trans hkj hsame] at hk; cases hk

/-- One more key is a first use unless it is the same as one before it. -/
theorem firstUses_concat (key : Fields) : ∀ keys : List Fields, firstUses (keys ++ [key]) =
    if (firstUses keys).any (sameKey · key) then firstUses keys else firstUses keys ++ [key]
  | []        => rfl
  | k :: keys => by
    rw [List.cons_append, firstUses, firstUses_concat key keys, firstUses, List.any_cons]
    cases hk : sameKey k key with
    | true =>
      rw [Bool.true_or, if_pos rfl]
      split
      · rfl
      · rw [List.filter_append, List.filter_cons_of_neg (by simp [hk]), List.filter_nil,
          List.append_nil]
    | false =>
      have hany : ((firstUses keys).filter (!sameKey k ·)).any (sameKey · key) =
          (firstUses keys).any (sameKey · key) := by
        rw [List.any_filter]
        refine List.any_congr rfl fun j => ?_
        cases hkj : sameKey k j with
        | false => rfl
        | true =>
          cases hj : sameKey j key with
          | false => rfl
          | true => rw [sameKey_trans hkj hj] at hk; cases hk
      rw [Bool.false_or, hany]
      split
      · rfl
      · rw [List.filter_append, List.filter_cons_of_pos (by simp [hk]), List.filter_nil,
          List.cons_append]

/-! ### Payloads -/

/-- The payloads given for a key, in order. -/
def payloadsFor (key : Fields) (writes : List (Fields × Fields)) : List Fields :=
  (writes.filter (sameKey key ·.1)).map Prod.snd

theorem payloadsFor_concat (k : Fields) (writes : List (Fields × Fields)) (key payload : Fields) :
    payloadsFor k (writes ++ [(key, payload)]) =
      payloadsFor k writes ++ if sameKey k key then [payload] else [] := by
  rw [payloadsFor, List.filter_append, List.map_append, payloadsFor, List.append_cancel_left_eq]
  cases hk : sameKey k key with
  | false => rw [List.filter_cons_of_neg (by simp [hk])]; rfl
  | true => rw [List.filter_cons_of_pos (by exact hk)]; rfl

/-- An entry that consists of a key and of payloads: the members of the key as they are, and those
of the payloads with the value that is given last. -/
structure Merges (key : Fields) (payloads : List Fields) (entry : Fields) : Prop where
  sorted : entry.Sorted
  own : ∀ name ∈ key.names, entry.get? name = key.get? name
  given : ∀ name, name ∉ key.names →
    entry.get? name = payloads.reverse.findSome? (·.get? name)

/-- A key with payloads written over it in order. -/
def merged (key : Fields) (payloads : List Fields) : Fields := payloads.foldl Fields.override key

theorem merged_concat (key : Fields) (payloads : List Fields) (payload : Fields) :
    merged key (payloads ++ [payload]) = (merged key payloads).override payload := by
  rw [merged, List.foldl_append]
  rfl

theorem merges_merged {key : Fields} (hkey : key.Sorted) {payloads : List Fields}
    (h : ∀ p ∈ payloads, p.Sorted ∧ ∀ name ∈ p.names, name ∉ key.names) :
    Merges key payloads (merged key payloads) := by
  induction payloads using List.reverseRecOn with
  | nil => exact ⟨hkey, fun _ _ => rfl, fun _ hname => Fields.get?_eq_none_iff.2 hname⟩
  | append_singleton payloads p ih =>
    obtain ⟨hsorted, hapart⟩ := h p (List.mem_append_right _ (List.mem_singleton.2 rfl))
    have hentry := ih fun q hq => h q (List.mem_append_left _ hq)
    rw [merged_concat]
    refine ⟨hentry.sorted.override p, fun name hname => ?_, fun name hname => ?_⟩
    · rw [Fields.get?_override_of_not_mem hsorted fun hin => hapart name hin hname]
      exact hentry.own name hname
    · rw [Fields.get?_override hsorted, hentry.given name hname, List.reverse_append,
        List.findSome?_append, List.reverse_singleton, List.findSome?_singleton]

namespace KeyedList

variable {l : KeyedList}

/-! ### What fits a list -/

theorem check_eq_ok_iff {key payload : Fields} : l.check key payload = .ok () ↔
    (∀ field ∈ l.keyFields, lacks key field = false) ∧ (∀ m ∈ key, m.1 ∈ l.keyFields) ∧
      ∀ m ∈ payload, m.1 ∉ l.keyFields := by
  rw [check]
  cases hfield : l.keyFields.find? (lacks key) with
  | some field =>
    refine iff_of_false nofun fun h => ?_
    have hlacks := List.find?_some hfield
    rw [h.1 field (List.mem_of_find?_eq_some hfield)] at hlacks
    cases hlacks
  | none =>
    rw [and_iff_right fun field hin => by simpa using List.find?_eq_none.1 hfield field hin]
    cases hextra : key.find? (!l.keyFields.contains ·.1) with
    | some extra =>
      refine iff_of_false nofun fun h => ?_
      have hforeign := List.find?_some hextra
      have hin := h.1 extra (List.mem_of_find?_eq_some hextra)
      simp [hin] at hforeign
    | none =>
      rw [and_iff_right fun m hm => by simpa using List.find?_eq_none.1 hextra m hm]
      cases hclash : payload.find? (l.keyFields.contains ·.1) with
      | some clash =>
        refine iff_of_false nofun fun h => ?_
        have hin := List.find?_some hclash
        exact h clash (List.mem_of_find?_eq_some hclash) (by simpa using hin)
      | none =>
        exact iff_of_true rfl fun m hm => by simpa using List.find?_eq_none.1 hclash m hm

/-- A write that the list accepts, of a key and a payload that are JSON objects. -/
structure Fits (l : KeyedList) (write : Fields × Fields) : Prop where
  accepted : l.check write.1 write.2 = .ok ()
  key : write.1.Sorted
  finite : Json.membersFinite write.1 = true
  payload : write.2.Sorted

/-- A key that fits names the key fields. -/
theorem Fits.mem_names_iff {write : Fields × Fields} (h : l.Fits write) (name : String) :
    name ∈ write.1.names ↔ name ∈ l.keyFields := by
  obtain ⟨hpresent, hknown, -⟩ := check_eq_ok_iff.1 h.accepted
  constructor
  · intro hname
    obtain ⟨m, hm, rfl⟩ := List.mem_map.1 hname
    exact hknown m hm
  · intro hname
    have hlacks := hpresent name hname
    by_contra hnot
    rw [lacks, Fields.get?_eq_none_iff.2 hnot] at hlacks
    cases hlacks

/-- Keys that fit have the same names. -/
theorem Fits.names_eq {write other : Fields × Fields} (h : l.Fits write) (h' : l.Fits other) :
    write.1.names = other.1.names :=
  h.key.names_eq h'.key fun name => (h.mem_names_iff name).trans (h'.mem_names_iff name).symm

/-- A payload that fits leaves every key alone. -/
theorem Fits.apart {write other : Fields × Fields} (h : l.Fits write) (h' : l.Fits other) :
    ∀ name ∈ write.2.names, name ∉ other.1.names := by
  intro name hname hin
  obtain ⟨m, hm, rfl⟩ := List.mem_map.1 hname
  exact (check_eq_ok_iff.1 h.accepted).2.2 m hm ((h'.mem_names_iff m.1).1 hin)

/-! ### The entries that writes leave -/

section entries

variable {writes : List (Fields × Fields)}

/-- The entry of a key. -/
def entry (writes : List (Fields × Fields)) (key : Fields) : Fields :=
  merged key (payloadsFor key writes)

/-- The list that writes make of an empty one. -/
def entries (writes : List (Fields × Fields)) : List Json :=
  (firstUses (writes.map Prod.fst)).map fun key => .object (entry writes key)

/-- The key of a first use is that of a write. -/
theorem exists_write_of_firstUse {key : Fields} (h : key ∈ firstUses (writes.map Prod.fst)) :
    ∃ write ∈ writes, write.1 = key :=
  List.mem_map.1 ((sublist_firstUses _).subset h)

theorem merges_entry (h : ∀ write ∈ writes, l.Fits write) {key : Fields}
    (hkey : key ∈ firstUses (writes.map Prod.fst)) :
    Merges key (payloadsFor key writes) (entry writes key) := by
  obtain ⟨own, hown, rfl⟩ := exists_write_of_firstUse hkey
  refine merges_merged (h own hown).key fun p hp => ?_
  obtain ⟨write, hwrite, rfl⟩ := List.mem_map.1 hp
  have hfits := h write (List.mem_of_mem_filter hwrite)
  exact ⟨hfits.payload, hfits.apart (h own hown)⟩

/-- An entry carries a key when its own is the same. -/
theorem carries_entry (h : ∀ write ∈ writes, l.Fits write) {k : Fields}
    (hk : k ∈ firstUses (writes.map Prod.fst)) {write : Fields × Fields} (hwrite : l.Fits write) :
    (entry writes k).carries write.1 = sameKey k write.1 := by
  have hmerges := merges_entry h hk
  obtain ⟨own, hown, rfl⟩ := exists_write_of_firstUse hk
  have hnames := (h own hown).names_eq hwrite
  rw [Fields.carries_congr fun name hname => hmerges.own name (hnames ▸ hname)]
  exact Fields.carries_eq_beq (h own hown).key.nodup_names hnames

/-- A write under another key leaves an entry alone. -/
theorem entry_concat_of_not_same {k key : Fields} (h : sameKey k key = false) (payload : Fields) :
    entry (writes ++ [(key, payload)]) k = entry writes k := by
  rw [entry, payloadsFor_concat, h, if_neg Bool.false_ne_true, List.append_nil, entry]

theorem entry_concat_of_same {k key : Fields} (h : sameKey k key = true) (payload : Fields) :
    entry (writes ++ [(key, payload)]) k = (entry writes k).override payload := by
  rw [entry, payloadsFor_concat, h, if_pos rfl, merged_concat, entry]

/-- A write under a key that is in use changes the entry of that key. -/
theorem upserted_of_any {key payload : Fields} : ∀ {ks : List Fields},
    ks.Pairwise (fun a b => sameKey a b = false) →
    (∀ k ∈ ks, (entry writes k).carries key = sameKey k key) → ks.any (sameKey · key) = true →
      upserted key payload (ks.map fun k => .object (entry writes k)) =
        ks.map fun k => .object (entry (writes ++ [(key, payload)]) k)
  | k :: ks, hdistinct, hcarries, hany => by
    obtain ⟨hfirst, hrest⟩ := List.pairwise_cons.1 hdistinct
    rw [List.map_cons, List.map_cons, upserted, hcarries k List.mem_cons_self]
    cases hk : sameKey k key with
    | true =>
      -- No other key is the same as this one.
      have hothers : ∀ j ∈ ks, sameKey j key = false := by
        intro j hj
        cases hjk : sameKey j key with
        | false => rfl
        | true =>
          rw [sameKey_comm] at hjk
          have hkj := hfirst j hj
          rw [sameKey_trans hk hjk] at hkj
          cases hkj
      rw [if_pos rfl, entry_concat_of_same hk, List.cons.injEq, eq_self, true_and]
      exact List.map_congr_left fun j hj => by rw [entry_concat_of_not_same (hothers j hj)]
    | false =>
      rw [List.any_cons, hk, Bool.false_or] at hany
      rw [if_neg Bool.false_ne_true, entry_concat_of_not_same hk,
        upserted_of_any hrest (fun j hj => hcarries j (List.mem_cons_of_mem _ hj)) hany]

/-- One more write to the list that writes have made. -/
theorem upserted_entries (h : ∀ write ∈ writes, l.Fits write) {write : Fields × Fields}
    (hwrite : l.Fits write) :
    upserted write.1 write.2 (entries writes) = entries (writes ++ [write]) := by
  have hcarries : ∀ k ∈ firstUses (writes.map Prod.fst),
      (entry writes k).carries write.1 = sameKey k write.1 := fun k hk => carries_entry h hk hwrite
  rw [entries, entries, List.map_append, List.map_singleton, firstUses_concat]
  cases hany : (firstUses (writes.map Prod.fst)).any (sameKey · write.1) with
  | true => exact upserted_of_any (pairwise_firstUses _) hcarries hany
  | false =>
    have hnone : ∀ k ∈ firstUses (writes.map Prod.fst), sameKey k write.1 = false := by
      intro k hk
      simpa using List.any_eq_false.1 hany k hk
    have hunused : payloadsFor write.1 writes = [] := by
      rw [payloadsFor, List.map_eq_nil_iff, List.filter_eq_nil_iff]
      intro other hother hsame
      obtain ⟨k, hk, hkother⟩ := exists_firstUse (sameKey_self (h other hother).finite)
        (List.mem_map_of_mem hother)
      rw [sameKey_comm] at hsame
      have hdiffers := hnone k hk
      rw [sameKey_trans hkother hsame] at hdiffers
      cases hdiffers
    have hnew : entry (writes ++ [write]) write.1 = write.1.override write.2 := by
      rw [entry_concat_of_same (sameKey_self hwrite.finite), entry, hunused]
      rfl
    rw [upserted_of_not_any, if_neg Bool.false_ne_true, List.map_append, List.map_singleton, hnew]
    · refine congrArg (· ++ _) (List.map_congr_left fun k hk => ?_)
      rw [entry_concat_of_not_same (hnone k hk)]
    · rw [List.any_map, List.any_eq_false]
      intro k hk
      change ¬(entry writes k).carries write.1 = true
      rw [hcarries k hk, hnone k hk]
      exact Bool.false_ne_true

end entries

/-! ### Writes in sequence -/

/-- Writes in order. -/
def run (l : KeyedList) : Record → List (Fields × Fields) → Except Error Record
  | r, []                         => .ok r
  | r, (key, payload) :: writes => do l.run (← l.apply r key payload) writes

/-- Writes that go on from others. -/
theorem exists_run (hpatchable : isPatchable l.field = true) :
    ∀ {writes done : List (Fields × Fields)} {r : Record},
      (∀ write ∈ done ++ writes, l.Fits write) → r.list l.field = .ok (entries done) → ∃ w,
        l.run r writes = .ok w ∧ w.list l.field = .ok (entries (done ++ writes)) ∧
          r.Agrees [l.field] w
  | [],                       done, r, _, hr => ⟨r, rfl, by rw [List.append_nil, hr], .refl _ r⟩
  | (key, payload) :: writes, done, r, h, hr => by
    have hdone : ∀ write ∈ done, l.Fits write := fun write hin =>
      h write (List.mem_append_left _ hin)
    have hwrite : l.Fits (key, payload) := h _ (List.mem_append_right _ List.mem_cons_self)
    have happly := apply_of_check hwrite.accepted hpatchable hr
    rw [upserted_entries hdone hwrite] at happly
    rw [List.append_cons] at h ⊢
    obtain ⟨w, hrun, hw, hagrees⟩ := exists_run hpatchable h (Record.list_set_self r l.field _)
    refine ⟨w, ?_, hw, (Record.Agrees.set r l.field _).trans hagrees⟩
    rw [run, happly]
    exact hrun

/-- A record in which a list has become the map of some writes. -/
structure LastWriteWins (l : KeyedList) (writes : List (Fields × Fields)) (r w : Record)
    (entries : List Fields) : Prop where
  list : w.list l.field = .ok (entries.map .object)
  merged : List.Forall₂ (fun key entry => Merges key (payloadsFor key writes) entry)
    (firstUses (writes.map Prod.fst)) entries
  ordered : (firstUses (writes.map Prod.fst)).Sublist (writes.map Prod.fst)
  distinct : (firstUses (writes.map Prod.fst)).Pairwise fun a b => sameKey a b = false
  used : ∀ write ∈ writes, ∃ key ∈ firstUses (writes.map Prod.fst), sameKey key write.1 = true
  agrees : r.Agrees [l.field] w

/-- Writes to an empty list succeed, and the list is then the map that they make. -/
theorem exists_lastWriteWins (l : KeyedList) (hid : l.field ≠ idField)
    (hversion : l.field ≠ versionField) (r : Record)
    (hempty : Record.ReadsAsList (r.fields.get? l.field) []) (writes : List (Fields × Fields))
    (h : ∀ write ∈ writes, l.Fits write) :
    ∃ w entries, l.run r writes = .ok w ∧ l.LastWriteWins writes r w entries := by
  have hpatchable : isPatchable l.field = true := by
    rw [isPatchable, bne_iff_ne.2 hid, bne_iff_ne.2 hversion]
    rfl
  have hstart : r.list l.field = .ok (entries []) := Record.list_eq_ok_iff.2 hempty
  obtain ⟨w, hrun, hw, hagrees⟩ := exists_run hpatchable h hstart
  refine ⟨w, (firstUses (writes.map Prod.fst)).map (entry writes), hrun, ?_, ?_,
    sublist_firstUses _, pairwise_firstUses _, fun write hwrite => ?_, hagrees⟩
  · rw [hw, List.map_map]
    rfl
  · rw [List.forall₂_map_right_iff, List.forall₂_same]
    exact fun key hkey => merges_entry h hkey
  · exact exists_firstUse (sameKey_self (h write hwrite).finite) (List.mem_map_of_mem hwrite)

/-- Two zeros are one key; the integer and the float of one value are two. -/
theorem lastWriteWins_zeros_and_ones :
    let l : KeyedList := ⟨"lines", ["k"]⟩
    let r : Record := ⟨.uniform 1, [("lines", .null), ("title", .string "t")]⟩
    let writes : List (Fields × Fields) :=
      [([("k", .number (.real 0.0))], [("n", .int 1)]), ([("k", .int 1)], []),
        ([("k", .number (.real (-0.0)))], [("m", .int 2), ("n", .int 3)]),
        ([("k", .number (.real 1.0))], [("n", .int 4)])]
    (l.field ≠ idField ∧ l.field ≠ versionField) ∧
      Record.ReadsAsList (r.fields.get? l.field) [] ∧ (∀ write ∈ writes, l.Fits write) ∧
        firstUses (writes.map Prod.fst) =
          [[("k", .number (.real 0.0))], [("k", .int 1)], [("k", .number (.real 1.0))]] ∧
          ∃ w entries, l.run r writes = .ok w ∧ l.LastWriteWins writes r w entries := by
  intro l r writes
  have hfits : ∀ write ∈ writes, l.Fits write := by
    intro write hwrite
    simp only [writes, List.mem_cons, List.not_mem_nil, or_false] at hwrite
    rcases hwrite with rfl | rfl | rfl | rfl
    · exact ⟨rfl, by decide, by decide, by decide⟩
    · exact ⟨rfl, by decide, by decide, by decide⟩
    · exact ⟨rfl, by decide, by decide, by decide⟩
    · exact ⟨rfl, by decide, by decide, by decide⟩
  have hempty : Record.ReadsAsList (r.fields.get? l.field) [] := .null
  have hid : l.field ≠ idField := by decide
  have hversion : l.field ≠ versionField := by decide
  exact ⟨⟨hid, hversion⟩, hempty, hfits, rfl,
    exists_lastWriteWins l hid hversion r hempty writes hfits⟩

end KeyedList

end Shelf
