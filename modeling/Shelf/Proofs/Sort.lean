import Shelf.Plan
import Shelf.Proofs.Distinct
import Shelf.Proofs.Filter.FromParams

/-!
What a sort order is made of.

A sort text is accepted when each of its entries is a plain token behind one `-` at most. Of keys
with one field the first counts, so no field comes twice. Every key of a compiled sort order names a
plain token that the collection can be sorted by.
-/

namespace Shelf

namespace SortSpec

/-- The key that an entry spells, before it is checked. -/
def spelled : List Char → SortKey
  | '-' :: cs => ⟨String.ofList cs, .desc⟩
  | cs        => ⟨String.ofList cs, .asc⟩

/-- The keys that a sort text spells. -/
def spelledKeys (raw : String) : List SortKey := (Text.entries raw).map spelled

theorem readKey_eq (cs : List Char) :
    readKey cs = (do checkToken (spelled cs).field; return spelled cs) := by
  unfold readKey
  split
  · rfl
  · next hsign =>
    have hspelled : spelled cs = ⟨String.ofList cs, .asc⟩ := by
      unfold spelled
      split
      · next cs => exact absurd rfl (hsign cs)
      · rfl
    rw [hspelled]

theorem readKey_eq_ok_iff {cs : List Char} {k : SortKey} :
    readKey cs = .ok k ↔ Text.isPlainToken (spelled cs).field = true ∧ k = spelled cs := by
  rw [readKey_eq, bind_eq_ok]
  constructor
  · rintro ⟨_, hplain, h⟩
    cases h
    exact ⟨checkToken_eq_ok.1 hplain, rfl⟩
  · rintro ⟨hplain, rfl⟩
    exact ⟨(), checkToken_eq_ok.2 hplain, rfl⟩

/-- A text is accepted when every key that it spells is a plain token. -/
theorem read_eq_ok_iff {raw : String} {s : SortSpec} :
    read raw = .ok s ↔
      (∀ k ∈ spelledKeys raw, Text.isPlainToken k.field = true) ∧
        s = (spelledKeys raw).foldl addKey {} := by
  rw [read, mapM_bind_eq_ok_iff fun _ _ _ => readKey_eq_ok_iff, spelledKeys, List.forall_mem_map]
  exact and_congr_right fun _ => ok_eq_ok_iff

/-! ### The first key of each field -/

/-- The fields of a row of keys in order of first occurrence, each with the direction in which it
comes first. -/
structure FirstOfEach (row keys : List SortKey) : Prop where
  fields : keys.map SortKey.field = (row.map SortKey.field).eraseDups
  distinct : (keys.map SortKey.field).Nodup
  first : ∀ k ∈ keys, row.find? (·.field = k.field) = some k

theorem any_field_iff {keys : List SortKey} {field : String} :
    keys.any (·.field = field) = true ↔ field ∈ keys.map SortKey.field := by
  simp [List.any_eq_true]

theorem FirstOfEach.addKey {row : List SortKey} {s : SortSpec} (h : FirstOfEach row s.keys)
    (k : SortKey) : FirstOfEach (row ++ [k]) (s.addKey k).keys := by
  have hmem : s.keys.any (·.field = k.field) = true ↔ k.field ∈ row.map SortKey.field := by
    rw [any_field_iff, h.fields, List.mem_eraseDups]
  have hold : ∀ l ∈ s.keys, (row ++ [k]).find? (·.field = l.field) = some l := by
    intro l hl
    rw [List.find?_append, h.first l hl, Option.some_or]
  rw [SortSpec.addKey]
  by_cases hk : k.field ∈ row.map SortKey.field
  · rw [if_pos (hmem.2 hk)]
    refine ⟨?_, h.distinct, hold⟩
    rw [List.map_append, List.map_singleton, eraseDups_concat, if_pos hk, h.fields]
  · rw [if_neg (mt hmem.1 hk)]
    have hfields : (s.keys ++ [k]).map SortKey.field =
        ((row ++ [k]).map SortKey.field).eraseDups := by
      rw [List.map_append, List.map_append, List.map_singleton, eraseDups_concat, if_neg hk,
        h.fields]
    refine ⟨hfields, hfields ▸ nodup_eraseDups _, fun l hl => ?_⟩
    rcases List.mem_append.1 hl with hl | hl
    · exact hold l hl
    · obtain rfl := List.mem_singleton.1 hl
      have hnone : row.find? (·.field = l.field) = none := by
        refine List.find?_eq_none.2 fun j hj => ?_
        rw [decide_eq_true_iff]
        exact fun hfield => hk (List.mem_map.2 ⟨j, hj, hfield⟩)
      rw [List.find?_append, hnone, Option.none_or, List.find?_singleton, decide_eq_true rfl,
        if_pos rfl]

theorem firstOfEach_foldl (row : List SortKey) : FirstOfEach row (row.foldl addKey {}).keys := by
  induction row using List.reverseRecOn with
  | nil => exact ⟨rfl, List.nodup_nil, fun _ hk => absurd hk List.not_mem_nil⟩
  | append_singleton row k ih =>
    rw [List.foldl_concat]
    exact ih.addKey k

/-- Keys without a field in common are all first. -/
theorem foldl_addKey_of_distinct : ∀ {ks : List SortKey} {s : SortSpec},
    ((s.keys ++ ks).map SortKey.field).Nodup → ks.foldl addKey s = ⟨s.keys ++ ks⟩
  | [],      s, _ => by rw [List.foldl_nil, List.append_nil]
  | k :: ks, s, h => by
    have hsplit : s.keys ++ k :: ks = (s.keys ++ [k]) ++ ks := List.append_cons ..
    have hnew : ¬ s.keys.any (·.field = k.field) = true := by
      rw [any_field_iff]
      rw [List.map_append, List.map_cons, List.nodup_append] at h
      exact fun hk => h.2.2 _ hk _ List.mem_cons_self rfl
    rw [hsplit] at h ⊢
    rw [List.foldl_cons, SortSpec.addKey, if_neg hnew]
    exact foldl_addKey_of_distinct h

theorem firstOfEach_of_read {raw : String} {s : SortSpec} (h : read raw = .ok s) :
    FirstOfEach (spelledKeys raw) s.keys := by
  rw [(read_eq_ok_iff.1 h).2]
  exact firstOfEach_foldl _

example : read " price,, -title ,-price" = .ok ⟨[⟨"price", .asc⟩, ⟨"title", .desc⟩]⟩ := by rfl

theorem plain_of_read {raw : String} {s : SortSpec} (h : read raw = .ok s) :
    ∀ k ∈ s.keys, Text.isPlainToken k.field = true := by
  intro k hk
  have hmem := List.mem_of_find?_eq_some ((firstOfEach_of_read h).first k hk)
  exact (read_eq_ok_iff.1 h).1 k hmem

/-! ### Fields that can be sorted by -/

theorem sortable_of_checkAllowed {s : SortSpec} {c : Collection} {u : Unit}
    (h : s.checkAllowed c = .ok u) : ∀ k ∈ s.keys, c.isSortable k.field = true := by
  rw [checkAllowed] at h
  split at h
  · cases h
  · next hnone =>
    intro k hk
    have hk := List.find?_eq_none.1 hnone k hk
    simpa using hk

end SortSpec

/-- Every key of a compiled sort order was checked. -/
theorem QueryPlan.checked_of_sortOf {c : Collection} {p : Params} {s : SortSpec}
    (h : sortOf c p = .ok s) :
    ∀ k ∈ s.keys, Text.isPlainToken k.field = true ∧ c.isSortable k.field = true := by
  intro k hk
  rw [sortOf] at h
  split at h
  · obtain ⟨t, hread, h⟩ := bind_eq_ok.1 h
    obtain ⟨_, hallowed, h⟩ := bind_eq_ok.1 h
    cases h
    exact ⟨SortSpec.plain_of_read hread k hk, SortSpec.sortable_of_checkAllowed hallowed k hk⟩
  · cases h
    exact absurd hk List.not_mem_nil

end Shelf
