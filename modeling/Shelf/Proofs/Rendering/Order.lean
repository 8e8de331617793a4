import Shelf.Proofs.Order.Records
import Shelf.Proofs.Rendering.Keys
import Shelf.Proofs.Uuid

/-!
What a rendered sort order does to records.

A sort order is rendered key by key, each under its stored name with one or minus one, and a
document that does not name the identifier gets it as a last key. Read like this, the document
agrees with the order wherever the order tells two records apart, and it tells apart any two records
that have different identifiers. Keys that are all different make it so: no entry is written in the
place of another one.

    sort=-price,title    { price: -1, title: 1, _id: 1 }
    sort=brand,-id       { brand: 1, _id: -1 }
    no sort              { }
-/

namespace Shelf

/-! ### Orders of the database -/

/-- The value of a record under a name in a document: the identifier's text under its stored name,
and what any other name leads to in the fields. -/
def Record.storedValue? (r : Record) (name : String) : Option Json :=
  if name = storedId then some (.string r.id.text) else r.get? name

/-- An ordering as a mark in a document turns it: one leaves it, minus one turns it round. -/
def DocValue.orient : DocValue → Ordering → Ordering
  | .int32 1,    o => o
  | .int32 (-1), o => o.swap
  | _,           _ => .eq

/-- Order of records by one entry of a document. -/
def orderByEntry (e : String × DocValue) (a b : Record) : Ordering :=
  e.2.orient (orderOptional (a.storedValue? e.1) (b.storedValue? e.1))

/-- Order of records along a document, the first difference deciding. -/
def Document.order (d : Document) (a b : Record) : Ordering :=
  d.foldr (fun e rest => (orderByEntry e a b).then rest) .eq

theorem Document.order_append (d e : Document) (a b : Record) :
    Document.order (d ++ e) a b = (d.order a b).then (e.order a b) := by
  induction d with
  | nil => exact Ordering.eq_then.symm
  | cons x d ih =>
    change (orderByEntry x a b).then (Document.order (d ++ e) a b) = _
    rw [ih, ← Ordering.then_assoc]
    rfl

/-- The entry of a key. -/
def SortKey.entry (k : SortKey) : String × DocValue := (storedName k.field, k.direction.sign)

/-- The last entry of a document that does not name the identifier. -/
def identifierEntry : String × DocValue := (storedId, .int32 1)

/-! ### Keys and entries -/

theorem Direction.orient_sign (d : Direction) (o : Ordering) : d.sign.orient o = d.orient o := by
  cases d <;> rfl

theorem Direction.orient_eq_iff {d : Direction} {o : Ordering} : d.orient o = .eq ↔ o = .eq := by
  cases d <;> cases o <;> decide

/-- The stored value of a key's field is the value that the key reads. -/
theorem Record.storedValue?_storedName (r : Record) {field : String} (h : field ≠ storedId) :
    r.storedValue? (storedName field) = r.valueOf? field := by
  by_cases hid : field = idField
  · rw [hid]
    rfl
  · rw [storedName_of_ne hid, storedValue?, if_neg h, valueOf?, if_neg hid]

theorem SortKey.orderByEntry_entry {k : SortKey} (h : k.field ≠ storedId) (a b : Record) :
    orderByEntry k.entry a b = k.order a b := by
  rw [orderByEntry, entry, Direction.orient_sign, Record.storedValue?_storedName a h,
    Record.storedValue?_storedName b h, order]

/-- Different texts are never tied. -/
theorem orderOptional_string_ne {s t : String} (h : s ≠ t) :
    orderOptional (some (.string s)) (some (.string t)) ≠ .eq := by
  change compareStrings s t ≠ .eq
  rw [compareStrings_eq_compare]
  exact fun hcompare => h (compare_eq_iff_eq.1 hcompare)

/-- A key of the identifier ties no two of them. -/
theorem SortKey.order_identifier_ne {k : SortKey} (hk : k.field = idField) {a b : Record}
    (h : a.id ≠ b.id) : k.order a b ≠ .eq := by
  rw [order, hk, ne_eq, Direction.orient_eq_iff, Record.valueOf?, Record.valueOf?, if_pos rfl,
    if_pos rfl]
  exact orderOptional_string_ne (mt (@Uuid.text_injective a.id b.id) h)

/-- The last entry is one of a key of the identifier. -/
theorem orderByEntry_identifierEntry_ne {a b : Record} (h : a.id ≠ b.id) :
    orderByEntry identifierEntry a b ≠ .eq := by
  have hentry : identifierEntry = SortKey.entry ⟨idField, .asc⟩ := rfl
  rw [hentry, SortKey.orderByEntry_entry (by decide)]
  exact SortKey.order_identifier_ne rfl h

namespace SortSpec

variable {s : SortSpec}

/-- Along the entries of the keys, records are ordered as they are by the keys. -/
theorem order_entries (h : ∀ k ∈ s.keys, k.field ≠ storedId) (a b : Record) :
    Document.order (s.keys.map SortKey.entry) a b = s.order a b := by
  obtain ⟨keys⟩ := s
  induction keys with
  | nil => rfl
  | cons k ks ih =>
    obtain ⟨hk, hks⟩ := List.forall_mem_cons.1 h
    rw [order_cons, ← ih hks, ← SortKey.orderByEntry_entry hk]
    rfl

/-- Records that no key tells apart. -/
theorem order_eq_iff {a b : Record} : s.order a b = .eq ↔ ∀ k ∈ s.keys, k.order a b = .eq := by
  obtain ⟨keys⟩ := s
  induction keys with
  | nil => exact iff_of_true rfl fun _ hk => absurd hk List.not_mem_nil
  | cons k ks ih => rw [order_cons, Ordering.then_eq_eq, ih, List.forall_mem_cons]

/-! ### Rendered orders -/

/-- The document before the identifier is added. -/
theorem foldl_insert_keys (hdistinct : (s.keys.map SortKey.field).Nodup)
    (h : ∀ k ∈ s.keys, k.field ≠ storedId) :
    s.keys.foldl (fun d k => Document.insert d (storedName k.field) k.direction.sign) [] =
      s.keys.map SortKey.entry := by
  refine (Arrival.foldl_put_of_distinct ?_).trans (List.nil_append _)
  have hnames : (s.keys.map fun k => storedName k.field) =
      (s.keys.map SortKey.field).map storedName := by
    rw [List.map_map]
    rfl
  rw [List.map_nil, List.nil_append, hnames]
  refine List.Nodup.map_on (fun f hf g hg hfg => ?_) hdistinct
  obtain ⟨j, hj, rfl⟩ := List.mem_map.1 hf
  obtain ⟨k, hk, rfl⟩ := List.mem_map.1 hg
  exact eq_of_storedName (h j hj) (h k hk) hfg

theorem lookup_entries_isSome_iff (h : ∀ k ∈ s.keys, k.field ≠ storedId) :
    ((s.keys.map SortKey.entry).lookup storedId).isSome = true ↔
      ∃ k ∈ s.keys, k.field = idField := by
  rw [Option.isSome_iff_ne_none, ne_eq, List.lookup_eq_none_iff]
  simp only [List.forall_mem_map, SortKey.entry, bne_iff_ne, not_forall, not_not, exists_prop]
  constructor
  · rintro ⟨k, hk, hname⟩
    exact ⟨k, hk, (storedName_eq_storedId_iff (h k hk)).1 hname.symm⟩
  · rintro ⟨k, hk, hid⟩
    exact ⟨k, hk, ((storedName_eq_storedId_iff (h k hk)).2 hid).symm⟩

/-- A sort order is rendered entry by entry, and the identifier comes last if no key names it. -/
theorem render_eq (hdistinct : (s.keys.map SortKey.field).Nodup)
    (h : ∀ k ∈ s.keys, k.field ≠ storedId) :
    s.render = s.keys.map SortKey.entry ++
      if s.keys = [] ∨ ∃ k ∈ s.keys, k.field = idField then [] else [identifierEntry] := by
  rw [render, foldl_insert_keys hdistinct h]
  have hcond : ((s.keys.map SortKey.entry).isEmpty ||
      ((s.keys.map SortKey.entry).lookup storedId).isSome) = true ↔
        s.keys = [] ∨ ∃ k ∈ s.keys, k.field = idField := by
    rw [Bool.or_eq_true, lookup_entries_isSome_iff h, List.isEmpty_iff, List.map_eq_nil_iff]
  by_cases hnamed : s.keys = [] ∨ ∃ k ∈ s.keys, k.field = idField
  · rw [if_pos (hcond.2 hnamed), if_pos hnamed, List.append_nil]
  · have hlookup : (s.keys.map SortKey.entry).lookup storedId = none := by
      rw [← Option.not_isSome_iff_eq_none, lookup_entries_isSome_iff h]
      exact fun hid => hnamed (.inr hid)
    rw [if_neg (mt hcond.1 hnamed), if_neg hnamed]
    exact Arrival.put_of_lookup_eq_none hlookup _

/-- How a sort order is rendered, and how its document orders records. -/
structure OrdersTotally (s : SortSpec) : Prop where
  empty_iff : s.render = [] ↔ s.isNatural = true
  entries : s.isNatural = false → s.render =
    s.keys.map SortKey.entry ++ if ∃ k ∈ s.keys, k.field = idField then [] else [identifierEntry]
  total : s.isNatural = false → ∀ a b : Record, a.id ≠ b.id → s.render.order a b ≠ .eq
  agrees : ∀ a b : Record, s.order a b ≠ .eq → s.render.order a b = s.order a b

/-- The document of a sort text's order never ties two identifiers, and it only decides what the
order leaves open. -/
theorem ordersTotally_of_read {raw : String} (h : read raw = .ok s)
    (hid : ∀ k ∈ s.keys, k.field ≠ storedId) : s.OrdersTotally := by
  have hrender := render_eq (firstOfEach_of_read h).distinct hid
  have hentries : s.isNatural = false → s.render = s.keys.map SortKey.entry ++
      if ∃ k ∈ s.keys, k.field = idField then [] else [identifierEntry] := by
    intro hsome
    have hne : s.keys ≠ [] := List.isEmpty_eq_false_iff.1 hsome
    simpa only [hne, false_or] using hrender
  refine ⟨?_, hentries, fun hsome a b hab => ?_, fun a b hab => ?_⟩
  · rw [isNatural, List.isEmpty_iff]
    constructor
    · intro hnil
      rw [hrender] at hnil
      exact List.map_eq_nil_iff.1 (List.append_eq_nil_iff.1 hnil).1
    · intro hnil
      rw [hrender, hnil, if_pos (.inl rfl)]
      rfl
  · rw [hentries hsome, Document.order_append, order_entries hid, ne_eq, Ordering.then_eq_eq,
      order_eq_iff]
    rintro ⟨hkeys, hlast⟩
    split at hlast
    · next hnamed =>
      obtain ⟨k, hk, hfield⟩ := hnamed
      exact k.order_identifier_ne hfield hab (hkeys k hk)
    · rw [Document.order, List.foldr_cons, List.foldr_nil, Ordering.then_eq] at hlast
      exact orderByEntry_identifierEntry_ne hab hlast
  · rw [hrender, Document.order_append, order_entries hid]
    cases hkeys : s.order a b with
    | eq => exact absurd hkeys hab
    | lt => rfl
    | gt => rfl

/-- Dearest first, then by title: records with one price and one title are told apart. -/
theorem ordersTotally_price_title :
    let s : SortSpec := ⟨[⟨"price", .desc⟩, ⟨"title", .asc⟩]⟩
    let a : Record := ⟨.uniform 1, [("price", .int 3), ("title", .string "a")]⟩
    let b : Record := ⟨.uniform 2, [("price", .int 3), ("title", .string "a")]⟩
    read "-price,title" = .ok s ∧ (∀ k ∈ s.keys, k.field ≠ storedId) ∧
      s.render = [("price", .int32 (-1)), ("title", .int32 1), ("_id", .int32 1)] ∧
      s.render.order a b ≠ .eq := by
  intro s a b
  have h : read "-price,title" = .ok s := rfl
  have hid : ∀ k ∈ s.keys, k.field ≠ storedId := by decide
  exact ⟨h, hid, rfl, (ordersTotally_of_read h hid).total rfl a b (by decide)⟩

end SortSpec

end Shelf
