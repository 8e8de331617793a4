import Shelf.Proofs.Arrival
import Shelf.Proofs.Plan
import Shelf.Proofs.Projection
import Shelf.Proofs.Sort
import Shelf.Proofs.Text.Token
import Shelf.Rendering

/-!
The keys of rendered plans.

A text that a client gives for a field is rendered into the value of that field's clause and nowhere
else. The keys are the names of checked fields, and the operators that rendering itself writes.

    { $and: [ { brand: ▢ }, { price: { $gte: ▢ } }, { title: { $regex: ▢, $options: i } } ] }
      texts stand in the boxes only
-/

namespace Shelf

/-- The operators that a rendered filter may hold. -/
def filterOperators : List String :=
  ["$and", "$in", "$gt", "$gte", "$lt", "$lte", "$regex", "$options"]

namespace DocValue

theorem mem_itemKeys {key : String} : ∀ {xs : List DocValue},
    key ∈ itemKeys xs ↔ ∃ x ∈ xs, key ∈ x.keys
  | []      => by simp [itemKeys]
  | x :: xs => by
    rw [itemKeys, List.mem_append, mem_itemKeys, List.exists_mem_cons_iff]

theorem mem_entryKeys {key : String} : ∀ {d : Document},
    key ∈ entryKeys d ↔ ∃ e ∈ d, key = e.1 ∨ key ∈ e.2.keys
  | []          => by simp [entryKeys]
  | (k, v) :: d => by
    rw [entryKeys, List.cons_append, List.mem_cons, List.mem_append, mem_entryKeys,
      List.exists_mem_cons_iff, or_assoc]

end DocValue

/-! ### Stored names -/

theorem storedName_of_ne {field : String} (h : field ≠ idField) : storedName field = field :=
  if_neg h

/-- Only the identifier is stored under its stored name, if no field has that name. -/
theorem storedName_eq_storedId_iff {field : String} (h : field ≠ storedId) :
    storedName field = storedId ↔ field = idField := by
  constructor
  · intro hname
    by_contra hid
    exact h (storedName_of_ne hid ▸ hname)
  · rintro rfl
    rfl

/-- Fields other than the stored name of the identifier are stored under different names. -/
theorem eq_of_storedName {f g : String} (hf : f ≠ storedId) (hg : g ≠ storedId)
    (h : storedName f = storedName g) : f = g := by
  by_cases hid : g = idField
  · rw [hid] at h ⊢
    exact (storedName_eq_storedId_iff hf).1 h
  · rw [storedName_of_ne hid] at h
    have hother : f ≠ idField := by
      rintro rfl
      exact hg h.symm
    rwa [storedName_of_ne hother] at h

/-! ### Clauses -/

/-- What a text may stand for besides itself. -/
inductive Reading (raw : String) : DocValue → Prop
  | yes : raw = "true" → Reading raw (.bool true)
  | no : raw = "false" → Reading raw (.bool false)
  | integer {n : Int} : Decimal.readCount? raw.toList = some n → Reading raw (.int64 n)
  | real {x : Float} :
    Decimal.readFloat? raw.toList = some x → x.isFinite = true → Reading raw (.double x)

/-- The clauses that a text may make for a name: the text is in the value and never in a key. -/
inductive Clause (name raw : String) : Document → Prop
  | text : Clause name raw [(name, .string raw)]
  | among {readings : List DocValue} : (∀ v ∈ readings, Reading raw v) →
    Clause name raw [(name, .document [("$in", .array (.string raw :: readings))])]
  | bound {op : Comparator} {x : Float} :
    Decimal.readFloat? (Text.trim raw.toList) = some x → x.isFinite = true →
      Clause name raw [(name, .document [(op.storageToken, .double x)])]
  | pattern : Clause name raw [(name, .document
    [("$regex", .string (TextPattern.escaped ⟨raw⟩)), ("$options", .string "i")])]

theorem reading_of_mem_literalReadings {raw : String} {v : DocValue}
    (h : v ∈ literalReadings raw) : Reading raw v := by
  rw [literalReadings] at h
  split at h
  · next hraw =>
    obtain rfl := List.mem_singleton.1 h
    exact .yes hraw
  · split at h
    · next hraw =>
      obtain rfl := List.mem_singleton.1 h
      exact .no hraw
    · rcases List.mem_append.1 h with h | h
      · obtain ⟨n, hn, rfl⟩ := Option.map_eq_some_iff.1 (Option.mem_toList.1 h)
        exact .integer hn
      · obtain ⟨x, hx, rfl⟩ := Option.map_eq_some_iff.1 (Option.mem_toList.1 h)
        obtain ⟨hread, hfinite⟩ := Option.filter_eq_some_iff.1 hx
        exact .real hread hfinite

theorem clause_renderLiteral (name raw : String) : Clause name raw [(name, renderLiteral raw)] := by
  have hread : ∀ v ∈ literalReadings raw, Reading raw v :=
    fun _ => reading_of_mem_literalReadings
  rw [renderLiteral]
  split
  · exact .text
  · next hreadings => exact .among hread

/-- What a text asks of a field has a document, and the document is a clause of the text. -/
theorem Condition.From.render {raw : String} {cond : Condition} (h : cond.From raw)
    (name : String) : ∃ v, cond.render name = .ok v ∧ Clause name raw [(name, v)] := by
  cases h with
  | equals =>
    by_cases hid : name = storedId
    · refine ⟨.string raw, ?_, .text⟩
      rw [Condition.render, if_pos hid]
    · refine ⟨renderLiteral raw, ?_, clause_renderLiteral name raw⟩
      rw [Condition.render, if_neg hid]
  | contains => exact ⟨_, rfl, .pattern⟩
  | compare hread hfinite => exact ⟨_, rfl, .bound hread hfinite⟩

/-- A value that a text stands for has no keys. -/
theorem Reading.keys_eq_nil {raw : String} {v : DocValue} (h : Reading raw v) : v.keys = [] := by
  cases h <;> rfl

theorem Comparator.storageToken_mem (op : Comparator) : op.storageToken ∈ filterOperators := by
  cases op <;> decide

/-- The keys of a clause do not depend on the text. -/
theorem Clause.mem_keys {name raw key : String} {d : Document} (h : Clause name raw d)
    (hkey : key ∈ DocValue.entryKeys d) : key = name ∨ key ∈ filterOperators := by
  cases h with
  | text => exact .inl (by simpa [DocValue.entryKeys, DocValue.keys] using hkey)
  | @among readings hread =>
    have hnone : DocValue.itemKeys (.string raw :: readings) = [] := by
      refine List.eq_nil_iff_forall_not_mem.2 fun k hk => ?_
      obtain ⟨v, hv, hk⟩ := DocValue.mem_itemKeys.1 hk
      rcases List.mem_cons.1 hv with rfl | hv
      · exact absurd hk List.not_mem_nil
      · rw [(hread v hv).keys_eq_nil] at hk
        exact absurd hk List.not_mem_nil
    have hkey : key = name ∨ key = "$in" := by
      simpa [DocValue.entryKeys, DocValue.keys, hnone] using hkey
    rcases hkey with rfl | rfl
    · exact .inl rfl
    · exact .inr (by decide)
  | @bound op x _ _ =>
    have hkey : key = name ∨ key = op.storageToken := by
      simpa [DocValue.entryKeys, DocValue.keys] using hkey
    rcases hkey with rfl | rfl
    · exact .inl rfl
    · exact .inr op.storageToken_mem
  | pattern =>
    have hkey : key = name ∨ key = "$regex" ∨ key = "$options" := by
      simpa [DocValue.entryKeys, DocValue.keys] using hkey
    rcases hkey with rfl | rfl | rfl
    · exact .inl rfl
    · exact .inr (by decide)
    · exact .inr (by decide)

theorem mem_entryKeys_conjunction {key : String} {clauses : List Document}
    (h : key ∈ DocValue.entryKeys (conjunction clauses)) :
    key = "$and" ∨ ∃ d ∈ clauses, key ∈ DocValue.entryKeys d := by
  unfold conjunction at h
  split at h
  · exact absurd h List.not_mem_nil
  · exact .inr ⟨_, List.mem_singleton.2 rfl, h⟩
  · obtain ⟨e, he, h⟩ := DocValue.mem_entryKeys.1 h
    obtain rfl := List.mem_singleton.1 he
    refine h.imp_right fun h => ?_
    obtain ⟨v, hv, h⟩ := DocValue.mem_itemKeys.1 h
    obtain ⟨d, hd, rfl⟩ := List.mem_map.1 hv
    exact ⟨d, hd, h⟩

/-! ### Filters -/

section Filter

variable {c : Collection} {p : Params}

/-- A checked predicate is rendered as a clause of the text that was given for its field. -/
theorem Predicate.Checked.render {pr : Predicate} (h : pr.Checked c p) :
    ∃ d, pr.render = .ok d ∧ ∃ raw, p.Gives pr.field raw ∧ Clause (storedName pr.field) raw d := by
  obtain ⟨raw, hgiven, hfrom⟩ := h.given
  obtain ⟨v, hv, hclause⟩ := hfrom.render (storedName pr.field)
  refine ⟨_, ?_, raw, hgiven, hclause⟩
  rw [Predicate.render, hv]
  rfl

/-- A document that is a clause of a given text, on a field that clients may filter by. -/
def GivenClause (c : Collection) (p : Params) (d : Document) : Prop :=
  ∃ field raw, p.Gives field raw ∧ Text.isPlainToken field = true ∧ c.isFilterable field = true ∧
    Clause (storedName field) raw d

/-- Checked predicates are rendered, each as a clause of a given text. -/
theorem exists_clauses : ∀ {prs : List Predicate}, (∀ pr ∈ prs, pr.Checked c p) →
    ∃ ds, prs.mapM Predicate.render = .ok ds ∧ ∀ d ∈ ds, GivenClause c p d
  | [],        _ => ⟨[], rfl, fun d hd => absurd hd List.not_mem_nil⟩
  | pr :: prs, h => by
    obtain ⟨d, hd, raw, hgiven, hclause⟩ := (h pr List.mem_cons_self).render
    obtain ⟨ds, hds, hclauses⟩ := exists_clauses fun qr hqr => h qr (List.mem_cons_of_mem _ hqr)
    have hpr := h pr List.mem_cons_self
    refine ⟨d :: ds, ?_, List.forall_mem_cons.2 ⟨?_, hclauses⟩⟩
    · rw [List.mapM_cons, hd, hds]
      rfl
    · exact ⟨pr.field, raw, hgiven, hpr.plain, hpr.allowed, hclause⟩

theorem Filter.render_of_clauses {f : Filter} {ds : List Document}
    (h : f.predicates.mapM Predicate.render = .ok ds) : f.render = .ok (conjunction ds) := by
  rw [Filter.render, h]
  rfl

/-- A compiled filter is rendered as a conjunction of clauses of given texts. -/
theorem exists_render_of_filterOf {f : Filter} (h : c.filterOf p = .ok f) :
    ∃ ds, f.render = .ok (conjunction ds) ∧ ∀ d ∈ ds, GivenClause c p d := by
  obtain ⟨ds, hds, hclauses⟩ := exists_clauses (Collection.checked_of_filterOf h)
  exact ⟨ds, Filter.render_of_clauses hds, hclauses⟩

/-- The names under which the fields are stored that clients may filter by. -/
def Collection.FilterKey (c : Collection) (key : String) : Prop :=
  ∃ field, key = storedName field ∧ Text.isPlainToken field = true ∧ c.isFilterable field = true

theorem filterKey_of_mem_conjunction {ds : List Document} (h : ∀ d ∈ ds, GivenClause c p d)
    {key : String} (hkey : key ∈ DocValue.entryKeys (conjunction ds)) :
    key ∈ filterOperators ∨ c.FilterKey key := by
  rcases mem_entryKeys_conjunction hkey with rfl | ⟨d, hd, hkey⟩
  · exact .inl (by decide)
  · obtain ⟨field, raw, -, hplain, hallowed, hclause⟩ := h d hd
    rcases hclause.mem_keys hkey with hkey | hkey
    · exact .inr ⟨field, hkey, hplain, hallowed⟩
    · exact .inl hkey

end Filter

/-! ### Orders and projections -/

/-- The keys of a document whose values were written one by one and have none. -/
theorem mem_entryKeys_foldl_insert {α : Type} {name : α → String} {value : α → DocValue}
    (hvalue : ∀ x, (value x).keys = []) {xs : List α} {key : String}
    (h : key ∈ DocValue.entryKeys
      (xs.foldl (fun d x => Document.insert d (name x) (value x)) [])) :
    ∃ x ∈ xs, key = name x := by
  obtain ⟨e, he, hkey⟩ := DocValue.mem_entryKeys.1 h
  rcases Arrival.mem_foldl_put he with ⟨x, hx, rfl⟩ | he
  · refine ⟨x, hx, hkey.resolve_right ?_⟩
    rw [hvalue x]
    exact List.not_mem_nil
  · exact absurd he List.not_mem_nil

theorem Direction.keys_sign (d : Direction) : d.sign.keys = [] := by
  cases d <;> rfl

theorem SortSpec.mem_keys_render {s : SortSpec} {key : String}
    (h : key ∈ DocValue.entryKeys s.render) :
    key = storedId ∨ ∃ k ∈ s.keys, key = storedName k.field := by
  have hnamed : ∀ key ∈ DocValue.entryKeys (s.keys.foldl
      (fun d k => Document.insert d (storedName k.field) k.direction.sign) []),
      ∃ k ∈ s.keys, key = storedName k.field := by
    intro key hkey
    exact mem_entryKeys_foldl_insert (fun k => k.direction.keys_sign) hkey
  rw [SortSpec.render] at h
  split at h
  · exact .inr (hnamed key h)
  · obtain ⟨e, he, hkey⟩ := DocValue.mem_entryKeys.1 h
    rcases Arrival.mem_put he with rfl | he
    · exact .inl (hkey.resolve_right List.not_mem_nil)
    · exact .inr (hnamed key (DocValue.mem_entryKeys.2 ⟨e, he, hkey⟩))

theorem mem_keys_marked {names : List String} {mark : Int} {key : String}
    (h : key ∈ DocValue.entryKeys (marked names mark)) : key ∈ names := by
  obtain ⟨name, hname, rfl⟩ := mem_entryKeys_foldl_insert (fun _ => rfl) h
  exact hname

theorem Projection.mem_keys_render {raw : Option String} {hidden : String} {p : Projection}
    (h : read raw hidden = .ok p) {key : String} (hkey : key ∈ DocValue.entryKeys p.render) :
    key = storedId ∨ key = hidden ∨ key ∈ p.fields := by
  have hmade := (read_eq_ok_iff.1 h).2
  rcases ofChoices_cases hmade with ⟨-, rfl⟩ | ⟨-, rfl⟩ | ⟨-, rfl⟩
  · exact .inr (.inl (List.mem_singleton.1 (mem_keys_marked hkey)))
  · unfold render at hkey
    split at hkey
    · next hkeep => cases hkeep
    · exact .inl (List.mem_singleton.1 (mem_keys_marked hkey))
    · next hkeep => cases hkeep; exact .inr (.inr (mem_keys_marked hkey))
    · next hkeep => cases hkeep
  · rcases List.mem_append.1 (mem_keys_marked hkey) with hkey | hkey
    · exact .inr (.inr hkey)
    · exact .inr (.inl (List.mem_singleton.1 hkey))

/-! ### Plans -/

theorem sigil_not_mem_storedName {field : String} (h : Text.isPlainToken field = true) :
    '$' ∉ (storedName field).toList := by
  rw [storedName]
  split
  · decide
  · exact Text.sigil_not_mem_of_isPlainToken h

/-- A plan whose documents hold client text in values only: its filter is a conjunction of clauses
of given texts, and its keys are operators, names of checked fields, and the reserved field. -/
structure QueryPlan.Inert (c : Collection) (p : Params) (q : QueryPlan) (clauses : List Document) :
    Prop where
  scalar : ∀ pr ∈ q.filter.predicates, pr.condition.criteria? = none
  rendered : q.filter.render = .ok (conjunction clauses)
  given : ∀ d ∈ clauses, GivenClause c p d
  filterKeys : ∀ key ∈ DocValue.entryKeys (conjunction clauses),
    key ∈ filterOperators ∨ c.FilterKey key
  sortKeys : ∀ key ∈ DocValue.entryKeys q.sort.render,
    key = storedId ∨ (Text.isPlainToken key = true ∧ c.isSortable key = true)
  projectionKeys : ∀ key ∈ DocValue.entryKeys q.projection.render,
    key = storedId ∨ key = c.reserved ∨ (Text.isPlainToken key = true ∧ '.' ∉ key.toList)
  sigils : ∀ key ∈ DocValue.entryKeys (conjunction clauses) ++ DocValue.entryKeys q.sort.render ++
    DocValue.entryKeys q.projection.render, '$' ∈ key.toList →
      key ∈ filterOperators ∨ key = c.reserved

/-- No text of a client becomes storage syntax. -/
theorem QueryPlan.exists_inert_of_compile {c : Collection} {paging : Paging} {p : Params}
    {q : QueryPlan} (h : compile c paging p = .ok q) : ∃ clauses, q.Inert c p clauses := by
  obtain ⟨hfilter, hsort, hprojection, -⟩ := compile_eq_ok.1 h
  obtain ⟨clauses, hrender, hgiven⟩ := exists_render_of_filterOf hfilter
  have hscalar : ∀ pr ∈ q.filter.predicates, pr.condition.criteria? = none := by
    intro pr hpr
    obtain ⟨raw, -, hfrom⟩ := (Collection.checked_of_filterOf hfilter pr hpr).given
    exact hfrom.criteria?_eq_none
  have hfilterKeys : ∀ key ∈ DocValue.entryKeys (conjunction clauses),
      key ∈ filterOperators ∨ c.FilterKey key := fun _ => filterKey_of_mem_conjunction hgiven
  have hsortKeys : ∀ key ∈ DocValue.entryKeys q.sort.render,
      key = storedId ∨ (Text.isPlainToken key = true ∧ c.isSortable key = true) := by
    intro key hkey
    rcases SortSpec.mem_keys_render hkey with rfl | ⟨k, hk, rfl⟩
    · exact .inl rfl
    · rw [storedName]
      split
      · exact .inl rfl
      · exact .inr (checked_of_sortOf hsort k hk)
  have hprojectionKeys : ∀ key ∈ DocValue.entryKeys q.projection.render, key = storedId ∨
      key = c.reserved ∨ (Text.isPlainToken key = true ∧ '.' ∉ key.toList) := by
    intro key hkey
    refine (Projection.mem_keys_render hprojection hkey).imp_right fun hkey => ?_
    refine hkey.imp_right fun hkey => ?_
    obtain ⟨hplain, hwhole, -⟩ := Projection.allowed_of_read hprojection key hkey
    exact ⟨hplain, hwhole⟩
  refine ⟨clauses, hscalar, hrender, hgiven, hfilterKeys, hsortKeys, hprojectionKeys, ?_⟩
  intro key hkey hsigil
  have hplain : Text.isPlainToken key = true → False :=
    fun hplain => Text.sigil_not_mem_of_isPlainToken hplain hsigil
  have hid : key ≠ storedId := by
    rintro rfl
    exact absurd hsigil (by decide)
  rcases List.mem_append.1 hkey with hkey | hkey
  · rcases List.mem_append.1 hkey with hkey | hkey
    · rcases hfilterKeys key hkey with hkey | ⟨field, rfl, hfield, -⟩
      · exact .inl hkey
      · exact absurd hsigil (sigil_not_mem_storedName hfield)
    · rcases hsortKeys key hkey with hkey | hkey
      · exact absurd hkey hid
      · exact (hplain hkey.1).elim
  · rcases hprojectionKeys key hkey with hkey | hkey | hkey
    · exact absurd hkey hid
    · exact .inr hkey
    · exact (hplain hkey.1).elim

/-- A text that looks like an operator, and one in brackets that names a field. -/
theorem QueryPlan.inert_where_clause :
    let p : Params := ⟨[("brand", .single "$where"), ("x", .nested [("color", "true")]),
      ("sort", .single "-price,id"), ("fields", .single "title")]⟩
    let q : QueryPlan := ⟨⟨[⟨"brand", .equals "$where"⟩, ⟨"color", .equals "true"⟩]⟩,
      ⟨[⟨"price", .desc⟩, ⟨"id", .asc⟩]⟩, .keep ["title"], ⟨1, 20, by decide, by decide⟩⟩
    compile .products {} p = .ok q ∧ ∃ clauses, q.Inert .products p clauses := by
  intro p q
  have h : compile .products {} p = .ok q := rfl
  exact ⟨h, exists_inert_of_compile h⟩

end Shelf
