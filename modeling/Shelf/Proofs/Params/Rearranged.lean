import Shelf.Proofs.Filter.Requests
import Shelf.Proofs.Listing
import Shelf.Proofs.Params.Edited

/-!
Parameters that arrive in another order.

Edits are apart when they write different names, or different words of one name. Edits that are
apart do not overwrite each other, so the parameters after them give one request for each edit, in
an order that depends on the arrival only:

    price[gte]=1 & brand=Acme & price[lt]=9      price[gte]  price[lt]  brand
    brand=Acme & price[lt]=9 & price[gte]=1      brand  price[lt]  price[gte]

A filter is a conjunction and the other parts of a plan are read by name, so the listing is the same.
-/

namespace Shelf

/-- The request that an edit writes. -/
def ParamEdit.request : ParamEdit → Request
  | .insert name text          => ⟨name, none, text⟩
  | .insertNested name op text => ⟨name, some op, text⟩

/-- Requests of one name are both under a word, and the words differ. -/
def Request.Apart (r q : Request) : Prop :=
  r.name = q.name → ∃ v w, r.word? = some v ∧ q.word? = some w ∧ v ≠ w

theorem Request.Apart.symm {r q : Request} (h : r.Apart q) : q.Apart r := by
  intro hname
  obtain ⟨v, w, hv, hw, hne⟩ := h hname.symm
  exact ⟨w, v, hw, hv, hne.symm⟩

/-- Every name is written once plainly, or under different words only. -/
def ParamEdit.PairwiseApart (edits : List ParamEdit) : Prop :=
  edits.Pairwise fun e f => e.request.Apart f.request

namespace Params

/-- All that the parameters give, reserved ones included. -/
def given (p : Params) : List Request := p.entries.flatMap fun e => e.2.requests e.1

theorem name_of_mem_requests {name : String} {value : ParamValue} {r : Request}
    (h : r ∈ value.requests name) : r.name = name := by
  cases value with
  | single text =>
    rw [List.mem_singleton.1 h]
  | nested ops =>
    obtain ⟨op, -, rfl⟩ := List.mem_map.1 h
    rfl

theorem requests_eq_filter (p : Params) :
    p.requests = p.given.filter fun r => !reservedParams.contains r.name := by
  rw [requests, filters, given, List.filter_flatMap]
  induction p.entries with
  | nil => rfl
  | cons e es ih =>
    have hname : ∀ r ∈ e.2.requests e.1,
        (!reservedParams.contains r.name) = !reservedParams.contains e.1 := by
      intro r hr
      rw [name_of_mem_requests hr]
    rw [List.flatMap_cons, ← ih, List.filter_congr hname, List.filter_cons]
    cases !reservedParams.contains e.1 with
    | false => simp
    | true => simp

theorem mem_given_of_get? {p : Params} {name : String} {value : ParamValue} {r : Request}
    (h : p.get? name = some value) (hr : r ∈ value.requests name) : r ∈ p.given :=
  List.mem_flatMap.2 ⟨(name, value), Arrival.mem_of_lookup h, hr⟩

/-! ### One more edit -/

section Apply

variable {p : Params} {name op text : String}

/-- A plain edit that is apart from all that is given writes a new name. -/
theorem get?_eq_none_of_apart (hfilled : p.Filled)
    (hapart : ∀ r ∈ p.given, r.Apart ⟨name, none, text⟩) : p.get? name = none := by
  cases h : p.get? name with
  | none => rfl
  | some value =>
    obtain ⟨r, hr⟩ : ∃ r, r ∈ value.requests name := by
      cases value with
      | single old => exact ⟨_, List.mem_singleton_self _⟩
      | nested ops =>
        have hentry : (name, .nested ops) ∈ p.entries := Arrival.mem_of_lookup h
        cases ops with
        | nil => exact absurd rfl (hfilled _ hentry)
        | cons op ops => exact ⟨_, List.mem_cons_self⟩
    obtain ⟨_, _, -, hword, -⟩ := hapart r (mem_given_of_get? h hr) (name_of_mem_requests hr)
    cases hword

/-- A nested edit that is apart from all that is given finds its name new, or nested without its
word. -/
theorem get?_of_apart (hapart : ∀ r ∈ p.given, r.Apart ⟨name, some op, text⟩) :
    p.get? name = none ∨ ∃ ops, p.get? name = some (.nested ops) ∧ ops.lookup op = none := by
  cases h : p.get? name with
  | none => exact .inl rfl
  | some value =>
    cases value with
    | single old =>
      have hr := mem_given_of_get? h (List.mem_singleton_self _)
      obtain ⟨_, _, hword, -⟩ := hapart _ hr rfl
      cases hword
    | nested ops =>
      refine .inr ⟨ops, rfl, ?_⟩
      cases hop : ops.lookup op with
      | none => rfl
      | some old =>
        have hr := mem_given_of_get? h (List.mem_map_of_mem (Arrival.mem_of_lookup hop))
        obtain ⟨_, _, hv, hw, hne⟩ := hapart _ hr rfl
        exact absurd (Option.some.inj (hv.symm.trans hw)) hne

/-- An edit that is apart from all that is given adds its request to it. -/
theorem given_apply (hfilled : p.Filled) {edit : ParamEdit}
    (hapart : ∀ r ∈ p.given, r.Apart edit.request) :
    (p.apply edit).given.Perm (p.given ++ [edit.request]) := by
  cases edit with
  | insert name text =>
    have hnew := get?_eq_none_of_apart hfilled hapart
    rw [Params.apply, insert, given, Arrival.put_of_lookup_eq_none hnew, List.flatMap_append]
    exact .refl _
  | insertNested name op text =>
    rw [Params.apply, insertNested]
    rcases get?_of_apart hapart with hnew | ⟨ops, hops, hop⟩
    · rw [hnew, given, Arrival.put_of_lookup_eq_none hnew, List.flatMap_append]
      exact .refl _
    · rw [hops]
      refine Arrival.perm_flatMap_put hops ?_
      change (ParamValue.nested (Arrival.put op text ops)).requests name = _
      rw [Arrival.put_of_lookup_eq_none hop, ParamValue.requests, List.map_append]
      rfl

end Apply

/-! ### All edits -/

/-- Edits that are apart from each other give one request each. -/
theorem given_ofEdits {edits : List ParamEdit} (h : ParamEdit.PairwiseApart edits) :
    (ofEdits edits).given.Perm (edits.map ParamEdit.request) := by
  induction edits using List.reverseRecOn with
  | nil => exact .refl _
  | append_singleton edits edit ih =>
    obtain ⟨hedits, -, hlast⟩ := List.pairwise_append.1 h
    have ih := ih hedits
    have hapart : ∀ r ∈ (ofEdits edits).given, r.Apart edit.request := by
      intro r hr
      obtain ⟨e, he, rfl⟩ := List.mem_map.1 (ih.mem_iff.1 hr)
      exact hlast e he edit (List.mem_singleton_self edit)
    rw [ofEdits, List.foldl_concat, List.map_append]
    exact (given_apply (filled_ofEdits edits) hapart).trans (ih.append_right _)

/-- The text of a plain parameter is the one that is given under no word. -/
theorem single?_eq_some_iff {p : Params} (h : (p.entries.map Prod.fst).Nodup)
    {name text : String} : p.single? name = some text ↔ ⟨name, none, text⟩ ∈ p.given := by
  rw [single?, Option.bind_eq_some_iff]
  constructor
  · rintro ⟨value, hvalue, htext⟩
    cases value with
    | single old =>
      obtain rfl := Option.some.inj htext
      exact mem_given_of_get? hvalue (List.mem_singleton_self _)
    | nested ops => cases htext
  · intro hmem
    obtain ⟨⟨n, value⟩, hentry, hr⟩ := List.mem_flatMap.1 hmem
    obtain rfl := name_of_mem_requests hr
    refine ⟨value, (Arrival.lookup_eq_some_iff_mem h).2 hentry, ?_⟩
    cases value with
    | single old =>
      cases List.mem_singleton.1 hr
      rfl
    | nested ops =>
      obtain ⟨op, -, hop⟩ := List.mem_map.1 hr
      cases hop

/-! ### The same requests in another order -/

/-- Parameters that give the same requests, in any order. -/
structure Alike (p q : Params) : Prop where
  requests : p.requests.Perm q.requests
  single : ∀ name, p.single? name = q.single? name

theorem alike_ofEdits {edits edits' : List ParamEdit} (hperm : edits.Perm edits')
    (h : ParamEdit.PairwiseApart edits) : (ofEdits edits).Alike (ofEdits edits') := by
  have h' : ParamEdit.PairwiseApart edits' := (hperm.pairwise_iff Request.Apart.symm).1 h
  have hgiven : (ofEdits edits).given.Perm (ofEdits edits').given :=
    (given_ofEdits h).trans ((hperm.map _).trans (given_ofEdits h').symm)
  refine ⟨?_, fun name => Option.ext fun text => ?_⟩
  · rw [requests_eq_filter, requests_eq_filter]
    exact hgiven.filter _
  · rw [single?_eq_some_iff (leftBy_ofEdits edits).distinct,
      single?_eq_some_iff (leftBy_ofEdits edits').distinct]
    exact hgiven.mem_iff

end Params

/-! ### Plans -/

theorem Filter.accepts_eq_of_perm {f g : Filter} (h : f.predicates.Perm g.predicates)
    (r : Record) : f.accepts r = g.accepts r := h.all_eq

namespace QueryPlan

/-- Plans that differ in the order of their predicates at most. -/
structure Alike (q q' : QueryPlan) : Prop where
  filter : q.filter.predicates.Perm q'.filter.predicates
  sort : q.sort = q'.sort
  projection : q.projection = q'.projection
  window : q.window = q'.window

variable {c : Collection} {paging : Paging} {p p' : Params} {q q' : QueryPlan}

theorem exists_filterOf_of_alike (hp : p.Filled) (hp' : p'.Filled) (h : p.Alike p') {f : Filter}
    (hf : c.filterOf p = .ok f) :
    ∃ f', c.filterOf p' = .ok f' ∧ f.predicates.Perm f'.predicates := by
  rw [Collection.filterOf_eq hp] at hf
  rw [Collection.filterOf_eq hp']
  cases hprs : p.requests.mapM c.answer with
  | error e =>
    rw [hprs] at hf
    cases hf
  | ok prs =>
    obtain ⟨prs', hprs', hperm⟩ := exists_mapM_of_perm h.requests hprs
    rw [hprs] at hf
    cases hf
    rw [hprs']
    exact ⟨_, rfl, hperm.symm⟩

/-- A plan for the same requests in another order. -/
theorem exists_compile_of_alike (hp : p.Filled) (hp' : p'.Filled) (h : p.Alike p')
    (hq : compile c paging p = .ok q) : ∃ q', compile c paging p' = .ok q' ∧ q.Alike q' := by
  obtain ⟨hfilter, hsort, hprojection, hwindow⟩ := compile_eq_ok.1 hq
  obtain ⟨filter, hfilter', hperm⟩ := exists_filterOf_of_alike hp hp' h hfilter
  rw [sortOf_congr (h.single "sort")] at hsort
  rw [h.single "fields"] at hprojection
  rw [h.single "page", h.single "limit"] at hwindow
  refine ⟨{ q with filter := filter }, ?_, hperm, rfl, rfl, rfl⟩
  exact compile_eq_ok.2 ⟨hfilter', hsort, hprojection, hwindow⟩

theorem pageOf_eq_of_alike (h : q.Alike q') (m : Memory) : q.pageOf m = q'.pageOf m := by
  have hmatching : m.matching q.filter = m.matching q'.filter :=
    List.filter_congr fun r _ => Filter.accepts_eq_of_perm h.filter r
  rw [pageOf, pageOf, Memory.find, Memory.find, hmatching, h.sort, h.projection, h.window]

end QueryPlan

/-! ### Listing -/

namespace Service

/-- The order in which parameters arrive does not matter when they are apart: both orders are
refused, or both give the same page of any records. -/
theorem list_rearranged (s : Service) {edits edits' : List ParamEdit} (hperm : edits.Perm edits')
    (hapart : ParamEdit.PairwiseApart edits) :
    ((∃ q, QueryPlan.compile s.collection s.paging (.ofEdits edits) = .ok q) ↔
      ∃ q, QueryPlan.compile s.collection s.paging (.ofEdits edits') = .ok q) ∧
    ∀ q, QueryPlan.compile s.collection s.paging (.ofEdits edits) = .ok q → ∀ m : Memory,
      ∃ page, (s.list (.ofEdits edits)).runOn m = (.ok page, m) ∧
        (s.list (.ofEdits edits')).runOn m = (.ok page, m) := by
  have hapart' : ParamEdit.PairwiseApart edits' := (hperm.pairwise_iff Request.Apart.symm).1 hapart
  have hfilled := Params.filled_ofEdits edits
  have hfilled' := Params.filled_ofEdits edits'
  have halike := Params.alike_ofEdits hperm hapart
  have halike' := Params.alike_ofEdits hperm.symm hapart'
  refine ⟨⟨?_, ?_⟩, ?_⟩
  · rintro ⟨q, hq⟩
    obtain ⟨q', hq', -⟩ := QueryPlan.exists_compile_of_alike hfilled hfilled' halike hq
    exact ⟨q', hq'⟩
  · rintro ⟨q, hq⟩
    obtain ⟨q', hq', -⟩ := QueryPlan.exists_compile_of_alike hfilled' hfilled halike' hq
    exact ⟨q', hq'⟩
  · intro q hq m
    obtain ⟨q', hq', hplans⟩ := QueryPlan.exists_compile_of_alike hfilled hfilled' halike hq
    refine ⟨q.pageOf m, runOn_list_ok hq m, ?_⟩
    rw [QueryPlan.pageOf_eq_of_alike hplans m]
    exact runOn_list_ok hq' m

/-- Two bounds on a price, forwards and backwards, with a word that names another field between. -/
theorem list_rearranged_bounds :
    let edits : List ParamEdit := [.insertNested "price" "gte" "100",
      .insertNested "size" "brand" "Acme", .insert "sort" "-price", .insertNested "price" "lt" "500"]
    edits.Perm edits.reverse ∧ ParamEdit.PairwiseApart edits ∧
      ∀ m : Memory, ∃ page, (list {} (.ofEdits edits)).runOn m = (.ok page, m) ∧
        (list {} (.ofEdits edits.reverse)).runOn m = (.ok page, m) := by
  intro edits
  have hperm : edits.Perm edits.reverse := edits.reverse_perm.symm
  have hapart : ParamEdit.PairwiseApart edits := by
    simp [edits, ParamEdit.PairwiseApart, ParamEdit.request, Request.Apart]
  have hcompile : ∃ q, QueryPlan.compile .products {} (.ofEdits edits) = .ok q := ⟨_, rfl⟩
  obtain ⟨q, hq⟩ := hcompile
  exact ⟨hperm, hapart, (list_rearranged {} hperm hapart).2 q hq⟩

end Service

end Shelf
