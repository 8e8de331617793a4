import Mathlib.Data.List.Forall2
import Shelf.Proofs.Rendering.Keys

/-!
Filters told apart by their documents.

A document of no entry is the filter that accepts every record, and one entry is a single predicate,
unless its key is `$and`, which no field has. The key of a clause is the stored name of its field,
and its value shows the condition: the text to equal stands alone or first among the values, a bound
stands under its operator, and a pattern can be read back from its escaped text.

    { }                                                        no predicate
    { brand: x }                                               brand equals x
    { brand: { $in: [ "25", 25, 25.0 ] } }                     brand equals 25
    { $and: [ { price: { $gte: 10.0 } }, { brand: x } ] }      both, in this order

Documents are compared as they are, and also with their floating-point numbers compared in some
other way: `0.0` and `-0.0` are different bounds, but neither is the greater one.
-/

namespace Shelf

/-! ### Values up to their floating-point numbers -/

mutual

/-- Values that are the same when floating-point numbers are compared by `r`. The entries of a
document may come in another order. -/
def DocValue.Alike (r : Float → Float → Prop) : DocValue → DocValue → Prop
  | .null,       .null       => True
  | .bool a,     .bool b     => a = b
  | .int32 m,    .int32 n    => m = n
  | .int64 m,    .int64 n    => m = n
  | .double x,   .double y   => r x y
  | .string s,   .string t   => s = t
  | .array xs,   .array ys   => DocValue.AlikeItems r xs ys
  | .document d, .document e => ∃ e', e'.Perm e ∧ DocValue.AlikeEntries r d e'
  | _,           _           => False

/-- Items that are alike one by one. -/
def DocValue.AlikeItems (r : Float → Float → Prop) : List DocValue → List DocValue → Prop
  | [],      []      => True
  | x :: xs, y :: ys => x.Alike r y ∧ DocValue.AlikeItems r xs ys
  | _,       _       => False

/-- Entries that are alike one by one, under the same keys. -/
def DocValue.AlikeEntries (r : Float → Float → Prop) :
    List (String × DocValue) → List (String × DocValue) → Prop
  | [],          []          => True
  | (k, v) :: d, (l, w) :: e => k = l ∧ v.Alike r w ∧ DocValue.AlikeEntries r d e
  | _,           _           => False

end

/-- Documents that are the same when floating-point numbers are compared by `r`. -/
def Document.Alike (r : Float → Float → Prop) (d e : Document) : Prop :=
  DocValue.Alike r (.document d) (.document e)

/-- Conditions that are the same when bounds are compared by `r`. -/
inductive Condition.Alike (r : Float → Float → Prop) : Condition → Condition → Prop
  | same (c : Condition) : Alike r c c
  | bounds (op : Comparator) {x y : Float} : r x y → Alike r (.compare op x) (.compare op y)

/-- Predicates on one field whose conditions are alike. -/
structure Predicate.Alike (r : Float → Float → Prop) (p q : Predicate) : Prop where
  field : p.field = q.field
  condition : p.condition.Alike r q.condition

/-- Filters that are alike predicate by predicate, in order. -/
def Filter.Alike (r : Float → Float → Prop) (f g : Filter) : Prop :=
  List.Forall₂ (Predicate.Alike r) f.predicates g.predicates

variable {r : Float → Float → Prop}

namespace DocValue

variable {d e : List (String × DocValue)} {k l : String} {v w : DocValue}

mutual

theorem alike_self : ∀ v : DocValue, v.Alike Eq v
  | .null       => trivial
  | .bool _     => rfl
  | .int32 _    => rfl
  | .int64 _    => rfl
  | .double _   => rfl
  | .string _   => rfl
  | .array xs   => alikeItems_self xs
  | .document d => ⟨d, .refl d, alikeEntries_self d⟩

theorem alikeItems_self : ∀ xs : List DocValue, AlikeItems Eq xs xs
  | []      => trivial
  | x :: xs => ⟨alike_self x, alikeItems_self xs⟩

theorem alikeEntries_self : ∀ d : List (String × DocValue), AlikeEntries Eq d d
  | []          => trivial
  | (_, v) :: d => ⟨rfl, alike_self v, alikeEntries_self d⟩

end

theorem length_eq_of_alikeEntries : ∀ {d e : List (String × DocValue)},
    AlikeEntries r d e → d.length = e.length
  | [],     [],     _ => rfl
  | _ :: _, _ :: _, h => congrArg (· + 1) (length_eq_of_alikeEntries h.2.2)

theorem exists_mem_of_alikeEntries : ∀ {d e : List (String × DocValue)}, AlikeEntries r d e →
    (k, v) ∈ d → ∃ w, (k, w) ∈ e ∧ v.Alike r w
  | (_, _) :: _, (_, w) :: _, h, hmem => by
    obtain ⟨rfl, hvw, hrest⟩ := h
    rcases List.mem_cons.1 hmem with hhead | hmem
    · cases hhead
      exact ⟨w, List.mem_cons_self, hvw⟩
    · obtain ⟨w, hw, hvw⟩ := exists_mem_of_alikeEntries hrest hmem
      exact ⟨w, List.mem_cons_of_mem _ hw, hvw⟩

theorem Alike.length_eq (h : Alike r (.document d) (.document e)) : d.length = e.length := by
  obtain ⟨e', hperm, h⟩ := h
  exact (length_eq_of_alikeEntries h).trans hperm.length_eq

theorem Alike.exists_mem (h : Alike r (.document d) (.document e)) (hmem : (k, v) ∈ d) :
    ∃ w, (k, w) ∈ e ∧ v.Alike r w := by
  obtain ⟨e', hperm, h⟩ := h
  obtain ⟨w, hw, hvw⟩ := exists_mem_of_alikeEntries h hmem
  exact ⟨w, hperm.mem_iff.1 hw, hvw⟩

theorem Alike.entry (h : Alike r (.document [(k, v)]) (.document [(l, w)])) :
    k = l ∧ v.Alike r w := by
  obtain ⟨u, hu, hvu⟩ := h.exists_mem (List.mem_singleton_self _)
  cases List.mem_singleton.1 hu
  exact ⟨rfl, hvu⟩

theorem forall₂_of_alikeItems : ∀ {ds es : List Document},
    AlikeItems r (ds.map .document) (es.map .document) → List.Forall₂ (Document.Alike r) ds es
  | [],     [],     _ => .nil
  | _ :: _, _ :: _, h => .cons h.1 (forall₂_of_alikeItems h.2)

end DocValue

theorem Condition.Alike.eq {c c' : Condition} (h : c.Alike Eq c') : c = c' := by
  cases h with
  | same => rfl
  | bounds op hxy => rw [hxy]

theorem Predicate.Alike.eq {p q : Predicate} (h : p.Alike Eq q) : p = q := by
  obtain ⟨field, condition⟩ := p
  obtain ⟨hfield, hcondition⟩ := h
  exact congrArg₂ Predicate.mk hfield hcondition.eq

theorem Filter.Alike.eq {f g : Filter} (h : f.Alike Eq g) : f = g := by
  obtain ⟨ps⟩ := f
  exact congrArg Filter.mk (List.forall₂_eq_eq_eq ▸ h.imp fun _ _ => Predicate.Alike.eq)

/-! ### Patterns -/

namespace TextPattern

/-- The characters that an escaped text stands for. -/
def unescaped : List Char → List Char
  | '\\' :: c :: cs => c :: unescaped cs
  | c :: cs         => c :: unescaped cs
  | []              => []

theorem unescaped_flatMap : ∀ cs : List Char,
    unescaped (cs.flatMap fun c => if metaCharacters.contains c then ['\\', c] else [c]) = cs
  | []      => rfl
  | c :: cs => by
    rw [List.flatMap_cons]
    split
    · rw [List.cons_append, List.singleton_append, unescaped, unescaped_flatMap cs]
    · next hmeta =>
      have hc : c ≠ '\\' := by
        rintro rfl
        exact hmeta (by decide)
      rw [List.singleton_append, unescaped, unescaped_flatMap cs]
      exact fun _ _ h _ => hc h

theorem escaped_injective {p q : TextPattern} (h : p.escaped = q.escaped) : p = q := by
  have hchars := congrArg (unescaped ·.toList) h
  simp only [escaped, String.toList_ofList, unescaped_flatMap] at hchars
  obtain ⟨needle⟩ := p
  exact congrArg TextPattern.mk (String.toList_inj.1 hchars)

end TextPattern

/-! ### Clauses -/

theorem Comparator.eq_of_storageToken {op op' : Comparator}
    (h : op.storageToken = op'.storageToken) : op = op' := by
  revert h
  cases op <;> cases op' <;> decide

theorem Comparator.storageToken_ne_in (op : Comparator) : op.storageToken ≠ "$in" := by
  cases op <;> decide

namespace Condition

/-- The value in a clause shows the condition. -/
inductive Shown : Condition → DocValue → Prop
  | text (raw : String) : Shown (.equals raw) (.string raw)
  | among (raw : String) (readings : List DocValue) :
    Shown (.equals raw) (.document [("$in", .array (.string raw :: readings))])
  | bound (op : Comparator) (x : Float) :
    Shown (.compare op x) (.document [(op.storageToken, .double x)])
  | pattern (p : TextPattern) : Shown (.contains p)
    (.document [("$regex", .string p.escaped), ("$options", .string "i")])

variable {cond cond' : Condition} {name raw : String} {v w : DocValue}

theorem From.shown (h : cond.From raw) (hv : cond.render name = .ok v) : cond.Shown v := by
  cases h with
  | equals =>
    obtain rfl := Except.ok.inj hv
    split
    · exact .text raw
    · rw [renderLiteral]
      split
      · exact .text raw
      · exact .among raw _
  | contains =>
    obtain rfl := Except.ok.inj hv
    exact .pattern _
  | compare =>
    obtain rfl := Except.ok.inj hv
    exact .bound _ _

/-- Values that show conditions are alike only if the conditions are. -/
theorem Shown.alike (h : cond.Shown v) (h' : cond'.Shown w) (hvw : v.Alike r w) :
    cond.Alike r cond' := by
  cases h with
  | text raw =>
    cases h' with
    | text raw' =>
      obtain rfl : raw = raw' := hvw
      exact .same _
    | _ => exact False.elim hvw
  | among raw readings =>
    cases h' with
    | text => exact False.elim hvw
    | among raw' readings' =>
      obtain ⟨hraw, -⟩ := hvw.entry.2
      obtain rfl : raw = raw' := hraw
      exact .same _
    | bound op => exact absurd hvw.entry.1.symm op.storageToken_ne_in
    | pattern => cases hvw.length_eq
  | bound op x =>
    cases h' with
    | text => exact False.elim hvw
    | among => exact absurd hvw.entry.1 op.storageToken_ne_in
    | bound op' y =>
      obtain ⟨hkey, hxy⟩ := hvw.entry
      obtain rfl := Comparator.eq_of_storageToken hkey
      exact .bounds op hxy
    | pattern => cases hvw.length_eq
  | pattern p =>
    cases h' with
    | text => exact False.elim hvw
    | among => cases hvw.length_eq
    | bound => cases hvw.length_eq
    | pattern q =>
      obtain ⟨u, hu, hpu⟩ := hvw.exists_mem List.mem_cons_self
      obtain rfl : u = .string q.escaped := by simpa using hu
      obtain rfl := TextPattern.escaped_injective hpu
      exact .same _

end Condition

/-- The clause of a predicate has a single entry, under the stored name of the field. -/
def Predicate.HasClause (p : Predicate) (c : Document) : Prop :=
  ∃ v, p.condition.render (storedName p.field) = .ok v ∧ c = [(storedName p.field, v)]

/-- A predicate that a clause shows: its condition is one on scalars, and its field is not stored
under an operator or in the place of the identifier. -/
structure Predicate.Showable (p : Predicate) : Prop where
  scalar : ∃ raw, p.condition.From raw
  plain : Text.isPlainToken p.field = true
  apart : p.field ≠ storedId

section Clauses

variable {p q : Predicate} {c : Document}

theorem Predicate.render_eq_ok_iff : p.render = .ok c ↔ p.HasClause c := by
  rw [Predicate.render, bind_eq_ok]
  exact exists_congr fun v => and_congr_right fun _ => ok_eq_ok_iff

theorem Predicate.alike_of_clauses {c' : Document} (hp : p.Showable) (hq : q.Showable)
    (hc : p.HasClause c) (hc' : q.HasClause c') (h : Document.Alike r c c') : p.Alike r q := by
  obtain ⟨v, hv, rfl⟩ := hc
  obtain ⟨w, hw, rfl⟩ := hc'
  obtain ⟨hname, hvw⟩ := h.entry
  obtain ⟨_, hfrom⟩ := hp.scalar
  obtain ⟨_, hfrom'⟩ := hq.scalar
  exact ⟨eq_of_storedName hp.apart hq.apart hname, (hfrom.shown hv).alike (hfrom'.shown hw) hvw⟩

/-- Rows of clauses that are alike one by one come from predicates that are. -/
theorem forall₂_alike_of_clauses {ps qs : List Predicate} {cs es : List Document}
    (hps : ∀ p ∈ ps, p.Showable) (hqs : ∀ q ∈ qs, q.Showable)
    (hcs : List.Forall₂ Predicate.HasClause ps cs) (hes : List.Forall₂ Predicate.HasClause qs es)
    (h : List.Forall₂ (Document.Alike r) cs es) : List.Forall₂ (Predicate.Alike r) ps qs := by
  induction h generalizing ps qs with
  | nil =>
    cases hcs
    cases hes
    exact .nil
  | cons hce _ ih =>
    cases hcs with
    | cons hpc hcs =>
      cases hes with
      | cons hqe hes =>
        obtain ⟨hp, hps⟩ := List.forall_mem_cons.1 hps
        obtain ⟨hq, hqs⟩ := List.forall_mem_cons.1 hqs
        exact .cons (Predicate.alike_of_clauses hp hq hpc hqe hce) (ih hps hqs hcs hes)

end Clauses

/-! ### Conjunctions -/

/-- A document of one entry whose key is not the one of conjunctions. -/
def Document.IsClause (c : Document) : Prop := ∃ key v, c = [(key, v)] ∧ key ≠ "$and"

theorem Predicate.Showable.isClause {p : Predicate} {c : Document} (h : p.Showable)
    (hc : p.HasClause c) : c.IsClause := by
  obtain ⟨v, -, rfl⟩ := hc
  refine ⟨_, v, rfl, fun hkey => ?_⟩
  have hsigil := sigil_not_mem_storedName h.plain
  rw [hkey] at hsigil
  exact hsigil (by decide)

theorem isClause_of_clauses {ps : List Predicate} {cs : List Document}
    (hps : ∀ p ∈ ps, p.Showable) (h : List.Forall₂ Predicate.HasClause ps cs) :
    ∀ c ∈ cs, c.IsClause := by
  intro c hc
  have hrender : ps.mapM Predicate.render = .ok cs :=
    mapM_eq_ok.2 (h.imp fun _ _ => Predicate.render_eq_ok_iff.2)
  obtain ⟨p, hp, hpc⟩ := exists_mem_of_mapM hrender hc
  exact (hps p hp).isClause (Predicate.render_eq_ok_iff.1 hpc)

/-- Conjunctions of clauses are alike only if the clauses are, one by one. -/
theorem forall₂_of_alike_conjunctions {cs es : List Document} (hcs : ∀ c ∈ cs, c.IsClause)
    (hes : ∀ e ∈ es, e.IsClause) (h : Document.Alike r (conjunction cs) (conjunction es)) :
    List.Forall₂ (Document.Alike r) cs es := by
  -- With no clause there is no entry, and with one clause the key is not the one of conjunctions.
  rcases cs with _ | ⟨c, _ | ⟨c₂, cs⟩⟩
  · rcases es with _ | ⟨e, _ | ⟨e₂, es⟩⟩
    · exact .nil
    · obtain ⟨_, _, rfl, -⟩ := hes e List.mem_cons_self
      cases h.length_eq
    · cases h.length_eq
  · obtain ⟨key, v, rfl, hkey⟩ := hcs c List.mem_cons_self
    rcases es with _ | ⟨e, _ | ⟨e₂, es⟩⟩
    · cases h.length_eq
    · exact .cons h .nil
    · exact absurd h.entry.1 hkey
  · rcases es with _ | ⟨e, _ | ⟨e₂, es⟩⟩
    · cases h.length_eq
    · obtain ⟨key, v, rfl, hkey⟩ := hes e List.mem_cons_self
      exact absurd h.entry.1.symm hkey
    · exact DocValue.forall₂_of_alikeItems h.entry.2

/-! ### Filters -/

/-- A document with a clause of its own for every predicate of a filter, in order. -/
structure Filter.KeptIn (f : Filter) (d : Document) : Prop where
  rendered : f.render = .ok d
  separate : ∃ clauses, d = conjunction clauses ∧
    List.Forall₂ Predicate.HasClause f.predicates clauses

/-- Two filters with documents that tell them apart. -/
structure Filter.ToldApart (f g : Filter) (d e : Document) : Prop where
  left : f.KeptIn d
  right : g.KeptIn e
  eq_of_eq : d = e → f = g
  alike_of_alike : ∀ r : Float → Float → Prop, d.Alike r e → f.Alike r g

section Filters

variable {f g : Filter} {c : Collection} {p : Params} {d e : Document}

/-- The predicates that clients can ask for are shown by their clauses, unless the stored name of
the identifier is a field that clients may filter by. -/
theorem showable_of_filterOf (hc : c.isFilterable storedId = false) (h : c.filterOf p = .ok f) :
    ∀ pr ∈ f.predicates, pr.Showable := by
  intro pr hpr
  obtain ⟨hplain, hallowed, raw, -, hfrom⟩ := Collection.checked_of_filterOf h pr hpr
  refine ⟨⟨raw, hfrom⟩, hplain, fun hfield => ?_⟩
  rw [hfield, hc] at hallowed
  cases hallowed

theorem exists_keptIn_of_filterOf (h : c.filterOf p = .ok f) : ∃ d, f.KeptIn d := by
  obtain ⟨clauses, hclauses, -⟩ := exists_clauses (Collection.checked_of_filterOf h)
  refine ⟨conjunction clauses, Filter.render_of_clauses hclauses, clauses, rfl, ?_⟩
  exact (mapM_eq_ok.1 hclauses).imp fun _ _ => Predicate.render_eq_ok_iff.1

theorem alike_of_keptIn (hf : ∀ pr ∈ f.predicates, pr.Showable)
    (hg : ∀ pr ∈ g.predicates, pr.Showable) (hd : f.KeptIn d) (he : g.KeptIn e)
    (h : d.Alike r e) : f.Alike r g := by
  obtain ⟨cs, rfl, hcs⟩ := hd.separate
  obtain ⟨es, rfl, hes⟩ := he.separate
  refine forall₂_alike_of_clauses hf hg hcs hes ?_
  exact forall₂_of_alike_conjunctions (isClause_of_clauses hf hcs) (isClause_of_clauses hg hes) h

end Filters

/-- Nothing that clients ask for is lost in the document of their filter. -/
theorem Filter.exists_toldApart_of_filterOf {c c' : Collection} {p p' : Params} {f g : Filter}
    (hc : c.isFilterable storedId = false) (hc' : c'.isFilterable storedId = false)
    (hf : c.filterOf p = .ok f) (hg : c'.filterOf p' = .ok g) : ∃ d e, f.ToldApart g d e := by
  obtain ⟨d, hd⟩ := exists_keptIn_of_filterOf hf
  obtain ⟨e, he⟩ := exists_keptIn_of_filterOf hg
  have halike : ∀ r : Float → Float → Prop, d.Alike r e → f.Alike r g := fun r =>
    alike_of_keptIn (showable_of_filterOf hc hf) (showable_of_filterOf hc' hg) hd he
  refine ⟨d, e, hd, he, ?_, halike⟩
  rintro rfl
  exact (halike Eq (DocValue.alike_self _)).eq

/-- The same parameters ask for brands that are equal to two texts, and where brands are searched
they ask for brands that contain them. -/
theorem Filter.exists_toldApart_brands :
    let c : Collection := ((Collection.named "shops").withFilterable ["brand"]).withTextSearch
      ["brand"]
    let p : Params := ⟨[("brand", .single "true"), ("x", .nested [("brand", "a.b")])]⟩
    let f : Filter := ⟨[⟨"brand", .equals "true"⟩, ⟨"brand", .equals "a.b"⟩]⟩
    let g : Filter := ⟨[⟨"brand", .contains ⟨"true"⟩⟩, ⟨"brand", .contains ⟨"a.b"⟩⟩]⟩
    Collection.products.filterOf p = .ok f ∧ c.filterOf p = .ok g ∧
      ∃ d e, f.ToldApart g d e := by
  intro c p f g
  have hf : Collection.products.filterOf p = .ok f := rfl
  have hg : c.filterOf p = .ok g := rfl
  exact ⟨hf, hg, exists_toldApart_of_filterOf (by decide) (by decide) hf hg⟩

end Shelf
