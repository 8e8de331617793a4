import Shelf.Filter.FromParams
import Shelf.Proofs.Outcome

/-!
What a compiled filter is made of.

A field gets into a filter as the name of a parameter, under an operator or not, or as a word in
brackets, and on each way it is checked before it is used. The text beside it becomes a text to
equal, a text to find, or the finite number that it reads as.

    title=phone         title     equals or contains phone
    price[gte]=10       price     at least the number 10
    filter[brand]=x     brand     equals or contains x
-/

namespace Shelf

/-- The parameters give a text for a field: as the value of the parameter of that name, under an
operator of it, or under a word that names the field. -/
inductive Params.Gives (p : Params) : (field raw : String) → Prop
  | plain {name raw : String} : (name, .single raw) ∈ p.filters → p.Gives name raw
  | operator {name op raw : String} {ops : List (String × String)} :
    (name, .nested ops) ∈ p.filters → (op, raw) ∈ ops → p.Gives name raw
  | word {name op raw : String} {ops : List (String × String)} :
    (name, .nested ops) ∈ p.filters → (op, raw) ∈ ops → p.Gives op raw

/-- What a text may ask of a field; a bound is the finite number that the text reads as. -/
inductive Condition.From (raw : String) : Condition → Prop
  | equals : From raw (.equals raw)
  | contains : From raw (.contains ⟨raw⟩)
  | compare {op : Comparator} {bound : Float} :
    Decimal.readFloat? (Text.trim raw.toList) = some bound → bound.isFinite = true →
      From raw (.compare op bound)

theorem Condition.From.criteria?_eq_none {raw : String} {cond : Condition} (h : cond.From raw) :
    cond.criteria? = none := by
  cases h <;> rfl

/-- A predicate on a field that was checked, with a text that the parameters give for it. -/
structure Predicate.Checked (c : Collection) (p : Params) (pr : Predicate) : Prop where
  plain : Text.isPlainToken pr.field = true
  allowed : c.isFilterable pr.field = true
  given : ∃ raw, p.Gives pr.field raw ∧ pr.condition.From raw

theorem checkToken_eq_ok {token : String} {u : Unit} :
    checkToken token = .ok u ↔ Text.isPlainToken token = true := check_eq_ok_iff

namespace Collection

variable {c : Collection} {p : Params}

theorem requireFilterable_eq_ok {field : String} {u : Unit} :
    c.requireFilterable field = .ok u ↔ c.isFilterable field = true := check_eq_ok_iff

theorem from_plainCondition (c : Collection) (field raw : String) :
    (c.plainCondition field raw).From raw := by
  rw [plainCondition]
  split
  · exact .contains
  · exact .equals

theorem readBound_eq_ok {name op raw : String} {x : Float} (h : readBound name op raw = .ok x) :
    Decimal.readFloat? (Text.trim raw.toList) = some x ∧ x.isFinite = true := by
  rw [readBound] at h
  split at h
  · next y hy =>
    cases h
    exact Option.filter_eq_some_iff.1 hy
  · cases h

theorem checked_of_operatorPredicate {name : String} {op : String × String} {pr : Predicate}
    {ops : List (String × String)} (hplain : Text.isPlainToken name = true)
    (hops : (name, .nested ops) ∈ p.filters) (hop : op ∈ ops)
    (h : c.operatorPredicate name op = .ok pr) : pr.Checked c p := by
  rw [operatorPredicate] at h
  split at h
  · obtain ⟨_, hallowed, h⟩ := bind_eq_ok.1 h
    obtain ⟨bound, hbound, h⟩ := bind_eq_ok.1 h
    cases h
    obtain ⟨hread, hfinite⟩ := readBound_eq_ok hbound
    exact ⟨hplain, requireFilterable_eq_ok.1 hallowed, _, .operator hops hop,
      .compare hread hfinite⟩
  · obtain ⟨_, hword, h⟩ := bind_eq_ok.1 h
    obtain ⟨_, hallowed, h⟩ := bind_eq_ok.1 h
    cases h
    exact ⟨checkToken_eq_ok.1 hword, requireFilterable_eq_ok.1 hallowed, _, .word hops hop,
      c.from_plainCondition op.1 op.2⟩

theorem checked_of_predicates {param : String × ParamValue} {prs : List Predicate}
    (hparam : param ∈ p.filters) (h : c.predicates param = .ok prs) :
    ∀ pr ∈ prs, pr.Checked c p := by
  obtain ⟨name, value⟩ := param
  obtain ⟨_, hplain, h⟩ := bind_eq_ok.1 h
  have hplain := checkToken_eq_ok.1 hplain
  intro pr hpr
  cases value with
  | single raw =>
    obtain ⟨_, hallowed, h⟩ := bind_eq_ok.1 h
    cases h
    obtain rfl := List.mem_singleton.1 hpr
    exact ⟨hplain, requireFilterable_eq_ok.1 hallowed, raw, .plain hparam,
      c.from_plainCondition name raw⟩
  | nested ops =>
    obtain ⟨op, hop, h⟩ := exists_mem_of_mapM h hpr
    exact checked_of_operatorPredicate hplain hparam hop h

/-- Every predicate of a compiled filter was checked. -/
theorem checked_of_filterOf {f : Filter} (h : c.filterOf p = .ok f) :
    ∀ pr ∈ f.predicates, pr.Checked c p := by
  obtain ⟨prss, hprss, h⟩ := bind_eq_ok.1 h
  cases h
  intro pr hpr
  obtain ⟨prs, hprs, hpr⟩ := List.mem_flatten.1 hpr
  obtain ⟨param, hparam, hprs⟩ := exists_mem_of_mapM hprss hprs
  exact checked_of_predicates hparam hprs pr hpr

end Collection

end Shelf
