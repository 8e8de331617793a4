import Mathlib.Data.List.Induction
import Shelf.Proofs.Arrival
import Shelf.Proofs.Filter.FromParams

/-!
What becomes of each request to filter.

The parameters that filter are a row of requests: a text for a name, perhaps under a word in
brackets. A word that is a comparison compares the field of that name; any other word names the
field itself. Each request is checked by itself, the first one that is refused decides, and without
one each becomes a single predicate at its place in the row.

    title=phone           title    title equals or contains phone
    price[gte]=10         price    price is at least 10
    price[brand]=Acme     brand    brand equals or contains Acme
    price[$where]=1                refused: `$where` is no plain token
-/

namespace Shelf

/-- A text that a client gives for a name, perhaps under a word in brackets. -/
structure Request where
  name : String
  word? : Option String
  text : String
  deriving DecidableEq

/-- The requests of one parameter, in the order of its words. -/
def ParamValue.requests (name : String) : ParamValue → List Request
  | .single text => [⟨name, none, text⟩]
  | .nested ops  => ops.map fun op => ⟨name, some op.1, op.2⟩

/-- The requests to filter, in order. -/
def Params.requests (p : Params) : List Request := p.filters.flatMap fun e => e.2.requests e.1

namespace Request

/-- The field that a request is about. -/
def field (r : Request) : String :=
  match r.word? with
  | some word => if word ∈ ["gte", "gt", "lte", "lt"] then r.name else word
  | none      => r.name

/-- The text reads as a finite number, blanks around it allowed. -/
def Bounds (r : Request) (x : Float) : Prop :=
  Decimal.readFloat? (Text.trim r.text.toList) = some x ∧ x.isFinite = true

/-- Everything that the collection asks of a request. -/
structure Admitted (c : Collection) (r : Request) : Prop where
  name_plain : Text.isPlainToken r.name = true
  field_plain : Text.isPlainToken r.field = true
  allowed : r.field ∈ c.filterable
  bounded : ∀ op : Comparator, r.word? = some op.token → ∃ x, r.Bounds x

/-- The predicate that a request stands for. -/
inductive StandsFor (c : Collection) (r : Request) : Predicate → Prop
  | compare {op : Comparator} {x : Float} : r.word? = some op.token → r.Bounds x →
      StandsFor c r ⟨r.name, .compare op x⟩
  | contains : (∀ op : Comparator, r.word? ≠ some op.token) → r.field ∈ c.textSearch →
      StandsFor c r ⟨r.field, .contains ⟨r.text⟩⟩
  | equals : (∀ op : Comparator, r.word? ≠ some op.token) → r.field ∉ c.textSearch →
      StandsFor c r ⟨r.field, .equals r.text⟩

/-- Why a request is refused: each cause counts where the ones before it do not hold. -/
inductive Refused (c : Collection) (r : Request) : Rejection → Prop
  | name : Text.isPlainToken r.name = false → Refused c r (.controlSyntax r.name)
  | field : Text.isPlainToken r.name = true → Text.isPlainToken r.field = false →
      Refused c r (.controlSyntax r.field)
  | unlisted : Text.isPlainToken r.name = true → Text.isPlainToken r.field = true →
      r.field ∉ c.filterable → Refused c r (.unknownField r.field)
  | bound {op : Comparator} : Text.isPlainToken r.name = true → Text.isPlainToken r.field = true →
      r.field ∈ c.filterable → r.word? = some op.token → (∀ x, ¬ r.Bounds x) →
      Refused c r (.invalidValue (bracketed r.name op.token) (.notANumber r.text))

/-- The comparison that the word in brackets is. -/
def comparison? (r : Request) : Option Comparator := r.word?.bind Comparator.ofToken?

end Request

/-! ### Words in brackets -/

theorem Comparator.ofToken?_eq_some_iff {op : Comparator} {word : String} :
    ofToken? word = some op ↔ word = op.token := by
  constructor
  · intro h
    have htoken := List.find?_some h
    simpa [eq_comm] using htoken
  · rintro rfl
    cases op <;> rfl

namespace Request

variable {r : Request}

theorem comparison?_eq_some_iff {op : Comparator} :
    r.comparison? = some op ↔ r.word? = some op.token := by
  rw [comparison?, Option.bind_eq_some_iff]
  simp only [Comparator.ofToken?_eq_some_iff, exists_eq_right]

theorem comparison?_eq_none_iff :
    r.comparison? = none ↔ ∀ op : Comparator, r.word? ≠ some op.token := by
  rw [Option.eq_none_iff_forall_ne_some]
  simp only [ne_eq, comparison?_eq_some_iff]

/-- A comparison is about the field of the name before it. -/
theorem field_of_comparison {op : Comparator} (h : r.word? = some op.token) :
    r.field = r.name := by
  rw [field, h]
  cases op <;> rfl

/-- Any other word is about the field that it names. -/
theorem field_of_word {name word text : String} (h : Comparator.ofToken? word = none) :
    (Request.mk name (some word) text).field = word := by
  have hword : word ∉ ["gte", "gt", "lte", "lt"] := by
    intro hmem
    simp only [List.mem_cons, List.not_mem_nil, or_false] at hmem
    rcases hmem with rfl | rfl | rfl | rfl <;> cases h
  exact if_neg hword

end Request

/-! ### One request -/

theorem checkToken_eq_error {token : String} {e : Rejection} :
    checkToken token = .error e ↔ Text.isPlainToken token = false ∧ e = .controlSyntax token :=
  check_eq_error_iff

namespace Collection

variable {c : Collection} {r : Request}

theorem requireFilterable_eq_error {field : String} {e : Rejection} :
    c.requireFilterable field = .error e ↔ c.isFilterable field = false ∧ e = .unknownField field :=
  check_eq_error_iff

theorem isFilterable_iff {field : String} : c.isFilterable field = true ↔ field ∈ c.filterable :=
  List.contains_iff_mem

theorem readBound_eq_ok_iff {op : String} {x : Float} :
    readBound r.name op r.text = .ok x ↔ r.Bounds x := by
  refine ⟨readBound_eq_ok, fun h => ?_⟩
  rw [readBound, Option.filter_eq_some_iff.2 h]

theorem readBound_eq_error_iff {op : String} {e : Rejection} :
    readBound r.name op r.text = .error e ↔
      (∀ x, ¬ r.Bounds x) ∧ e = .invalidValue (bracketed r.name op) (.notANumber r.text) := by
  cases h : readBound r.name op r.text with
  | ok x => exact iff_of_false (fun h => by cases h) fun hnone => hnone.1 x (readBound_eq_ok_iff.1 h)
  | error d =>
    have hnone : ∀ x, ¬ r.Bounds x := by
      intro x hx
      rw [readBound_eq_ok_iff.2 hx] at h
      cases h
    have hd : d = .invalidValue (bracketed r.name op) (.notANumber r.text) := by
      rw [readBound] at h
      split at h
      · cases h
      · cases h
        rfl
    rw [hd, Except.error.injEq, eq_comm]
    exact (and_iff_right hnone).symm

/-- What a request asks of its field. -/
def conditionFor (c : Collection) (r : Request) : Except Rejection Condition :=
  match r.comparison? with
  | some op => do return .compare op (← readBound r.name op.token r.text)
  | none    => return c.plainCondition r.field r.text

/-- The predicate of one request. -/
def answer (c : Collection) (r : Request) : Except Rejection Predicate := do
  checkToken r.name
  checkToken r.field
  c.requireFilterable r.field
  return ⟨r.field, ← c.conditionFor r⟩

theorem conditionFor_eq_ok_iff {cond : Condition} : c.conditionFor r = .ok cond ↔
    (∃ op x, r.word? = some op.token ∧ r.Bounds x ∧ cond = .compare op x) ∨
      (∀ op : Comparator, r.word? ≠ some op.token) ∧ cond = c.plainCondition r.field r.text := by
  rw [conditionFor]
  split
  · next op hop =>
    have hword := Request.comparison?_eq_some_iff.1 hop
    rw [bind_eq_ok]
    constructor
    · rintro ⟨x, hx, h⟩
      cases h
      exact .inl ⟨op, x, hword, readBound_eq_ok_iff.1 hx, rfl⟩
    · rintro (⟨op', x, hop', hx, rfl⟩ | ⟨hnone, -⟩)
      · rw [← Request.comparison?_eq_some_iff, hop, Option.some.injEq] at hop'
        exact ⟨x, readBound_eq_ok_iff.2 hx, by rw [hop']; rfl⟩
      · exact absurd hword (hnone op)
  · next hnone =>
    have hword := Request.comparison?_eq_none_iff.1 hnone
    constructor
    · intro h
      cases h
      exact .inr ⟨hword, rfl⟩
    · rintro (⟨op, x, hop, -⟩ | ⟨-, rfl⟩)
      · exact absurd hop (hword op)
      · rfl

theorem conditionFor_eq_error_iff {e : Rejection} : c.conditionFor r = .error e ↔
    ∃ op : Comparator, r.word? = some op.token ∧ (∀ x, ¬ r.Bounds x) ∧
      e = .invalidValue (bracketed r.name op.token) (.notANumber r.text) := by
  rw [conditionFor]
  split
  · next op hop =>
    have hword := Request.comparison?_eq_some_iff.1 hop
    rw [bind_eq_error]
    constructor
    · rintro (h | ⟨x, -, h⟩)
      · exact ⟨op, hword, readBound_eq_error_iff.1 h⟩
      · cases h
    · rintro ⟨op', hop', h⟩
      rw [← Request.comparison?_eq_some_iff, hop, Option.some.injEq] at hop'
      exact .inl (readBound_eq_error_iff.2 (hop' ▸ h))
  · next hnone =>
    refine iff_of_false (fun h => by cases h) ?_
    rintro ⟨op, hop, -⟩
    exact Request.comparison?_eq_none_iff.1 hnone op hop

/-- A request stands for its field under what it asks of it. -/
theorem standsFor_iff {pr : Predicate} :
    r.StandsFor c pr ↔ ∃ cond, c.conditionFor r = .ok cond ∧ pr = ⟨r.field, cond⟩ := by
  constructor
  · rintro (⟨hop, hx⟩ | ⟨hword, htext⟩ | ⟨hword, htext⟩)
    · exact ⟨_, conditionFor_eq_ok_iff.2 (.inl ⟨_, _, hop, hx, rfl⟩), by
        rw [Request.field_of_comparison hop]⟩
    · have hplain : c.plainCondition r.field r.text = .contains ⟨r.text⟩ := by
        rw [plainCondition, isTextSearch, List.contains_iff_mem.2 htext]
        rfl
      exact ⟨_, conditionFor_eq_ok_iff.2 (.inr ⟨hword, rfl⟩), by rw [hplain]⟩
    · have hplain : c.plainCondition r.field r.text = .equals r.text := by
        rw [plainCondition, isTextSearch, if_neg (mt List.contains_iff_mem.1 htext)]
      exact ⟨_, conditionFor_eq_ok_iff.2 (.inr ⟨hword, rfl⟩), by rw [hplain]⟩
  · rintro ⟨cond, h, rfl⟩
    rcases conditionFor_eq_ok_iff.1 h with ⟨op, x, hop, hx, rfl⟩ | ⟨hword, rfl⟩
    · rw [Request.field_of_comparison hop]
      exact .compare hop hx
    · rw [plainCondition]
      split
      · next htext => exact .contains hword (List.contains_iff_mem.1 htext)
      · next htext => exact .equals hword (mt List.contains_iff_mem.2 htext)

/-- A request is answered when it is admitted, with the predicate that it stands for. -/
theorem answer_eq_ok_iff {pr : Predicate} :
    c.answer r = .ok pr ↔ r.Admitted c ∧ r.StandsFor c pr := by
  rw [standsFor_iff]
  constructor
  · intro h
    obtain ⟨_, hname, h⟩ := bind_eq_ok.1 h
    obtain ⟨_, hfield, h⟩ := bind_eq_ok.1 h
    obtain ⟨_, hallowed, h⟩ := bind_eq_ok.1 h
    obtain ⟨cond, hcond, h⟩ := bind_eq_ok.1 h
    cases h
    refine ⟨⟨checkToken_eq_ok.1 hname, checkToken_eq_ok.1 hfield,
      isFilterable_iff.1 (requireFilterable_eq_ok.1 hallowed), fun op hop => ?_⟩, cond, hcond, rfl⟩
    rcases conditionFor_eq_ok_iff.1 hcond with ⟨_, x, -, hx, -⟩ | ⟨hword, -⟩
    · exact ⟨x, hx⟩
    · exact absurd hop (hword op)
  · rintro ⟨h, cond, hcond, rfl⟩
    refine bind_eq_ok.2 ⟨(), checkToken_eq_ok.2 h.name_plain, ?_⟩
    refine bind_eq_ok.2 ⟨(), checkToken_eq_ok.2 h.field_plain, ?_⟩
    refine bind_eq_ok.2 ⟨(), requireFilterable_eq_ok.2 (isFilterable_iff.2 h.allowed), ?_⟩
    exact bind_eq_ok.2 ⟨cond, hcond, rfl⟩

theorem exists_answer_iff : (∃ pr, c.answer r = .ok pr) ↔ r.Admitted c := by
  constructor
  · rintro ⟨pr, h⟩
    exact (answer_eq_ok_iff.1 h).1
  · intro h
    cases hop : r.comparison? with
    | some op =>
      have hword := Request.comparison?_eq_some_iff.1 hop
      obtain ⟨x, hx⟩ := h.bounded op hword
      exact ⟨_, answer_eq_ok_iff.2 ⟨h, .compare hword hx⟩⟩
    | none =>
      have hword := Request.comparison?_eq_none_iff.1 hop
      by_cases htext : r.field ∈ c.textSearch
      · exact ⟨_, answer_eq_ok_iff.2 ⟨h, .contains hword htext⟩⟩
      · exact ⟨_, answer_eq_ok_iff.2 ⟨h, .equals hword htext⟩⟩

/-- A request that is not answered is refused for the first of the causes that holds. -/
theorem refused_of_answer {e : Rejection} (h : c.answer r = .error e) : r.Refused c e := by
  rcases bind_eq_error.1 h with h | ⟨_, hname, h⟩
  · obtain ⟨hname, rfl⟩ := checkToken_eq_error.1 h
    exact .name hname
  have hname := checkToken_eq_ok.1 hname
  rcases bind_eq_error.1 h with h | ⟨_, hfield, h⟩
  · obtain ⟨hfield, rfl⟩ := checkToken_eq_error.1 h
    exact .field hname hfield
  have hfield := checkToken_eq_ok.1 hfield
  rcases bind_eq_error.1 h with h | ⟨_, hallowed, h⟩
  · obtain ⟨hlist, rfl⟩ := requireFilterable_eq_error.1 h
    exact .unlisted hname hfield fun hmem => by simp [isFilterable_iff.2 hmem] at hlist
  have hallowed := isFilterable_iff.1 (requireFilterable_eq_ok.1 hallowed)
  rcases bind_eq_error.1 h with h | ⟨_, -, h⟩
  · obtain ⟨op, hop, hnone, rfl⟩ := conditionFor_eq_error_iff.1 h
    exact .bound hname hfield hallowed hop hnone
  · cases h

/-! ### All requests -/

/-- An operator is answered as a request, where its name is a plain token. -/
theorem operatorPredicate_eq_answer {name : String} (hname : checkToken name = .ok ())
    (op : String × String) :
    c.operatorPredicate name op = c.answer ⟨name, some op.1, op.2⟩ := by
  obtain ⟨word, text⟩ := op
  cases hword : Comparator.ofToken? word with
  | some comparison =>
    obtain rfl := Comparator.ofToken?_eq_some_iff.1 hword
    have hfield := Request.field_of_comparison (r := ⟨name, some comparison.token, text⟩) rfl
    have hcomp : (Request.mk name (some comparison.token) text).comparison? = some comparison :=
      Request.comparison?_eq_some_iff.2 rfl
    rw [operatorPredicate, hword, answer, conditionFor, hcomp, hfield, hname]
    dsimp only
    cases c.requireFilterable name with
    | error e => rfl
    | ok u => cases readBound name comparison.token text <;> rfl
  | none =>
    have hcomp : (Request.mk name (some word) text).comparison? = none := hword
    rw [operatorPredicate, hword, answer, conditionFor, hcomp, Request.field_of_word hword, hname]
    cases checkToken word with
    | error e => rfl
    | ok u => cases c.requireFilterable word <;> rfl

/-- A parameter is answered request by request, if it has any. -/
theorem predicates_eq_answers {name : String} {value : ParamValue} (h : value ≠ .nested []) :
    c.predicates (name, value) = (value.requests name).mapM c.answer := by
  cases hname : checkToken name with
  | error e =>
    -- the name is checked again for each request, and the first time is enough
    have hrefused : ∀ word? text, c.answer ⟨name, word?, text⟩ = .error e := by
      intro word? text
      rw [answer, hname]
      rfl
    rw [predicates, hname]
    cases value with
    | single text =>
      rw [ParamValue.requests, List.mapM_cons, hrefused]
      rfl
    | nested ops =>
      cases ops with
      | nil => exact absurd rfl h
      | cons op ops =>
        rw [ParamValue.requests, List.map_cons, List.mapM_cons, hrefused]
        rfl
  | ok u =>
    rw [predicates, hname]
    cases value with
    | single text =>
      rw [ParamValue.requests, List.mapM_cons, List.mapM_nil, answer, conditionFor]
      have hfield : (Request.mk name none text).field = name := rfl
      rw [hfield, hname]
      cases c.requireFilterable name <;> rfl
    | nested ops =>
      rw [ParamValue.requests, List.mapM_map]
      exact congrArg ops.mapM (funext (operatorPredicate_eq_answer hname))

end Collection

/-- No parameter is nested without an operator. -/
def Params.Filled (p : Params) : Prop := ∀ e ∈ p.entries, e.2 ≠ .nested []

theorem Params.Filled.apply {p : Params} (h : p.Filled) (edit : ParamEdit) :
    (p.apply edit).Filled := by
  intro e he
  cases edit with
  | insert name text =>
    rcases Arrival.mem_put he with rfl | he
    · exact ParamValue.noConfusion
    · exact h e he
  | insertNested name op text =>
    rcases Arrival.mem_put he with rfl | he
    · exact fun hnil => Arrival.put_ne_nil _ _ _ (ParamValue.nested.inj hnil)
    · exact h e he

/-- Parameters that were written one by one: a nested one is written with its first operator. -/
theorem Params.filled_ofEdits (edits : List ParamEdit) : (ofEdits edits).Filled := by
  induction edits using List.reverseRecOn with
  | nil => exact fun e he => absurd he List.not_mem_nil
  | append_singleton edits edit ih =>
    rw [ofEdits, List.foldl_concat]
    exact ih.apply edit

namespace Collection

variable {c : Collection} {p : Params}

/-- The filter is the answer to all requests in a row. -/
theorem filterOf_eq (h : p.Filled) :
    c.filterOf p = (p.requests.mapM c.answer).map Filter.mk := by
  have hrows : ∀ e ∈ p.filters, c.predicates e = (e.2.requests e.1).mapM c.answer :=
    fun e he => predicates_eq_answers (h e (List.mem_of_mem_filter he))
  rw [Params.requests, ← map_flatten_mapM hrows, filterOf]
  cases p.filters.mapM c.predicates <;> rfl

/-- What a row of requests comes to: the filter with a predicate for each, or the refusal of the
first that is not admitted. -/
structure Translates (c : Collection) (rs : List Request) (outcome : Except Rejection Filter) :
    Prop where
  passes_iff : (∃ f, outcome = .ok f) ↔ ∀ r ∈ rs, r.Admitted c
  predicates : ∀ f, outcome = .ok f → List.Forall₂ (Request.StandsFor c) rs f.predicates
  refusal : ∀ e, outcome = .error e → ∃ before r after, rs = before ++ r :: after ∧
    (∀ q ∈ before, q.Admitted c) ∧ r.Refused c e

/-- Every request counts, in its place and on its own. -/
theorem translates_filterOf (c : Collection) (edits : List ParamEdit) :
    c.Translates (Params.ofEdits edits).requests (c.filterOf (.ofEdits edits)) := by
  rw [filterOf_eq (Params.filled_ofEdits edits)]
  generalize (Params.ofEdits edits).requests = rs
  cases hrs : rs.mapM c.answer with
  | error e =>
    obtain ⟨before, r, after, rfl, hbefore, hr⟩ := mapM_eq_error.1 hrs
    refine ⟨iff_of_false ?_ fun h => ?_, fun f hf => ?_, fun d hd => ?_⟩
    · rintro ⟨f, hf⟩
      cases hf
    · obtain ⟨pr, hpr⟩ := exists_answer_iff.2 (h r (by simp))
      cases hr.symm.trans hpr
    · cases hf
    · cases hd
      exact ⟨before, r, after, rfl, fun q hq => exists_answer_iff.1 (hbefore q hq),
        refused_of_answer hr⟩
  | ok prs =>
    have hall := exists_mapM_ok_iff.1 ⟨prs, hrs⟩
    refine ⟨iff_of_true ⟨_, rfl⟩ fun r hr => exists_answer_iff.1 (hall r hr), fun f hf => ?_,
      fun d hd => ?_⟩
    · cases hf
      exact (mapM_eq_ok.1 hrs).imp fun r pr h => (answer_eq_ok_iff.1 h).2
    · cases hd

end Collection

end Shelf
