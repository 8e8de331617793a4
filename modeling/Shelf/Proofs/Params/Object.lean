import Shelf.Plan
import Shelf.Proofs.Outcome
import Shelf.Proofs.Params.Bracketed

/-!
Query objects and query texts.

A query object says in members what a query text says in pairs: a plain member is a pair of its
name, and each operator of a nested member is a pair of a key that names the operator. An object is
accepted when all its values are scalars, or objects of scalars. It then gives the parameters that
any text with its pairs gives, as long as the text can spell its names.

    {"brand": "Acme", "price": {"gte": 10}, "size": {}}      brand=Acme & price[gte]=10
-/

namespace Shelf

/-! ### Values that have a text -/

/-- Strings, numbers and booleans. -/
inductive Json.IsScalar : Json → Prop
  | string (s : String) : IsScalar (.string s)
  | number (n : Number) : IsScalar (.number n)
  | bool (b : Bool) : IsScalar (.bool b)

/-- Scalars, and objects of scalars. -/
inductive Json.IsParameter : Json → Prop
  | scalar {v : Json} : v.IsScalar → IsParameter v
  | operators {ops : Fields} : (∀ op ∈ ops, op.2.IsScalar) → IsParameter (.object ops)

/-- The text of a scalar; what is none has no text. -/
def scalarText (v : Json) : String := (scalarText? v).getD ""

theorem scalarText?_of_isScalar {v : Json} (h : v.IsScalar) :
    scalarText? v = some (scalarText v) := by
  cases h with
  | string s => rfl
  | number n => rfl
  | bool b => cases b <;> rfl

theorem scalarText?_eq_none {v : Json} (h : ¬ v.IsScalar) : scalarText? v = none := by
  cases v with
  | string s => exact absurd (.string s) h
  | number n => exact absurd (.number n) h
  | bool b => exact absurd (.bool b) h
  | _ => rfl

/-! ### Members and pairs -/

/-- The pairs of a query text that say what a member says. -/
def memberPairs : String × Json → List (String × String)
  | (name, .object ops) => ops.map fun op => (bracketed name op.1, scalarText op.2)
  | (name, v)           => [(name, scalarText v)]

/-- The keys of a query text can say what a member says: a plain name is no key that names an
operator, and a nested name and its operators make such a key. -/
inductive Spellable : String × Json → Prop
  | plain {name : String} {v : Json} : v.members? = none → (∀ n op, ¬ Brackets name n op) →
      Spellable (name, v)
  | nested {name : String} {ops : Fields} : name ≠ "" → '[' ∉ name.toList →
      (∀ op ∈ ops, '[' ∉ op.1.toList ∧ ']' ∉ op.1.toList) → Spellable (name, .object ops)

/-! ### Plain members -/

section Plain

variable {v : Json}

theorem Json.isParameter_iff_of_plain (h : v.members? = none) : v.IsParameter ↔ v.IsScalar := by
  refine ⟨fun hv => ?_, .scalar⟩
  cases hv with
  | scalar hv => exact hv
  | operators hops => cases h

theorem memberPairs_of_plain (h : v.members? = none) (name : String) :
    memberPairs (name, v) = [(name, scalarText v)] := by
  cases v with
  | object ops => cases h
  | _ => rfl

/-- A plain member is a plain edit if its value is a scalar. -/
theorem ParamEdit.ofMember_eq_ok_iff_of_plain (h : v.members? = none) {name : String}
    {edits : List ParamEdit} :
    ofMember (name, v) = .ok edits ↔ v.IsScalar ∧ edits = [.insert name (scalarText v)] := by
  have hmember : ofMember (name, v) =
      (scalarText? v).elim (.error (.invalidValue name .notScalarOrObject))
        fun text => .ok [.insert name text] := by
    cases v with
    | object ops => cases h
    | bool b => cases b <;> rfl
    | _ => rfl
  rw [hmember]
  by_cases hv : v.IsScalar
  · rw [scalarText?_of_isScalar hv, and_iff_right hv]
    exact ok_eq_ok_iff
  · rw [scalarText?_eq_none hv]
    exact iff_of_false (fun h => by cases h) fun hedits => hv hedits.1

end Plain

/-! ### Edits -/

namespace ParamEdit

/-- An operator is a nested edit if its value is a scalar. -/
theorem ofOperator_eq_ok_iff {name : String} {op : String × Json} {edit : ParamEdit} :
    ofOperator name op = .ok edit ↔
      op.2.IsScalar ∧ edit = .insertNested name op.1 (scalarText op.2) := by
  rw [ofOperator]
  by_cases hop : op.2.IsScalar
  · rw [scalarText?_of_isScalar hop, and_iff_right hop]
    exact ok_eq_ok_iff
  · rw [scalarText?_eq_none hop]
    exact iff_of_false (fun h => by cases h) fun hedit => hop hedit.1

/-- A member that the keys of a query text can spell comes to the edits of its pairs. -/
theorem ofMember_eq_ok_iff {m : String × Json} (h : Spellable m) {edits : List ParamEdit} :
    ofMember m = .ok edits ↔ m.2.IsParameter ∧ edits = (memberPairs m).map ofPair := by
  cases h with
  | @plain name v hplain hkey =>
    have hpair : ofPair (name, scalarText v) = .insert name (scalarText v) :=
      (askedBy_iff.1 (.plain hkey)).symm
    rw [ofMember_eq_ok_iff_of_plain hplain, Json.isParameter_iff_of_plain hplain,
      memberPairs_of_plain hplain, List.map_singleton, hpair]
  | @nested name ops hnamed hwhole hflat =>
    have hpairs : (memberPairs (name, .object ops)).map ofPair =
        ops.map fun op => .insertNested name op.1 (scalarText op.2) := by
      rw [memberPairs, List.map_map]
      refine List.map_congr_left fun op hop => ?_
      obtain ⟨hunopened, hunclosed⟩ := hflat op hop
      exact (askedBy_iff.1 (.nested ⟨rfl, hnamed, hwhole, hunopened, hunclosed⟩)).symm
    have hvalue : (Json.object ops).IsParameter ↔ ∀ op ∈ ops, op.2.IsScalar := by
      refine ⟨fun hv => ?_, .operators⟩
      cases hv with
      | scalar hv => cases hv
      | operators hops => exact hops
    rw [hpairs, hvalue]
    exact mapM_eq_ok_iff_map fun _ _ _ => ofOperator_eq_ok_iff

end ParamEdit

/-! ### Objects and texts -/

namespace Params

variable {ms : Fields}

/-- An object that a query text can spell comes to the edits of its pairs. -/
theorem ofJson_eq_ok_iff (h : ∀ m ∈ ms, Spellable m) {p : Params} :
    ofJson (.object ms) = .ok p ↔
      (∀ m ∈ ms, m.2.IsParameter) ∧ p = ofEdits ((ms.flatMap memberPairs).map ParamEdit.ofPair) := by
  have hedits : (ms.map fun m => (memberPairs m).map ParamEdit.ofPair).flatten =
      (ms.flatMap memberPairs).map ParamEdit.ofPair := by
    rw [← List.flatMap_def, List.map_flatMap]
  rw [ofJson, mapM_bind_eq_ok_iff fun m hm _ => ParamEdit.ofMember_eq_ok_iff (h m hm), hedits]
  exact and_congr_right fun _ => ok_eq_ok_iff

/-- An object that a query text can spell is accepted when its values are scalars or objects of
scalars, and it gives the parameters, and so the plan, of every text with its pairs. -/
theorem object_agrees_with_query (h : ∀ m ∈ ms, Spellable m) :
    ((∃ p, ofJson (.object ms) = .ok p) ↔ ∀ m ∈ ms, m.2.IsParameter) ∧
      ∀ raw, queryPairs raw = ms.flatMap memberPairs → ∀ p, ofJson (.object ms) = .ok p →
        p = ofQuery raw ∧ ∀ c paging,
          QueryPlan.compile c paging p = QueryPlan.compile c paging (ofQuery raw) := by
  refine ⟨⟨?_, fun hvalues => ?_⟩, fun raw hraw p hp => ?_⟩
  · rintro ⟨p, hp⟩
    exact ((ofJson_eq_ok_iff h).1 hp).1
  · exact ⟨_, (ofJson_eq_ok_iff h).2 ⟨hvalues, rfl⟩⟩
  · have hquery : p = ofQuery raw := by
      rw [((ofJson_eq_ok_iff h).1 hp).2, ← hraw]
      rfl
    exact ⟨hquery, fun c paging => by rw [hquery]⟩

/-- An escaped text, a number, an empty object, and operators of which one has its key escaped. -/
theorem object_agrees_with_query_escapes :
    let ms : Fields := [("brand", .string "Acme & Co"), ("limit", .int 5),
      ("price", .object [("gte", .int 10), ("lt", .string "20")]), ("size", .object [])]
    let raw := "?brand=Acme+%26+Co&limit=5&price[gte]=10&price%5Blt%5D=20"
    (∀ m ∈ ms, Spellable m) ∧ queryPairs raw = ms.flatMap memberPairs ∧
      ofJson (.object ms) = .ok (ofQuery raw) := by
  intro ms raw
  have hspellable : ∀ m ∈ ms, Spellable m := by
    have hplain : ∀ name v, v.members? = none → bracketKey? name = none → Spellable (name, v) :=
      fun _ _ hv hname => .plain hv (bracketKey?_eq_none_iff.1 hname)
    simp only [ms, List.forall_mem_cons]
    exact ⟨hplain _ _ rfl (by decide), hplain _ _ rfl (by decide),
      .nested (by decide) (by decide) (by decide), .nested (by decide) (by decide) (by decide),
      fun _ h => absurd h List.not_mem_nil⟩
  have hraw : queryPairs raw = ms.flatMap memberPairs := by decide +kernel
  have hvalues : ∀ m ∈ ms, m.2.IsParameter := by
    simp only [ms, List.forall_mem_cons]
    refine ⟨.scalar (.string _), .scalar (.number _), .operators ?_, .operators nofun, nofun⟩
    exact List.forall_mem_cons.2 ⟨.number _, List.forall_mem_cons.2 ⟨.string _, nofun⟩⟩
  obtain ⟨hmade, hagree⟩ := object_agrees_with_query hspellable
  obtain ⟨p, hp⟩ := hmade.2 hvalues
  rw [hp, (hagree raw hraw p hp).1]
  exact ⟨hspellable, hraw, rfl⟩

end Params

end Shelf
