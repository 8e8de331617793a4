import Shelf.Proofs.Decimal.Printed
import Shelf.Proofs.Filter.Flattened
import Shelf.Proofs.Uuid

/-!
A record is found by its own values.

A value of a field, put into a query object under the field's name, is written as a text, and the
text becomes a condition that the value satisfies: a string is equal to itself and found in itself,
a number is what its text is read as, and a boolean is what its text names. A list is found by each
of its leaves.

    {"brand": "Acme"}      brand=Acme     equals Acme
    {"price": 0.1}         price=0.1      the number that 0.1 is read as
    {"title": "Phone"}     title=Phone    contains Phone, up to case
-/

namespace Shelf

namespace Collection

variable {c : Collection} {field : String} {v w : Json}

/-- Clients may filter by the field, by its name alone. -/
structure Filters (c : Collection) (field : String) : Prop where
  plain : Text.isPlainToken field = true
  allowed : c.isFilterable field = true
  free : field ∉ reservedParams

/-- A value that a text can ask for: a string, or where text is not searched a number of JSON or a
boolean. -/
inductive Askable (c : Collection) (field : String) : Json → Prop
  | string {s : String} : Askable c field (.string s)
  | number {n : Number} : c.isTextSearch field = false → (Json.number n).isFinite = true →
      Askable c field (.number n)
  | bool {b : Bool} : c.isTextSearch field = false → Askable c field (.bool b)

/-! ### The text of a value -/

/-- The number that is printed is read back, also without the blanks around it. -/
theorem equalsText_number {n : Number} (h : (Json.number n).isFinite = true) :
    (Json.number n).EqualsText n.text := by
  obtain ⟨x, hread, hsame⟩ := Decimal.readFloat?_text h
  refine .number ?_ hsame
  rw [Text.trim_eq_self (Decimal.solid_of_readFloat hread)]
  exact hread

/-- A value satisfies the condition that its text becomes. -/
theorem satisfied_plainCondition (h : c.Askable field v) (hleaf : w.HasLeaf v) :
    ∃ text, scalarText? v = some text ∧ (c.plainCondition field text).Satisfied w := by
  have hequals : ∀ {text : String}, c.isTextSearch field = false → v.EqualsText text →
      (c.plainCondition field text).Satisfied w := by
    intro text hsearch htext
    rw [plainCondition, hsearch]
    exact .equals hleaf htext
  cases h with
  | @string s =>
    refine ⟨s, rfl, ?_⟩
    cases hsearch : c.isTextSearch field with
    | false => exact hequals hsearch .string
    | true =>
      rw [plainCondition, hsearch]
      have hwhole : s.toList = [] ++ s.toList ++ [] := by rw [List.nil_append, List.append_nil]
      exact .contains hleaf (.string hwhole (List.forall₂_same.2 fun _ _ => rfl))
  | @number n hsearch hfinite => exact ⟨n.text, rfl, hequals hsearch (equalsText_number hfinite)⟩
  | @bool b hsearch =>
    cases b with
    | false => exact ⟨"false", rfl, hequals hsearch (.bool rfl)⟩
    | true => exact ⟨"true", rfl, hequals hsearch (.bool rfl)⟩

/-! ### The query -/

theorem ofMember_scalar {text : String} (h : scalarText? v = some text) :
    ParamEdit.ofMember (field, v) = .ok [.insert field text] := by
  cases v with
  | object ms => cases h
  | _ => simp only [ParamEdit.ofMember, h]

/-- A query object with one member that is a scalar. -/
theorem ofJson_single {text : String} (h : scalarText? v = some text) :
    Params.ofJson (.object [(field, v)]) = .ok ⟨[(field, .single text)]⟩ := by
  rw [Params.ofJson, List.mapM_cons, ofMember_scalar h]
  rfl

theorem filterOf_single (h : c.Filters field) (text : String) :
    c.filterOf ⟨[(field, .single text)]⟩ = .ok ⟨[⟨field, c.plainCondition field text⟩]⟩ := by
  have hfilters : Params.filters ⟨[(field, .single text)]⟩ = [(field, .single text)] := by
    rw [Params.filters, List.filter_cons_of_pos (by simpa using h.free), List.filter_nil]
  have hpredicates : c.predicates (field, .single text) =
      .ok [⟨field, c.plainCondition field text⟩] := by
    rw [predicates, checkToken, if_pos h.plain, requireFilterable, if_pos h.allowed]
    rfl
  rw [filterOf, hfilters, List.mapM_cons, hpredicates]
  rfl

/-- A record is found by what one of its fields holds. -/
theorem finds_own_value {r : Record} (hfield : c.Filters field) (hvalue : r.valueOf? field = some w)
    (hleaf : w.HasLeaf v) (hv : c.Askable field v) :
    ∃ p f, Params.ofJson (.object [(field, v)]) = .ok p ∧ c.filterOf p = .ok f ∧
      f.accepts r = true := by
  obtain ⟨text, htext, hcondition⟩ := satisfied_plainCondition hv hleaf
  refine ⟨_, _, ofJson_single htext, filterOf_single hfield text, ?_⟩
  rw [(Filter.readsFlat _ r).accepts_iff]
  intro p hp
  obtain rfl := List.mem_singleton.1 hp
  exact ⟨w, hvalue, hcondition⟩

/-- A price in a list of prices, one that no power of two divides. -/
theorem finds_own_value_tenth : ∃ p f,
    Params.ofJson (.object [("price", .number (.real 0.1))]) = .ok p ∧ products.filterOf p = .ok f ∧
      f.accepts ⟨.uniform 1, [("price", .array [.null, .number (.real 0.1)])]⟩ = true :=
  finds_own_value ⟨by decide, by decide, by decide⟩ rfl
    (.item (List.mem_cons_of_mem _ List.mem_cons_self) (.self nofun))
    (.number (by decide) (by decide +kernel))

end Collection

end Shelf
