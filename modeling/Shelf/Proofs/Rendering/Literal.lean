import Shelf.Proofs.Decimal.Operations
import Shelf.Proofs.Decimal.Numeral
import Shelf.Proofs.Json.Equality
import Shelf.Proofs.Rendering.Keys

/-!
Equality in the database and in memory.

The database compares strings and booleans as they are, and numbers by their values, whatever their
types. In memory a stored number is converted to a floating-point number and compared to the one
that the text reads as without the blanks around it. So whatever the database finds is accepted in
memory, and two things more are: a number for a text with blanks around it, and an integer for the
number that it is rounded to.

    text                stored              found    accepted
    25                  25, 25.0, "25"      yes      yes
    " 25"               25                  no       yes
    9007199254740993    9007199254740993    yes      yes
    9007199254740992    9007199254740993    no       yes
-/

namespace Shelf

/-! ### The database -/

/-- The value of a number, if it is finite. -/
def Number.value? : Number → Option ℚ
  | .int n  => some n
  | .real x => floatValue? x

/-- The value of a number in a document, if it is one and finite. -/
def DocValue.number? : DocValue → Option ℚ
  | .int32 n  => some n
  | .int64 n  => some n
  | .double x => floatValue? x
  | _         => none

/-- Whether a stored scalar is equal to a value in a query. -/
def DocValue.Equals (wanted : DocValue) : Json → Prop
  | .string s => wanted = .string s
  | .bool b   => wanted = .bool b
  | .number n => ∃ q, n.value? = some q ∧ wanted.number? = some q
  | _         => False

/-- The values of which a query asks for one. -/
def DocValue.alternatives : DocValue → List DocValue
  | .document [("$in", .array vs)] => vs
  | v                              => [v]

/-- Whether a query on a field finds a stored scalar. -/
def DocValue.Finds (query : DocValue) (stored : Json) : Prop :=
  ∃ v ∈ query.alternatives, v.Equals stored

/-! ### Readings of a text -/

theorem mem_literalReadings_iff {raw : String} {v : DocValue} :
    v ∈ literalReadings raw ↔ Reading raw v := by
  refine ⟨reading_of_mem_literalReadings, fun h => ?_⟩
  -- The two words do not read as numbers, so the order of the tests does not matter.
  have hword : Decimal.readFloat? raw.toList ≠ none → raw ≠ "true" ∧ raw ≠ "false" := by
    intro hnumber
    constructor
    · rintro rfl
      exact hnumber rfl
    · rintro rfl
      exact hnumber rfl
  rw [literalReadings]
  cases h with
  | yes htrue =>
    rw [if_pos htrue]
    exact List.mem_singleton_self _
  | no hfalse =>
    rw [if_neg (by rw [hfalse]; decide), if_pos hfalse]
    exact List.mem_singleton_self _
  | integer hread =>
    obtain ⟨x, hx, -⟩ := Decimal.readFloat?_of_readCount hread
    obtain ⟨htrue, hfalse⟩ := hword (by rw [hx]; exact Option.some_ne_none x)
    rw [if_neg htrue, if_neg hfalse]
    dsimp only
    rw [hread]
    exact List.mem_append_left _ (List.mem_singleton_self _)
  | real hread hfinite =>
    obtain ⟨htrue, hfalse⟩ := hword (by rw [hread]; exact Option.some_ne_none _)
    rw [if_neg htrue, if_neg hfalse]
    dsimp only
    rw [hread, Option.filter_some, if_pos hfinite]
    exact List.mem_append_right _ (List.mem_singleton_self _)

theorem alternatives_renderLiteral (raw : String) :
    (renderLiteral raw).alternatives = .string raw :: literalReadings raw := by
  rw [renderLiteral]
  split
  · next hnone => rw [hnone]; rfl
  · rfl

/-- A rendered text finds what is equal to the text or to one of its readings. -/
theorem finds_renderLiteral_iff {raw : String} {stored : Json} :
    (renderLiteral raw).Finds stored ↔
      DocValue.Equals (.string raw) stored ∨ ∃ v, Reading raw v ∧ v.Equals stored := by
  simp only [DocValue.Finds, alternatives_renderLiteral, List.exists_mem_cons_iff,
    mem_literalReadings_iff]

theorem finds_string_iff {raw s : String} : (renderLiteral raw).Finds (.string s) ↔ s = raw := by
  rw [finds_renderLiteral_iff]
  constructor
  · rintro (h | ⟨v, hread, h⟩)
    · exact (DocValue.string.inj h).symm
    · cases h
      cases hread
  · rintro rfl
    exact .inl rfl

theorem finds_bool_iff {raw : String} {b : Bool} :
    (renderLiteral raw).Finds (.bool b) ↔ raw = if b then "true" else "false" := by
  rw [finds_renderLiteral_iff]
  constructor
  · rintro (h | ⟨v, hread, h⟩)
    · cases h
    · cases h
      cases hread with
      | yes h => exact h
      | no h => exact h
  · intro h
    cases b with
    | true => exact .inr ⟨_, .yes h, rfl⟩
    | false => exact .inr ⟨_, .no h, rfl⟩

theorem finds_number_iff {raw : String} {n : Number} : (renderLiteral raw).Finds (.number n) ↔
    ∃ q, n.value? = some q ∧
      ((∃ i : Int, Decimal.readCount? raw.toList = some i ∧ (i : ℚ) = q) ∨
        ∃ x, Decimal.readFloat? raw.toList = some x ∧ floatValue? x = some q) := by
  rw [finds_renderLiteral_iff]
  constructor
  · rintro (⟨q, -, h⟩ | ⟨v, hread, q, hq, h⟩)
    · cases h
    · refine ⟨q, hq, ?_⟩
      cases hread with
      | yes => cases h
      | no => cases h
      | integer hread => exact .inl ⟨_, hread, Option.some.inj h⟩
      | real hread => exact .inr ⟨_, hread, h⟩
  · rintro ⟨q, hq, ⟨i, hread, hi⟩ | ⟨x, hread, hx⟩⟩
    · exact .inr ⟨_, .integer hread, q, hq, congrArg some hi⟩
    · exact .inr ⟨_, .real hread (isFinite_iff_exists_value.2 ⟨q, hx⟩), q, hq, hx⟩

/-! ### Conversions -/

namespace Number

variable {n : Number}

/-- A number that is converted without rounding. -/
def Exact (n : Number) : Prop := ∃ q, n.value? = some q ∧ floatValue? n.toFloat = some q

/-- Floating-point numbers stand as they are. -/
theorem exact_real {x : Float} (h : x.isFinite = true) : (real x).Exact :=
  have ⟨q, hq⟩ := isFinite_iff_exists_value.1 h
  ⟨q, hq, hq⟩

/-- Integers of at most 53 bits are not rounded. -/
theorem exact_int {i : Int} (h : i.natAbs ≤ 2 ^ 53) : (int i).Exact :=
  ⟨i, rfl, floatValue?_ofInt h⟩

theorem beq_of_value {x : Float} {q : ℚ} (hn : n.value? = some q) (hx : floatValue? x = some q) :
    (n.toFloat == x) = true := by
  cases n with
  | int i =>
    cases hn
    exact ofInt_beq_of_value hx
  | real y => exact float_beq_of_value hn hx

theorem beq_ofInt_of_value {i : Int} (hn : n.value? = some (i : ℚ)) :
    (n.toFloat == Float.ofInt i) = true := by
  cases n with
  | int j =>
    obtain rfl : j = i := by exact_mod_cast Option.some.inj hn
    exact Decimal.ofInt_beq_self j
  | real y =>
    rw [float_beq_comm]
    exact ofInt_beq_of_value hn

end Number

/-! ### Agreement -/

theorem holds_number_iff {raw : String} {n : Number} :
    (Condition.equals raw).holds (.number n) = true ↔
      ∃ x, Decimal.readFloat? (Text.trim raw.toList) = some x ∧ (n.toFloat == x) = true := by
  simp only [Condition.holds, Json.anyLeaf, equalsLiteral]
  cases Decimal.readFloat? (Text.trim raw.toList) with
  | none => simp
  | some x => simp

theorem finds_number_iff_holds {raw : String} {n : Number} :
    (renderLiteral raw).Finds (.number n) ↔
      (Condition.equals raw).holds (.number n) = true ∧ Text.trim raw.toList = raw.toList ∧
        (n.Exact ∨
          ∃ i : Int, Decimal.readCount? raw.toList = some i ∧ n.value? = some (i : ℚ)) := by
  rw [finds_number_iff, holds_number_iff]
  constructor
  · rintro ⟨q, hn, ⟨i, hi, rfl⟩ | ⟨x, hx, hq⟩⟩
    · obtain ⟨x, hx, hsame⟩ := Decimal.readFloat?_of_readCount hi
      have htrim := Text.trim_eq_self (Decimal.solid_of_readFloat hx)
      rw [htrim]
      exact ⟨⟨x, hx, float_beq_trans (Number.beq_ofInt_of_value hn) hsame⟩, rfl,
        .inr ⟨i, hi, hn⟩⟩
    · have hsame := Number.beq_of_value hn hq
      have htrim := Text.trim_eq_self (Decimal.solid_of_readFloat hx)
      rw [htrim]
      exact ⟨⟨x, hx, hsame⟩, rfl, .inl ⟨q, hn, (floatValue?_eq_of_beq hsame).trans hq⟩⟩
  · rintro ⟨⟨x, hx, hsame⟩, htrim, ⟨q, hn, hq⟩ | ⟨i, hi, hn⟩⟩
    · rw [htrim] at hx
      exact ⟨q, hn, .inr ⟨x, hx, (floatValue?_eq_of_beq hsame).symm.trans hq⟩⟩
    · exact ⟨i, hn, .inl ⟨i, hi, rfl⟩⟩

/-- How a rendered text and the text itself test stored scalars. Numbers are found when they are
accepted, the text has no blanks around it, and either the number is converted without rounding or
the text spells it. -/
structure EqualityRendered (raw : String) (query : DocValue) : Prop where
  strings : ∀ s, query.Finds (.string s) ↔ (Condition.equals raw).holds (.string s) = true
  bools : ∀ b, query.Finds (.bool b) ↔ (Condition.equals raw).holds (.bool b) = true
  numbers : ∀ n, query.Finds (.number n) ↔
    (Condition.equals raw).holds (.number n) = true ∧ Text.trim raw.toList = raw.toList ∧
      (n.Exact ∨ ∃ i : Int, Decimal.readCount? raw.toList = some i ∧ n.value? = some (i : ℚ))

/-- A condition of equality on a field other than the identifier, rendered. -/
theorem equalityRendered_of_field {field : String} (h : storedName field ≠ storedId)
    (raw : String) : ∃ query,
      (Filter.mk [⟨field, .equals raw⟩]).render = .ok [(storedName field, query)] ∧
        EqualityRendered raw query := by
  refine ⟨renderLiteral raw, ?_, ?_, ?_, fun n => finds_number_iff_holds⟩
  · rw [Filter.render, List.mapM_cons, List.mapM_nil, Predicate.render, Condition.render, if_neg h]
    rfl
  · intro s
    rw [finds_string_iff]
    exact beq_iff_eq.symm
  · intro b
    rw [finds_bool_iff]
    cases b
    · exact beq_iff_eq.symm
    · exact beq_iff_eq.symm

theorem equalityRendered_price : storedName "price" ≠ storedId ∧ ∃ query,
    (Filter.mk [⟨"price", .equals "25"⟩]).render = .ok [(storedName "price", query)] ∧
      EqualityRendered "25" query :=
  ⟨by decide, equalityRendered_of_field (by decide) "25"⟩

/-- An integer that is accepted for the number that it is rounded to, and not found. -/
theorem rounded_integer_not_found :
    (Condition.equals "9007199254740992").holds (.int 9007199254740993) = true ∧
      ¬ (renderLiteral "9007199254740992").Finds (.int 9007199254740993) := by
  have hcount : Decimal.readCount? "9007199254740992".toList = some 9007199254740992 := by decide
  have hvalue : ((Decimal.readFloat? "9007199254740992".toList).bind floatValue?) =
      some 9007199254740992 := by decide +kernel
  refine ⟨by decide +kernel, ?_⟩
  rw [Json.int, finds_number_iff]
  rintro ⟨q, hq, ⟨i, hi, rfl⟩ | ⟨x, hx, hxq⟩⟩
  · rw [hcount] at hi
    cases hi
    exact absurd (Option.some.inj hq) (by norm_num)
  · rw [hx, Option.bind_some, hxq, ← hq] at hvalue
    exact absurd (Option.some.inj hvalue) (by norm_num)

end Shelf
