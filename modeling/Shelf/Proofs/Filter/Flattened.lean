import Shelf.Proofs.Filter.FromParams
import Shelf.Proofs.Json.Members
import Shelf.Proofs.Order.Float

/-!
What a filter asks of a record, said without the evaluation.

A scalar condition looks at the leaves of a value: whatever is no list and is reached from the value
through lists, however deep. One leaf has to pass. A condition on elements looks at the items of a
list and no further.

    tags = [["new"], [["sale"], {}]]     leaves    "new", "sale", {}
    tags = "sale"                        leaves    "sale"
    tags = [], [[]]                      leaves    none
-/

namespace Shelf

/-! ### Leaves -/

namespace Json

/-- What is no list and is reached from a value through lists. -/
inductive HasLeaf : Json → Json → Prop
  | self {v : Json} : (∀ xs, v ≠ .array xs) → HasLeaf v v
  | item {x leaf : Json} {xs : List Json} : x ∈ xs → HasLeaf x leaf → HasLeaf (.array xs) leaf

/-- A value in a list of its own, or in several of them around each other. -/
inductive Wraps (v : Json) : Json → Prop
  | self : Wraps v v
  | list {w : Json} : Wraps v w → Wraps v (.array [w])

variable {test : Json → Bool} {v leaf : Json}

theorem hasLeaf_iff_of_not_list (h : ∀ xs, v ≠ .array xs) : v.HasLeaf leaf ↔ leaf = v := by
  constructor
  · rintro (_ | _)
    · rfl
    · exact absurd rfl (h _)
  · rintro rfl
    exact .self h

theorem hasLeaf_array_iff {xs : List Json} :
    (array xs).HasLeaf leaf ↔ ∃ x ∈ xs, x.HasLeaf leaf := by
  constructor
  · rintro (h | ⟨hx, hleaf⟩)
    · exact absurd rfl (h xs)
    · exact ⟨_, hx, hleaf⟩
  · rintro ⟨x, hx, hleaf⟩
    exact .item hx hleaf

theorem hasLeaf_of_wraps {w : Json} (h : v.Wraps w) : w.HasLeaf leaf ↔ v.HasLeaf leaf := by
  induction h with
  | self => exact Iff.rfl
  | list _ ih => rw [hasLeaf_array_iff, List.exists_mem_cons_iff, ih]; simp

mutual

/-- A test accepts a value when it accepts one of its leaves. -/
theorem anyLeaf_iff (v : Json) :
    v.anyLeaf test = true ↔ ∃ leaf, v.HasLeaf leaf ∧ test leaf = true := by
  have hscalar (hv : ∀ xs, v ≠ .array xs) :
      test v = true ↔ ∃ leaf, v.HasLeaf leaf ∧ test leaf = true := by
    simp only [hasLeaf_iff_of_not_list hv, exists_eq_left]
  cases v with
  | array xs =>
    simp only [anyLeaf, anyLeafItem_iff xs, hasLeaf_array_iff]
    constructor
    · rintro ⟨x, hx, leaf, hleaf, htest⟩
      exact ⟨leaf, ⟨x, hx, hleaf⟩, htest⟩
    · rintro ⟨leaf, ⟨x, hx, hleaf⟩, htest⟩
      exact ⟨x, hx, leaf, hleaf, htest⟩
  | _ => exact hscalar (by simp)

theorem anyLeafItem_iff (xs : List Json) : anyLeafItem test xs = true ↔
    ∃ x ∈ xs, ∃ leaf, x.HasLeaf leaf ∧ test leaf = true := by
  cases xs with
  | nil => simp [anyLeafItem]
  | cons x xs =>
    rw [anyLeafItem, Bool.or_eq_true, anyLeaf_iff x, anyLeafItem_iff xs, List.exists_mem_cons_iff]

end

end Json

/-! ### Scalars -/

/-- How a stored number stands to a bound. -/
def Comparator.Relates : Comparator → Float → Float → Prop
  | .gt,  x, bound => bound < x
  | .gte, x, bound => bound ≤ x
  | .lt,  x, bound => x < bound
  | .lte, x, bound => x ≤ bound

/-- The same character up to case. -/
def Text.SameUpToCase (c d : Char) : Prop := Text.foldCase c = Text.foldCase d

namespace Json

/-- The text itself, a number that it reads as without blanks around it, or the boolean that it
names. -/
inductive EqualsText (raw : String) : Json → Prop
  | string : EqualsText raw (.string raw)
  | number {n : Number} {x : Float} : Decimal.readFloat? (Text.trim raw.toList) = some x →
      (n.toFloat == x) = true → EqualsText raw (.number n)
  | bool {b : Bool} : raw = (if b then "true" else "false") → EqualsText raw (.bool b)

/-- A number on the right side of the bound. -/
inductive OnSide (op : Comparator) (bound : Float) : Json → Prop
  | number {n : Number} : op.Relates n.toFloat bound → OnSide op bound (.number n)

/-- A string with a stretch that is the needle, character by character up to case. -/
inductive HasStretch (needle : String) : Json → Prop
  | string {s : String} {before stretch after : List Char} :
      s.toList = before ++ stretch ++ after →
      List.Forall₂ Text.SameUpToCase stretch needle.toList → HasStretch needle (.string s)

/-- An object with all of these members. -/
inductive HasMembers (criteria : Fields) : Json → Prop
  | object {ms : Fields} : (∀ m ∈ criteria, ∃ v, ms.get? m.1 = some v ∧ (v == m.2) = true) →
      HasMembers criteria (.object ms)

end Json

theorem equalsLiteral_iff {stored : Json} {raw : String} :
    equalsLiteral stored raw = true ↔ stored.EqualsText raw := by
  cases stored with
  | string s =>
    rw [equalsLiteral, beq_iff_eq]
    constructor
    · rintro rfl
      exact .string
    · rintro ⟨⟩
      rfl
  | number n =>
    rw [equalsLiteral]
    constructor
    · intro h
      split at h
      · next x hx => exact .number hx h
      · cases h
    · rintro ⟨⟩
      next x hx h => rw [hx]; exact h
  | bool b =>
    have hword : equalsLiteral (.bool b) raw = true ↔ raw = if b then "true" else "false" := by
      cases b <;> exact beq_iff_eq
    rw [hword]
    constructor
    · exact fun h => .bool h
    · rintro ⟨⟩
      assumption
  | null => exact ⟨nofun, nofun⟩
  | array xs => exact ⟨nofun, nofun⟩
  | object ms => exact ⟨nofun, nofun⟩

theorem Comparator.relates_iff {op : Comparator} {x bound : Float} :
    op.Relates x bound ↔ ∃ o, compareFloats? x bound = some o ∧ op.holds o = true := by
  cases op <;> simp only [Relates, float_lt_iff, float_le_iff, compareFloats?_eq,
    unpacked_compare_swap (unpacked x) (unpacked bound)] <;>
    rcases (unpacked x).compare (unpacked bound) with _ | _ | _ | _ <;> simp [holds]

theorem withinBound_iff {op : Comparator} {bound : Float} {stored : Json} :
    withinBound op bound stored = true ↔ stored.OnSide op bound := by
  have hread : withinBound op bound stored = true ↔
      ∃ x, stored.float? = some x ∧ op.Relates x bound := by
    rw [withinBound]
    cases stored.float? with
    | none => simp
    | some x =>
      simp only [Option.bind_some, Option.some.injEq, exists_eq_left', Comparator.relates_iff]
      cases compareFloats? x bound <;> simp
  rw [hread]
  constructor
  · rintro ⟨x, hx, hside⟩
    cases stored <;> cases hx
    exact .number hside
  · rintro ⟨hside⟩
    exact ⟨_, rfl, hside⟩

theorem Text.forall₂_sameUpToCase_iff {cs ds : List Char} :
    List.Forall₂ SameUpToCase cs ds ↔ cs.map foldCase = ds.map foldCase := by
  rw [← List.forall₂_eq_eq_eq, List.forall₂_map_left_iff, List.forall₂_map_right_iff]
  rfl

/-- A pattern occurs as some stretch of the text. -/
theorem TextPattern.isMatch_iff {p : TextPattern} {text : String} : p.isMatch text = true ↔
    ∃ before stretch after, text.toList = before ++ stretch ++ after ∧
      List.Forall₂ Text.SameUpToCase stretch p.needle.toList := by
  simp only [Text.forall₂_sameUpToCase_iff]
  rw [isMatch, Text.occursCaseless, Text.occurs_iff_isInfix]
  constructor
  · rintro ⟨before, after, h⟩
    obtain ⟨front, back, hfront, hstretch, -⟩ := List.map_eq_append_iff.1 h.symm
    obtain ⟨first, second, rfl, -, hsame⟩ := List.map_eq_append_iff.1 hstretch
    exact ⟨first, second, back, hfront, hsame⟩
  · rintro ⟨before, stretch, after, htext, hsame⟩
    rw [htext, List.map_append, List.map_append, hsame]
    exact List.infix_append ..

theorem containsPattern_iff {p : TextPattern} {stored : Json} :
    containsPattern p stored = true ↔ stored.HasStretch p.needle := by
  cases stored with
  | string s =>
    rw [containsPattern, TextPattern.isMatch_iff]
    constructor
    · rintro ⟨before, stretch, after, htext, hsame⟩
      exact .string htext hsame
    · rintro ⟨htext, hsame⟩
      exact ⟨_, _, _, htext, hsame⟩
  | _ => exact ⟨nofun, nofun⟩

theorem Json.carries_iff {v : Json} {criteria : Fields} :
    v.carries criteria = true ↔ v.HasMembers criteria := by
  cases v with
  | object ms =>
    rw [carries, Fields.carries_iff]
    exact ⟨fun h => .object h, fun ⟨h⟩ => h⟩
  | _ => exact ⟨nofun, nofun⟩

/-! ### Conditions -/

namespace Condition

/-- The value satisfies the condition. -/
inductive Satisfied (v : Json) : Condition → Prop
  | equals {raw : String} {leaf : Json} : v.HasLeaf leaf → leaf.EqualsText raw →
      Satisfied v (.equals raw)
  | compare {op : Comparator} {bound : Float} {leaf : Json} : v.HasLeaf leaf →
      leaf.OnSide op bound → Satisfied v (.compare op bound)
  | contains {p : TextPattern} {leaf : Json} : v.HasLeaf leaf → leaf.HasStretch p.needle →
      Satisfied v (.contains p)
  | elementMatch {criteria : Fields} {xs : List Json} {x : Json} : v = .array xs → x ∈ xs →
      x.HasMembers criteria → Satisfied v (.elementMatch criteria)

variable {c : Condition} {v w : Json}

theorem holds_iff : c.holds v = true ↔ c.Satisfied v := by
  cases c with
  | equals raw =>
    simp only [holds, Json.anyLeaf_iff, equalsLiteral_iff]
    exact ⟨fun ⟨leaf, hleaf, h⟩ => .equals hleaf h, fun | .equals hleaf h => ⟨_, hleaf, h⟩⟩
  | compare op bound =>
    simp only [holds, Json.anyLeaf_iff, withinBound_iff]
    exact ⟨fun ⟨leaf, hleaf, h⟩ => .compare hleaf h, fun | .compare hleaf h => ⟨_, hleaf, h⟩⟩
  | contains p =>
    simp only [holds, Json.anyLeaf_iff, containsPattern_iff]
    exact ⟨fun ⟨leaf, hleaf, h⟩ => .contains hleaf h, fun | .contains hleaf h => ⟨_, hleaf, h⟩⟩
  | elementMatch criteria =>
    simp only [holds, List.any_eq_true, Json.carries_iff]
    constructor
    · rintro ⟨x, hx, h⟩
      cases v <;>
        simp only [Json.items?, Option.getD_none, Option.getD_some, List.not_mem_nil] at hx
      exact .elementMatch rfl hx h
    · intro hsatisfied
      cases hsatisfied with
      | elementMatch hv hx h =>
        subst hv
        exact ⟨_, hx, h⟩

/-- A scalar condition depends on the leaves alone. -/
theorem holds_congr (hscalar : c.criteria? = none)
    (h : ∀ leaf, w.HasLeaf leaf ↔ v.HasLeaf leaf) : c.holds w = c.holds v := by
  rw [Bool.eq_iff_iff]
  cases c with
  | elementMatch criteria => cases hscalar
  | _ => simp only [holds, Json.anyLeaf_iff, h]

end Condition

/-- What no scalar condition accepts: null, an object, a list without items. -/
inductive Json.Bare : Json → Prop
  | null : Bare .null
  | object {ms : Fields} : Bare (.object ms)
  | empty : Bare (.array [])

theorem Condition.holds_of_bare {c : Condition} {v : Json} (hscalar : c.criteria? = none)
    (h : v.Bare) : c.holds v = false := by
  cases c with
  | elementMatch criteria => cases hscalar
  | _ => cases h <;> rfl

/-! ### Filters -/

/-- What a filter asks of a record. -/
structure Filter.ReadsFlat (f : Filter) (r : Record) : Prop where
  accepts_iff : f.accepts r = true ↔
    ∀ p ∈ f.predicates, ∃ v, r.valueOf? p.field = some v ∧ p.condition.Satisfied v
  absent : ∀ p ∈ f.predicates, r.valueOf? p.field = none → f.accepts r = false
  bare : ∀ p ∈ f.predicates, p.condition.criteria? = none → ∀ v, r.valueOf? p.field = some v →
    v.Bare → f.accepts r = false
  wrapped : ∀ w : Record, (∀ p ∈ f.predicates, w.valueOf? p.field = r.valueOf? p.field ∨
    p.condition.criteria? = none ∧
      ∃ u v, w.valueOf? p.field = some u ∧ r.valueOf? p.field = some v ∧ v.Wraps u) →
    f.accepts w = f.accepts r

theorem Predicate.accepts_iff {p : Predicate} {r : Record} : p.accepts r = true ↔
    ∃ v, r.valueOf? p.field = some v ∧ p.condition.Satisfied v := by
  rw [accepts]
  cases r.valueOf? p.field with
  | none => simp
  | some v => simp [Condition.holds_iff]

namespace Filter

theorem accepts_eq_false {f : Filter} {p : Predicate} {r : Record} (hp : p ∈ f.predicates)
    (h : p.accepts r = false) : f.accepts r = false := by
  rw [accepts, List.all_eq_false]
  exact ⟨p, hp, by simp [h]⟩

/-- Every filter reads every record so. -/
theorem readsFlat (f : Filter) (r : Record) : f.ReadsFlat r := by
  refine ⟨?_, ?_, ?_, ?_⟩
  · simp only [accepts, List.all_eq_true, Predicate.accepts_iff]
  · intro p hp hnone
    exact accepts_eq_false hp (by rw [Predicate.accepts, hnone])
  · intro p hp hscalar v hv hbare
    refine accepts_eq_false hp ?_
    rw [Predicate.accepts, hv]
    exact Condition.holds_of_bare hscalar hbare
  · intro w h
    have hsame : ∀ p ∈ f.predicates, p.accepts w = p.accepts r := by
      intro p hp
      rw [Predicate.accepts, Predicate.accepts]
      rcases h p hp with hsame | ⟨hscalar, u, v, hu, hv, hwraps⟩
      · rw [hsame]
      · rw [hu, hv]
        exact Condition.holds_congr hscalar fun leaf => Json.hasLeaf_of_wraps hwraps
    rw [Bool.eq_iff_iff, accepts, accepts, List.all_eq_true, List.all_eq_true]
    exact forall₂_congr fun p hp => by rw [hsame p hp]

end Filter

end Shelf
