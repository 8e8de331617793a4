import Shelf.Proofs.Json.Finite
import Shelf.Proofs.Order.Float

/-!
Equality of JSON values.

Values are equal in kind and in value, so `1` is not `1.0`, and `0.0` is `-0.0`. Equality reads the
same from both sides and is transitive. Only a value that holds NaN differs from itself, and JSON
has no such value.
-/

namespace Shelf

/-! ### Numbers -/

theorem float_beq_comm (x y : Float) : (x == y) = (y == x) := by
  rw [Bool.eq_iff_iff, float_beq_iff, float_beq_iff, unpacked_compare_swap (unpacked x)]
  rcases (unpacked x).compare (unpacked y) with _ | _ | _ | _ <;> simp

theorem float_beq_trans {x y z : Float} (hxy : (x == y) = true) (hyz : (y == z) = true) :
    (x == z) = true := by
  rw [Float.beq_iff_ne_nan_and_eq] at hxy hyz ⊢
  obtain ⟨hx, hy, hxy⟩ := hxy
  obtain ⟨-, hz, hyz⟩ := hyz
  have hzero : (0 : Float) ≠ -0 := by decide
  refine ⟨hx, hz, ?_⟩
  rcases hxy with rfl | ⟨rfl, rfl⟩ | ⟨rfl, rfl⟩
  · exact hyz
  · rcases hyz with rfl | ⟨h, rfl⟩ | ⟨-, rfl⟩
    · exact .inr (.inl ⟨rfl, rfl⟩)
    · exact absurd h.symm hzero
    · exact .inl rfl
  · rcases hyz with rfl | ⟨-, rfl⟩ | ⟨h, rfl⟩
    · exact .inr (.inr ⟨rfl, rfl⟩)
    · exact .inl rfl
    · exact absurd h hzero

theorem float_beq_self {x : Float} (h : x.isFinite = true) : (x == x) = true := by
  rw [Float.beq_self_iff]
  rintro rfl
  exact absurd h (by decide)

namespace Number

theorem beq_comm (a b : Number) : a.beq b = b.beq a := by
  cases a <;> cases b
  · exact Bool.beq_comm
  · rfl
  · rfl
  · exact float_beq_comm _ _

theorem beq_trans {a b c : Number} (hab : a.beq b = true) (hbc : b.beq c = true) :
    a.beq c = true := by
  cases a <;> cases b <;> try contradiction
  all_goals cases c <;> try contradiction
  · rw [beq, beq_iff_eq] at hab hbc ⊢
    exact hab.trans hbc
  · exact float_beq_trans hab hbc

end Number

/-! ### Values -/

namespace Json

mutual

theorem beq_comm (a b : Json) : a.beq b = b.beq a := by
  cases a with
  | null => cases b <;> rfl
  | bool p => cases b <;> first | rfl | exact Bool.beq_comm
  | number m => cases b <;> first | rfl | exact m.beq_comm _
  | string s => cases b <;> first | rfl | exact Bool.beq_comm
  | array xs => cases b <;> first | rfl | exact beqItems_comm xs _
  | object ms => cases b <;> first | rfl | exact beqMembers_comm ms _

theorem beqItems_comm (as bs : List Json) : beqItems as bs = beqItems bs as := by
  cases as with
  | nil => cases bs <;> rfl
  | cons a as =>
    cases bs with
    | nil => rfl
    | cons b bs => rw [beqItems, beqItems, beq_comm a b, beqItems_comm as bs]

theorem beqMembers_comm (as bs : Fields) : beqMembers as bs = beqMembers bs as := by
  cases as with
  | nil => cases bs <;> rfl
  | cons a as =>
    cases bs with
    | nil => rfl
    | cons b bs =>
      rw [beqMembers, beqMembers, beq_comm a.2 b.2, beqMembers_comm as bs, Bool.beq_comm]

end

mutual

theorem beq_trans (a b c : Json) (hab : a.beq b = true) (hbc : b.beq c = true) :
    a.beq c = true := by
  cases a with
  | null => cases b <;> first | contradiction | exact hbc
  | bool p =>
    cases b <;> try contradiction
    cases c <;> try contradiction
    rw [beq, beq_iff_eq] at hab hbc ⊢
    exact hab.trans hbc
  | number m =>
    cases b <;> try contradiction
    cases c <;> try contradiction
    exact Number.beq_trans hab hbc
  | string s =>
    cases b <;> try contradiction
    cases c <;> try contradiction
    rw [beq, beq_iff_eq] at hab hbc ⊢
    exact hab.trans hbc
  | array xs =>
    cases b <;> try contradiction
    cases c <;> try contradiction
    exact beqItems_trans xs _ _ hab hbc
  | object ms =>
    cases b <;> try contradiction
    cases c <;> try contradiction
    exact beqMembers_trans ms _ _ hab hbc
termination_by structural a

theorem beqItems_trans (as bs cs : List Json) (hab : beqItems as bs = true)
    (hbc : beqItems bs cs = true) : beqItems as cs = true := by
  cases as with
  | nil => cases bs <;> first | contradiction | exact hbc
  | cons a as =>
    cases bs <;> try contradiction
    cases cs <;> try contradiction
    rw [beqItems, Bool.and_eq_true] at hab hbc ⊢
    exact ⟨beq_trans a _ _ hab.1 hbc.1, beqItems_trans as _ _ hab.2 hbc.2⟩
termination_by structural as

theorem beqMembers_trans (as bs cs : Fields) (hab : beqMembers as bs = true)
    (hbc : beqMembers bs cs = true) : beqMembers as cs = true := by
  cases as with
  | nil => cases bs <;> first | contradiction | exact hbc
  | cons a as =>
    obtain ⟨n, v⟩ := a
    cases bs <;> try contradiction
    cases cs <;> try contradiction
    rw [beqMembers, Bool.and_eq_true, Bool.and_eq_true, beq_iff_eq] at hab hbc ⊢
    exact ⟨⟨hab.1.1.trans hbc.1.1, beq_trans v _ _ hab.1.2 hbc.1.2⟩,
      beqMembers_trans as _ _ hab.2 hbc.2⟩
termination_by structural as

end

mutual

/-- A value without NaN equals itself. -/
theorem beq_self (a : Json) (h : a.isFinite = true) : a.beq a = true := by
  cases a with
  | null => rfl
  | bool p => exact beq_self_eq_true p
  | number m =>
    cases m with
    | int n => exact beq_self_eq_true n
    | real x => exact float_beq_self h
  | string s => exact beq_self_eq_true s
  | array xs => exact beqItems_self xs h
  | object ms => exact beqMembers_self ms h

theorem beqItems_self (as : List Json) (h : itemsFinite as = true) : beqItems as as = true := by
  cases as with
  | nil => rfl
  | cons a as =>
    rw [itemsFinite, Bool.and_eq_true] at h
    rw [beqItems, beq_self a h.1, beqItems_self as h.2]
    rfl

theorem beqMembers_self (as : Fields) (h : membersFinite as = true) :
    beqMembers as as = true := by
  cases as with
  | nil => rfl
  | cons a as =>
    rw [membersFinite, Bool.and_eq_true] at h
    rw [beqMembers, beq_self a.2 h.1, beqMembers_self as h.2, beq_self_eq_true]
    rfl

end

end Json

end Shelf
