import Mathlib.Algebra.Group.Nat.Defs
import Shelf.Decimal.Integer
import Shelf.Json.Printer
import Shelf.Text.Blank

/-!
Counts that are printed and read back.

A natural number prints as a row of digits. No digit is a blank or a sign, so the row stands as it
is when it is trimmed, and it reads as the number if that has a place in 64 bits with a sign.
-/

namespace Shelf

theorem Text.isBlank_of_isDigit {c : Char} (h : c.isDigit = true) : Text.isBlank c = false := by
  simp only [Char.isDigit, Bool.and_eq_true, decide_eq_true_eq, ge_iff_le, UInt32.le_iff_toNat_le]
    at h
  change 48 ≤ c.toNat ∧ c.toNat ≤ 57 at h
  simp only [Text.isBlank, Bool.or_eq_false_iff, Bool.and_eq_false_iff, decide_eq_false_iff_not,
    beq_eq_false_iff_ne]
  omega

/-- A text without blanks stands as it is. -/
theorem Text.trim_eq_self {cs : List Char} (h : ∀ c ∈ cs, Text.isBlank c = false) :
    Text.trim cs = cs := by
  have hfront : ∀ {ds : List Char}, (∀ c ∈ ds, Text.isBlank c = false) →
      ds.dropWhile Text.isBlank = ds := by
    rintro (_ | ⟨d, ds⟩) hds
    · rfl
    · rw [List.dropWhile_cons_of_neg (by rw [hds d List.mem_cons_self]; decide)]
  rw [Text.trim, hfront h, hfront (fun c hc => h c (List.mem_reverse.1 hc)), List.reverse_reverse]

namespace Decimal

theorem digitsValue_toDigits (n : Nat) : digitsValue (Nat.toDigits 10 n) = n := by
  rw [digitsValue, ← Nat.ofDigitChars_eq_foldl]
  exact Nat.ofDigitChars_ten_toDigits

theorem spanSign_of_isDigit {cs : List Char} (h : ∀ c ∈ cs, c.isDigit = true) :
    spanSign cs = (false, cs) := by
  unfold spanSign
  split
  · exact absurd (h '-' List.mem_cons_self) (by decide)
  · exact absurd (h '+' List.mem_cons_self) (by decide)
  · rfl

theorem isDigit_toDigits (n : Nat) : ∀ c ∈ Nat.toDigits 10 n, c.isDigit = true :=
  fun _ hc => Nat.isDigit_of_mem_toDigits (by decide) (by decide) hc

end Decimal

end Shelf
