import Mathlib.Data.List.Basic
import Shelf.Text.Token

/-!
The characters of a plain token.

A scan that is never refused has met letters, digits, underscores and dots only. The sigil of the
storage's operators is none of them.
-/

namespace Shelf.Text

/-- The characters that a scan can pass. -/
def isTokenChar (c : Char) : Bool := isTokenBody c || c == '.'

theorem TokenScan.isTokenChar_of_step {s : TokenScan} {c : Char} (h : s.step c ≠ .refused) :
    isTokenChar c = true := by
  cases s with
  | start =>
    rw [step] at h
    split at h
    · next hc => rw [isTokenChar, isTokenBody, hc]; rfl
    · exact absurd rfl h
  | inside =>
    rw [step] at h
    split at h
    · next hc => rw [isTokenChar, hc]; rfl
    · split at h
      · next hc => rw [hc]; rfl
      · exact absurd rfl h
  | refused => exact absurd rfl h

theorem isTokenChar_of_foldl_step : ∀ {cs : List Char} {s : TokenScan},
    cs.foldl TokenScan.step s ≠ .refused → ∀ c ∈ cs, isTokenChar c = true
  | [],      _, _, _, hc => absurd hc List.not_mem_nil
  | d :: cs, s, h, c, hc => by
    rw [List.foldl_cons] at h
    have hstep : s.step d ≠ .refused := by
      intro hd
      rw [hd] at h
      exact h (foldl_step_refused cs)
    rcases List.mem_cons.1 hc with rfl | hc
    · exact TokenScan.isTokenChar_of_step hstep
    · exact isTokenChar_of_foldl_step h c hc

theorem isTokenChar_of_isPlainToken {token : String} (h : isPlainToken token = true) :
    ∀ c ∈ token.toList, isTokenChar c = true := by
  have hend := of_decide_eq_true h
  refine isTokenChar_of_foldl_step (s := .start) ?_
  rw [hend]
  exact TokenScan.noConfusion

/-- No plain token holds the sigil of an operator. -/
theorem sigil_not_mem_of_isPlainToken {token : String} (h : isPlainToken token = true) :
    '$' ∉ token.toList := by
  intro hmem
  exact absurd (isTokenChar_of_isPlainToken h _ hmem) (by decide)

end Shelf.Text
