import Shelf.Proofs.Decimal.Digits
import Shelf.Proofs.Outcome

/-!
Texts that spell integers.

A text spells an integer when it is a row of ASCII digits, at least one, behind a sign or without
one. Reading an integer of bounded width accepts exactly the texts that spell one in range, and a
size that is read fits in 64 bits.

    25    +25    -0    007          spell 25, 25, 0 and 7
    -     1.5    1 2   1_0          spell nothing
-/

namespace Shelf.Decimal

/-- The text spells the integer. -/
inductive Spells : List Char → Int → Prop
  | plain {ds : List Char} : ds ≠ [] → (∀ c ∈ ds, c.isDigit = true) → Spells ds (digitsValue ds)
  | plus {ds : List Char} : ds ≠ [] → (∀ c ∈ ds, c.isDigit = true) →
      Spells ('+' :: ds) (digitsValue ds)
  | minus {ds : List Char} : ds ≠ [] → (∀ c ∈ ds, c.isDigit = true) →
      Spells ('-' :: ds) (-(digitsValue ds : Int))

theorem spells_iff_spanSign {cs : List Char} {n : Int} :
    Spells cs n ↔ (spanSign cs).2 ≠ [] ∧ (∀ c ∈ (spanSign cs).2, c.isDigit = true) ∧
      n = if (spanSign cs).1 then -(digitsValue (spanSign cs).2 : Int)
        else digitsValue (spanSign cs).2 := by
  constructor
  · rintro (⟨hne, hdigits⟩ | ⟨hne, hdigits⟩ | ⟨hne, hdigits⟩)
    · rw [spanSign_of_isDigit hdigits]
      exact ⟨hne, hdigits, rfl⟩
    · exact ⟨hne, hdigits, rfl⟩
    · exact ⟨hne, hdigits, rfl⟩
  · intro h
    generalize hspan : spanSign cs = span at h
    obtain ⟨hne, hdigits, rfl⟩ := h
    unfold spanSign at hspan
    split at hspan <;> subst hspan
    · exact .minus hne hdigits
    · exact .plus hne hdigits
    · exact .plain hne hdigits

/-- Reading accepts what spells an integer in range. -/
theorem readSigned?_eq_some_iff {bound : Int} {cs : List Char} {n : Int} :
    readSigned? bound cs = some n ↔ Spells cs n ∧ -bound ≤ n ∧ n < bound := by
  rw [spells_iff_spanSign, readSigned?]
  generalize spanSign cs = span
  obtain ⟨negative, ds⟩ := span
  dsimp only
  generalize (if negative then -(digitsValue ds : Int) else digitsValue ds) = value
  have hrow : ¬(ds.isEmpty = true ∨ (!ds.all Char.isDigit) = true) ↔
      ds ≠ [] ∧ ∀ c ∈ ds, c.isDigit = true := by simp
  split
  · next hbad =>
    refine iff_of_false (fun h => by cases h) ?_
    rintro ⟨⟨hne, hdigits, -⟩, -⟩
    exact hrow.2 ⟨hne, hdigits⟩ hbad
  · next hgood =>
    obtain ⟨hne, hdigits⟩ := hrow.1 hgood
    constructor
    · intro h
      split at h
      · next hrange =>
        obtain rfl := Option.some.inj h
        exact ⟨⟨hne, hdigits, rfl⟩, hrange⟩
      · cases h
    · rintro ⟨⟨-, -, rfl⟩, hrange⟩
      exact if_pos hrange

/-! ### Sizes -/

theorem le_maxSize_of_sizeStep {n m : Nat} {c : Char} (h : sizeStep n c = .ok m) :
    m ≤ maxSize := by
  unfold sizeStep at h
  split at h
  · dsimp only at h
    split at h
    · cases h
    · cases h
      omega
  · cases h

theorem le_maxSize_of_foldlM {m : Nat} : ∀ {cs : List Char} {n : Nat}, n ≤ maxSize →
    cs.foldlM sizeStep n = .ok m → m ≤ maxSize
  | [],      _, hn, h => by
    cases h
    exact hn
  | c :: cs, n, hn, h => by
    rw [List.foldlM_cons] at h
    obtain ⟨k, hk, h⟩ := bind_eq_ok.1 h
    exact le_maxSize_of_foldlM (le_maxSize_of_sizeStep hk) h

/-- A size that is read fits in 64 bits. -/
theorem le_maxSize_of_readSize {cs : List Char} {n : Nat} (h : readSize cs = .ok n) :
    n ≤ maxSize := by
  unfold readSize at h
  split at h
  · cases h
  · cases h
  · exact le_maxSize_of_foldlM (Nat.zero_le _) h
  · exact le_maxSize_of_foldlM (Nat.zero_le _) h

end Shelf.Decimal
