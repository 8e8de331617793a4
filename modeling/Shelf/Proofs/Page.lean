import Mathlib.Algebra.Group.Int.Defs
import Shelf.Page
import Shelf.Proofs.Settings

/-!
The page that a client gets.

A client names a page and a size, or neither. What is named is an integer of 64 bits with blanks
around it or none, raised to one at least, and a size is cut at the largest one. Without a size the
default one of the settings is used. It is read as a signed number, so a default size from `2^63` on
turns negative and is raised to one.

    limit      absent       absent, default 2^63      5000     -5
    size       default      1                         largest  1
-/

namespace Shelf.PageWindow

/-- The text names the count: an integer of 64 bits, with blanks around it or none. -/
def Counts (raw : String) (n : Int) : Prop :=
  Decimal.Spells (Text.trim raw.toList) n ∧ -2 ^ 63 ≤ n ∧ n < 2 ^ 63

/-- What becomes of the texts that a client gives for page and size. -/
structure Honours (paging : Paging) (page limit : Option String)
    (outcome : Except Rejection PageWindow) : Prop where
  refused_iff : (∃ e, outcome = .error e) ↔
    (∃ raw, page = some raw ∧ ∀ n, ¬ Counts raw n) ∨ ∃ raw, limit = some raw ∧ ∀ n, ¬ Counts raw n
  page_given : ∀ w raw n, outcome = .ok w → page = some raw → Counts raw n →
    (w.page : Int) = max 1 n
  page_absent : ∀ w, outcome = .ok w → page = none → w.page = 1
  limit_given : ∀ w raw n, outcome = .ok w → limit = some raw → Counts raw n →
    (w.limit : Int) = min (max 1 n) paging.maxLimit
  limit_absent : ∀ w, outcome = .ok w → limit = none →
    w.limit = if paging.defaultLimit < 2 ^ 63 then paging.defaultLimit else 1
  limit_le : ∀ w, outcome = .ok w → 1 ≤ w.limit ∧ w.limit ≤ paging.maxLimit

/-! ### Counts -/

theorem readCount_eq_ok_iff {field raw : String} {n : Int} :
    readCount field raw = .ok n ↔ Counts raw n := by
  have hread : Decimal.readCount? (Text.trim raw.toList) = some n ↔ Counts raw n :=
    Decimal.readSigned?_eq_some_iff
  rw [← hread, readCount]
  split
  · next m hm => rw [hm, Except.ok.injEq, Option.some.injEq]
  · next hm => simp [hm]

theorem readCount_fails_iff {field raw : String} :
    (∃ e, readCount field raw = .error e) ↔ ∀ n, ¬ Counts raw n := by
  simp only [← @readCount_eq_ok_iff field]
  cases readCount field raw with
  | error e => exact iff_of_true ⟨e, rfl⟩ nofun
  | ok n => exact iff_of_false (by rintro ⟨e, he⟩; cases he) fun h => h n rfl

theorem countOr_fails_iff {field : String} {without : Int} {raw? : Option String} :
    (∃ e, countOr field without raw? = .error e) ↔
      ∃ raw, raw? = some raw ∧ ∀ n, ¬ Counts raw n := by
  cases raw? with
  | none => simp [countOr]
  | some raw => simp [countOr, readCount_fails_iff]

theorem eq_of_countOr {field raw : String} {without n m : Int} (hcount : Counts raw n)
    (h : countOr field without (some raw) = .ok m) : m = n := by
  have hn : countOr field without (some raw) = .ok n := readCount_eq_ok_iff.2 hcount
  exact Except.ok.inj (h.symm.trans hn)

/-- A count of 64 bits without a sign is negative as one with a sign from `2^63` on. -/
theorem toNat_signed64 {n : Nat} (h : n ≤ Decimal.maxSize) :
    (signed64 n).toNat = if n < 2 ^ 63 then n else 0 := by
  rw [Decimal.maxSize] at h
  rw [signed64, Decimal.maxSize, Int.bmod]
  split <;> split <;> omega

/-! ### Pages -/

variable {page limit : Option String} {paging : Paging} {w : PageWindow}

theorem ofParams_fails_iff : (∃ e, ofParams page limit paging = .error e) ↔
    (∃ e, countOr "page" 1 page = .error e) ∨
      ∃ e, countOr "limit" (signed64 paging.defaultLimit) limit = .error e := by
  rw [ofParams]
  cases countOr "page" 1 page with
  | error e => exact iff_of_true ⟨e, rfl⟩ (.inl ⟨e, rfl⟩)
  | ok n =>
    cases countOr "limit" (signed64 paging.defaultLimit) limit with
    | error e => exact iff_of_true ⟨e, rfl⟩ (.inr ⟨e, rfl⟩)
    | ok m =>
      refine iff_of_false ?_ ?_
      · rintro ⟨e, he⟩
        cases he
      · rintro (⟨e, he⟩ | ⟨e, he⟩) <;> cases he

/-- The page comes from the two counts. -/
theorem of_ofParams_eq_ok (h : ofParams page limit paging = .ok w) :
    ∃ n m, countOr "page" 1 page = .ok n ∧
      countOr "limit" (signed64 paging.defaultLimit) limit = .ok m ∧
      w.page = max n.toNat 1 ∧ w.limit = min (max m.toNat 1) (max paging.maxLimit 1) := by
  obtain ⟨n, hn, h⟩ := bind_eq_ok.1 h
  obtain ⟨m, hm, h⟩ := bind_eq_ok.1 h
  cases h
  exact ⟨n, m, hn, hm, rfl, rfl⟩

/-- Page and size are as the client asks, within the settings. -/
theorem honours_ofParams {s : Settings} (h : s.Accepted) (page limit : Option String) :
    s.paging.Sound ∧ Honours s.paging page limit (ofParams page limit s.paging) := by
  obtain ⟨hone, hle, hlargest⟩ := h.sound
  refine ⟨h.sound, ?_, ?_, ?_, ?_, ?_, ?_⟩
  · rw [ofParams_fails_iff, countOr_fails_iff, countOr_fails_iff]
  · rintro w raw n hw rfl hcount
    obtain ⟨_, _, hn, -, hpage, -⟩ := of_ofParams_eq_ok hw
    rw [eq_of_countOr hcount hn] at hpage
    omega
  · rintro w hw rfl
    obtain ⟨n, _, hn, -, hpage, -⟩ := of_ofParams_eq_ok hw
    obtain rfl : 1 = n := Except.ok.inj hn
    exact hpage
  · rintro w raw m hw rfl hcount
    obtain ⟨_, _, -, hm, -, hlimit⟩ := of_ofParams_eq_ok hw
    rw [eq_of_countOr hcount hm] at hlimit
    omega
  · rintro w hw rfl
    obtain ⟨_, m, -, hm, -, hlimit⟩ := of_ofParams_eq_ok hw
    obtain rfl : signed64 s.paging.defaultLimit = m := Except.ok.inj hm
    rw [toNat_signed64 (Nat.le_trans hle hlargest)] at hlimit
    split at hlimit <;> split <;> omega
  · intro w hw
    obtain ⟨_, m, -, -, -, hlimit⟩ := of_ofParams_eq_ok hw
    omega

/-- Sizes from the environment, and a client that asks for more than the largest one. -/
theorem honours_sizes_of_environment :
    let s : Settings := { paging := ⟨30, 50⟩ }
    s.Accepted ∧ s.paging.Sound ∧
      Honours s.paging (some " -7 ") (some "+5000") (ofParams (some " -7 ") (some "+5000") s.paging)
      := by
  intro s
  have hread : Settings.withEnvironment {} [("LIMIT_PRODUCTS", " 30 "),
    ("CATALOG_MAX_LIMIT", "50")] = .ok s := rfl
  have haccepted : s.Accepted := .environment ⟨by decide, by decide⟩ hread
  exact ⟨haccepted, honours_ofParams haccepted _ _⟩

/-- A default size that settings may have, and that no page has. -/
theorem default_size_turns_negative :
    let s : Settings := { paging := ⟨2 ^ 63, 2 ^ 64 - 1⟩ }
    s.Accepted ∧ ∃ w, ofParams none none s.paging = .ok w ∧ w.limit = 1 ∧
      w.limit ≠ s.paging.defaultLimit := by
  intro s
  have hread : Settings.withEnvironment {} [("CATALOG_DEFAULT_LIMIT", "9223372036854775808"),
    ("CATALOG_MAX_LIMIT", "18446744073709551615")] = .ok s := rfl
  have haccepted : s.Accepted := .environment ⟨by decide, by decide⟩ hread
  exact ⟨haccepted, _, rfl, by decide +kernel, by decide +kernel⟩

end Shelf.PageWindow
