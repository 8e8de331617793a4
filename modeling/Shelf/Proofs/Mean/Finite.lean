import Shelf.Proofs.Mean
import Shelf.Proofs.Mean.Value

/-!
Means that are stored as numbers, and means that are lost.

No mean is taken of a value that is no list, nor of a list with an entry without a number, and the
first such entry is named. Otherwise the target is written: with a number where ten times the mean
is finite, and with null where it is not. A text can stand for an infinity or NaN, and then the mean
is neither refused nor stored. Numbers up to `2^971` are never lost, since fewer than `2^53` of them
add up to less than `2^1024`. What is stored for them is close to the exact mean, and between any
integers that the numbers are between.

    5, " 3 "            4.0
    5, "three"          refused, with the entry's text
    5, "inf"            null
    "1e308", "1e308"    null, the sum being too large
    "1e308"             null, ten times it being too large
-/

namespace Shelf

namespace StoredMean

open Record (ReadsAsList)

variable {m : StoredMean} {r : Record} {ys : List Float}

/-! ### What is read -/

/-- The numbers that the entries of the list stand for. -/
def Reads (m : StoredMean) (r : Record) (ys : List Float) : Prop :=
  ∃ xs, ReadsAsList (r.fields.get? m.list) xs ∧
    List.Forall₂ (fun entry y => (entry.member? m.value).bind numeric? = some y) xs ys

/-- What keeps a mean from being taken: a value that is no list, or the first entry without a
number. -/
inductive Defect (m : StoredMean) (r : Record) : Corruption → Prop
  | notAList {v : Json} : r.fields.get? m.list = some v → (∀ xs, ¬ ReadsAsList (some v) xs) →
    Defect m r (.notAList m.list v)
  | notNumeric {before after : List Json} {entry : Json} :
    ReadsAsList (r.fields.get? m.list) (before ++ entry :: after) →
    (∀ x ∈ before, StandsForNumber (x.member? m.value)) →
    ¬ StandsForNumber (entry.member? m.value) →
    Defect m r (.notNumeric m.list m.value (entry.member? m.value))

theorem entryValue_eq_error_iff {entry : Json} {e : Corruption} :
    m.entryValue entry = .error e ↔ ¬ StandsForNumber (entry.member? m.value) ∧
      e = .notNumeric m.list m.value (entry.member? m.value) := by
  rw [← exists_entryValue_ok_iff, entryValue]
  cases (entry.member? m.value).bind numeric? with
  | none =>
    refine ⟨fun h => ⟨?_, (Except.error.inj h).symm⟩, fun h => congrArg _ h.2.symm⟩
    rintro ⟨x, ⟨⟩⟩
  | some x =>
    refine ⟨fun h => ?_, fun h => absurd ⟨x, rfl⟩ h.1⟩
    cases h

theorem compute_eq_ok_iff {x : Float} :
    m.compute r = .ok x ↔ ∃ ys, m.Reads r ys ∧ x = meanOf ys := by
  have hentries : ∀ xs ys, xs.mapM m.entryValue = .ok ys ↔
      List.Forall₂ (fun entry y => (entry.member? m.value).bind numeric? = some y) xs ys := by
    intro xs ys
    simp only [mapM_eq_ok, entryValue_eq_ok_iff]
  rw [compute_eq, bind_eq_ok]
  constructor
  · rintro ⟨xs, hxs, h⟩
    obtain ⟨ys, hys, hmean⟩ := map_eq_ok.1 h
    exact ⟨ys, ⟨xs, Record.list_eq_ok_iff.1 hxs, (hentries xs ys).1 hys⟩, hmean.symm⟩
  · rintro ⟨ys, ⟨xs, hxs, hys⟩, rfl⟩
    exact ⟨xs, Record.list_eq_ok_iff.2 hxs, map_eq_ok.2 ⟨ys, (hentries xs ys).2 hys, rfl⟩⟩

theorem compute_eq_error_iff {e : Corruption} : m.compute r = .error e ↔ m.Defect r e := by
  rw [compute_eq, bind_eq_error]
  constructor
  · rintro (h | ⟨xs, hxs, h⟩)
    · obtain ⟨v, hv, hnone, rfl⟩ := Record.list_eq_error_iff.1 h
      exact .notAList hv hnone
    · cases hys : xs.mapM m.entryValue with
      | ok ys =>
        rw [hys] at h
        cases h
      | error d =>
        rw [hys] at h
        cases h
        obtain ⟨before, entry, after, rfl, hbefore, hentry⟩ := mapM_eq_error.1 hys
        obtain ⟨hnone, rfl⟩ := entryValue_eq_error_iff.1 hentry
        exact .notNumeric (Record.list_eq_ok_iff.1 hxs)
          (fun x hx => exists_entryValue_ok_iff.1 (hbefore x hx)) hnone
  · intro h
    cases h with
    | notAList hv hnone => exact .inl (Record.list_eq_error_iff.2 ⟨_, hv, hnone, rfl⟩)
    | @notNumeric before after entry hxs hbefore hnone =>
      have hfirst : (before ++ entry :: after).mapM m.entryValue = .error _ :=
        mapM_eq_error.2 ⟨before, entry, after, rfl,
          fun x hx => exists_entryValue_ok_iff.2 (hbefore x hx),
          entryValue_eq_error_iff.2 ⟨hnone, rfl⟩⟩
      exact .inr ⟨_, Record.list_eq_ok_iff.2 hxs, congrArg (Except.map meanOf) hfirst⟩

/-! ### Means that are finite -/

/-- Ten times the mean is finite; an empty list has a mean of its own. -/
def HasFiniteMean (ys : List Float) : Prop :=
  ys = [] ∨ (ys.foldl (· + ·) 0.0 / Float.ofNat ys.length * 10.0).isFinite = true

theorem isFinite_meanOf : (meanOf ys).isFinite = true ↔ HasFiniteMean ys := by
  cases ys with
  | nil => exact iff_of_true (by decide +kernel) (.inl rfl)
  | cons y ys =>
    rw [meanOf, Decimal.isFinite_roundToTenths, HasFiniteMean]
    · exact ⟨.inr, fun h => h.resolve_left (List.cons_ne_nil y ys)⟩
    · exact nofun

/-- A sum starts from a finite number and takes finite numbers only, or it is not finite. -/
theorem isFinite_of_sum {s : Float} (h : (ys.foldl (· + ·) s).isFinite = true) :
    s.isFinite = true ∧ ∀ y ∈ ys, y.isFinite = true := by
  induction ys generalizing s with
  | nil => exact ⟨h, nofun⟩
  | cons y ys ih =>
    obtain ⟨hsum, hys⟩ := ih h
    obtain ⟨hs, hy⟩ := isFinite_of_add hsum
    exact ⟨hs, List.forall_mem_cons.2 ⟨hy, hys⟩⟩

theorem HasFiniteMean.isFinite (h : HasFiniteMean ys) : ∀ y ∈ ys, y.isFinite = true := by
  rcases h with rfl | h
  · exact nofun
  · exact (isFinite_of_sum (isFinite_of_div (isFinite_of_mul h).1)).2

/-- A number of moderate size. -/
def Moderate (y : Float) : Prop := ∃ q, floatValue? y = some q ∧ |q| ≤ 2 ^ (971 : Int)

theorem hasFiniteMean_of_moderate (hys : ∀ y ∈ ys, Moderate y) (hlen : ys.length < 2 ^ 53) :
    HasFiniteMean ys := by
  refine or_iff_not_imp_left.2 fun hne => ?_
  obtain ⟨qs, hqs, -⟩ : ∃ qs, Values 971 ys qs ∧ ∀ q ∈ qs, True := exists_values fun y hy => by
    obtain ⟨q, hq, hsize⟩ := hys y hy
    exact ⟨q, hq, by exact_mod_cast hsize, trivial⟩
  obtain ⟨w, hw, -⟩ := scaled_near le_rfl hqs hlen hne
  exact isFinite_iff_exists_value.2 ⟨w, hw⟩

/-- Integers of JSON are of moderate size. -/
theorem moderate_ofInt {n : Int} (h : n.natAbs ≤ 2 ^ 64) : Moderate (Float.ofInt n) := by
  have hsize : |(n : ℚ)| ≤ (1 : Nat) * 2 ^ (64 : Int) := by
    rw [← Int.cast_abs, ← Nat.cast_natAbs, Nat.cast_one, one_mul]
    exact_mod_cast h
  obtain ⟨w, hw, hle⟩ := (roundedTo_ofInt n).le_of_le (by decide) (by decide) hsize
    (lt_floatBound_of_bits (by decide) (by decide))
  rw [Nat.cast_one, one_mul] at hle
  exact ⟨w, hw, hle.trans (zpow_le_zpow_right₀ one_le_two (by decide))⟩

/-- The values of the entries are integers of JSON. -/
def AllIntegers (m : StoredMean) (xs : List Json) : Prop :=
  ∀ entry ∈ xs, ∃ n : Int, n.natAbs ≤ 2 ^ 64 ∧ entry.member? m.value = some (.int n)

theorem moderate_of_integers {xs : List Json} (hint : m.AllIntegers xs)
    (hread : List.Forall₂ (fun x y => (x.member? m.value).bind numeric? = some y) xs ys) :
    ∀ y ∈ ys, Moderate y := by
  induction hread with
  | nil => exact nofun
  | cons hentry _ ih =>
    obtain ⟨⟨n, hn, hvalue⟩, hint⟩ := List.forall_mem_cons.1 hint
    rw [hvalue] at hentry
    exact List.forall_mem_cons.2 ⟨Option.some.inj hentry ▸ moderate_ofInt hn, ih hint⟩

theorem exists_reads_of_integers {xs : List Json} (hint : m.AllIntegers xs)
    (hxs : ReadsAsList (r.fields.get? m.list) xs) :
    ∃ ys, m.Reads r ys ∧ ys.length = xs.length ∧ ∀ y ∈ ys, Moderate y := by
  obtain ⟨ys, hys⟩ : ∃ ys, xs.mapM m.entryValue = .ok ys := by
    refine exists_mapM_ok_iff.2 fun entry hentry => exists_entryValue_ok_iff.2 ?_
    obtain ⟨n, -, hvalue⟩ := hint entry hentry
    exact hvalue ▸ .number _
  simp only [mapM_eq_ok, entryValue_eq_ok_iff] at hys
  exact ⟨ys, ⟨xs, hxs, hys⟩, hys.length_eq.symm, moderate_of_integers hint hys⟩

/-! ### What is stored -/

/-- The recomputed record holds this value as its mean. -/
def Stores (m : StoredMean) (r : Record) (v : Json) : Prop :=
  ∃ w, m.recompute r = .ok w ∧ w.fields.get? m.target = some v

/-- What recomputing a mean comes to. -/
structure Surfaces (m : StoredMean) (r : Record) : Prop where
  fails : ∀ e, m.recompute r = .error e ↔ m.Defect r e
  succeeds : (∃ w, m.recompute r = .ok w) ↔ ∃ ys, m.Reads r ys
  number : ∀ ys, m.Reads r ys → ((∃ n, m.Stores r (.number n)) ↔ HasFiniteMean ys)
  null : ∀ ys, m.Reads r ys → (m.Stores r .null ↔ ¬ HasFiniteMean ys)
  lost : ∀ ys, m.Reads r ys → (∃ y ∈ ys, y.isFinite = false) → m.Stores r .null
  kept : ∀ ys, m.Reads r ys → (∀ y ∈ ys, Moderate y) → ys.length < 2 ^ 53 →
    ∃ x, x.isFinite = true ∧ m.Stores r (.number (.real x))
  integers : ∀ xs, ReadsAsList (r.fields.get? m.list) xs → m.AllIntegers xs →
    xs.length < 2 ^ 53 → ∃ x, x.isFinite = true ∧ m.Stores r (.number (.real x))

theorem stores_iff (h : isPatchable m.target = true) (hys : m.Reads r ys) {v : Json} :
    m.Stores r v ↔ v = .real (meanOf ys) := by
  have hcompute := compute_eq_ok_iff.2 ⟨ys, hys, rfl⟩
  rw [Stores, recompute_eq h, hcompute]
  constructor
  · rintro ⟨w, hw, hv⟩
    cases hw
    exact Option.some.inj (hv.symm.trans (Fields.get?_insert_self _ _ r.fields))
  · rintro rfl
    exact ⟨_, rfl, Fields.get?_insert_self _ _ r.fields⟩

theorem real_of_hasFiniteMean (h : HasFiniteMean ys) :
    Json.real (meanOf ys) = .number (.real (meanOf ys)) :=
  if_pos (isFinite_meanOf.2 h)

theorem real_of_value {v : ℚ} (h : floatValue? (meanOf ys) = some v) :
    Json.real (meanOf ys) = .number (.real (meanOf ys)) :=
  if_pos (isFinite_iff_exists_value.2 ⟨v, h⟩)

theorem real_of_not_hasFiniteMean (h : ¬ HasFiniteMean ys) : Json.real (meanOf ys) = .null :=
  if_neg (mt isFinite_meanOf.1 h)

/-- The stored number is close to the exact mean of what was read. -/
theorem stores_near (h : isPatchable m.target = true) (hys : m.Reads r ys) {qs : List ℚ} {p : Nat}
    (hp : p ≤ 971) (hqs : Values p ys qs) (hlen : ys.length < 2 ^ 53) :
    ∃ x v, m.Stores r (.number (.real x)) ∧ floatValue? x = some v ∧
      |v - average qs| ≤ 1 / 20 + (ys.length + 3) * (2 ^ p / 2 ^ 53) := by
  obtain ⟨v, hv, hnear⟩ := abs_meanOf_sub_le hp hqs hlen
  exact ⟨meanOf ys, v, (stores_iff h hys).2 (real_of_value hv).symm, hv, hnear⟩

/-- The stored number is between integers that what was read is between. -/
theorem stores_between (h : isPatchable m.target = true) (hys : m.Reads r ys) (hne : ys ≠ [])
    {lo hi : Int} {p : Nat} (hlo : lo.natAbs ≤ 2 ^ p) (hhi : hi.natAbs ≤ 2 ^ p)
    (hqs : ∀ y ∈ ys, ∃ q, floatValue? y = some q ∧ lo ≤ q ∧ q ≤ hi)
    (hlen : 20 * (ys.length + 2) * 2 ^ p < 2 ^ 53) :
    ∃ x v, m.Stores r (.number (.real x)) ∧ floatValue? x = some v ∧ lo ≤ v ∧ v ≤ hi := by
  obtain ⟨v, hv, hlow, hhigh⟩ := meanOf_between hlo hhi hqs hne hlen
  exact ⟨meanOf ys, v, (stores_iff h hys).2 (real_of_value hv).symm, hv, hlow, hhigh⟩

/-- A mean is refused for the first value without a number, and else stored where it is finite. -/
theorem surfaces_of_isPatchable (h : isPatchable m.target = true) (r : Record) :
    m.Surfaces r := by
  have hkept : ∀ ys, m.Reads r ys → HasFiniteMean ys →
      ∃ x, x.isFinite = true ∧ m.Stores r (.number (.real x)) := fun ys hys hfin =>
    ⟨_, isFinite_meanOf.2 hfin, (stores_iff h hys).2 (real_of_hasFiniteMean hfin).symm⟩
  have hlost : ∀ ys, m.Reads r ys → ¬ HasFiniteMean ys → m.Stores r .null := fun ys hys hfin =>
    (stores_iff h hys).2 (real_of_not_hasFiniteMean hfin).symm
  refine ⟨fun e => ?_, ?_, fun ys hys => ⟨?_, ?_⟩, fun ys hys => ⟨?_, hlost ys hys⟩,
    fun ys hys hinf => ?_, fun ys hys hsize hlen => ?_, fun xs hxs hint hlen => ?_⟩
  · rw [recompute_eq h, ← compute_eq_error_iff]
    cases m.compute r with
    | error d => exact ⟨fun h => by cases h; rfl, fun h => by cases h; rfl⟩
    | ok x => exact ⟨nofun, nofun⟩
  · rw [recompute_eq h]
    constructor
    · rintro ⟨w, hw⟩
      obtain ⟨x, hx, -⟩ := map_eq_ok.1 hw
      obtain ⟨ys, hys, -⟩ := compute_eq_ok_iff.1 hx
      exact ⟨ys, hys⟩
    · rintro ⟨ys, hys⟩
      exact ⟨_, map_eq_ok.2 ⟨_, compute_eq_ok_iff.2 ⟨ys, hys, rfl⟩, rfl⟩⟩
  · rintro ⟨n, hn⟩
    by_contra hfin
    rw [stores_iff h hys, real_of_not_hasFiniteMean hfin] at hn
    cases hn
  · intro hfin
    obtain ⟨x, -, hx⟩ := hkept ys hys hfin
    exact ⟨_, hx⟩
  · intro hnull hfin
    rw [stores_iff h hys, real_of_hasFiniteMean hfin] at hnull
    cases hnull
  · obtain ⟨y, hy, hinf⟩ := hinf
    refine hlost ys hys fun hfin => ?_
    rw [hfin.isFinite y hy] at hinf
    cases hinf
  · exact hkept ys hys (hasFiniteMean_of_moderate hsize hlen)
  · obtain ⟨ys, hys, hlength, hsize⟩ := exists_reads_of_integers hint hxs
    exact hkept ys hys (hasFiniteMean_of_moderate hsize (hlength ▸ hlen))

/-- An integer beside a text with blanks. -/
theorem surfaces_integer_and_text :
    let m : StoredMean := ⟨"scores", "points", "average"⟩
    let r : Record := ⟨.uniform 1, [("scores", .array
      [.object [("points", .int 5)], .object [("points", .string " 3.5 ")]])]⟩
    isPatchable m.target = true ∧ m.Reads r [5.0, 3.5] ∧ m.Surfaces r := by
  intro m r
  exact ⟨by decide, ⟨_, .array _, .cons rfl (.cons rfl .nil)⟩,
    surfaces_of_isPatchable (by decide) r⟩

/-- An infinite star is not refused, and the mean is lost. -/
theorem infinite_star_stored_as_null :
    let r : Record := ⟨.uniform 1, [("ratings", .array [.object [("star", .string "inf")]])]⟩
    isPatchable ratings.target = true ∧
      ∃ w, ratings.recompute r = .ok w ∧ w.fields.get? ratings.target = some .null := by
  intro r
  have hreads : ratings.Reads r [1.0 / 0.0] := ⟨_, .array _, .cons rfl .nil⟩
  have hlost : ¬ HasFiniteMean [1.0 / 0.0] := fun h =>
    absurd (h.isFinite _ List.mem_cons_self) (by decide +kernel)
  exact ⟨by decide, (stores_iff (by decide) hreads).2 (real_of_not_hasFiniteMean hlost).symm⟩

end StoredMean

end Shelf
