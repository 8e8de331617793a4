import Shelf.Proofs.Decimal.Integer
import Shelf.Yaml.Source

/-!
Settings that were accepted.

However settings are read, they are checked last. So the default page size of settings that were
accepted lies between one and the largest page size, and that one fits in 64 bits: each size comes
from a text that is read as a size, or is a default.

    document      default_limit, max_limit     1 ≤ default ≤ largest < 2^64
    environment   the same two, replaced       1 ≤ default ≤ largest < 2^64
-/

namespace Shelf

/-- Both page sizes fit in 64 bits. -/
structure Paging.Fits (p : Paging) : Prop where
  default_le : p.defaultLimit ≤ Decimal.maxSize
  largest_le : p.maxLimit ≤ Decimal.maxSize

/-- The default page size lies between one and the largest one, which fits in 64 bits. -/
structure Paging.Sound (p : Paging) : Prop where
  one_le : 1 ≤ p.defaultLimit
  default_le : p.defaultLimit ≤ p.maxLimit
  largest_le : p.maxLimit ≤ Decimal.maxSize

/-- Settings that a document gives, or that variables of the environment make of others. -/
inductive Settings.Accepted : Settings → Prop
  | document {text : String} {s : Settings} : ofYaml text = .ok s → Accepted s
  | environment {base : Settings} {env : Environment} {s : Settings} : base.paging.Fits →
      base.withEnvironment env = .ok s → Accepted s

/-! ### Reading a document -/

namespace Yaml

variable {α β : Type} {P : β → Prop} {Q : α → Prop}

/-- Whatever a step reads has a property, in any document. -/
def Ensures (P : α → Prop) (step : Following α) : Prop :=
  ∀ anchors left a left', (step.run anchors).run left = some (a, left') → P a

theorem Ensures.bind {step : Following α} {next : α → Following β} (h : Ensures Q step)
    (hnext : ∀ a, Q a → Ensures P (next a)) : Ensures P (step >>= next) := by
  intro anchors left b left' hb
  obtain ⟨⟨a, middle⟩, ha, hb⟩ := Option.bind_eq_some_iff.1 hb
  exact hnext a (h anchors left a middle ha) anchors middle b left' hb

/-- A first part that nothing is known about. -/
theorem ensures_bind {step : Following α} {next : α → Following β}
    (hnext : ∀ a, Ensures P (next a)) : Ensures P (step >>= next) :=
  Ensures.bind (Q := fun _ => True) (fun _ _ _ _ _ => trivial) fun a _ => hnext a

theorem ensures_pure {b : β} (h : P b) : Ensures P (pure b) := by
  rintro _ _ _ _ ⟨⟩
  exact h

theorem ensures_failure : Ensures P failure := by
  rintro _ _ _ _ ⟨⟩

theorem ensures_settingOr {block : List (String × Node)} {name : String} {default : β}
    {read : Node → Following β} (hdefault : P default) (hread : ∀ v, Ensures P (read v)) :
    Ensures P (settingOr block name default read) := by
  rw [settingOr]
  split
  · exact hread _
  · exact ensures_pure hdefault

theorem le_maxSize_of_readIn? {base n : Nat} {cs : List Char} (h : readIn? base cs = some n) :
    n ≤ Decimal.maxSize := by
  rw [readIn?] at h
  split at h
  · cases h
  · simpa using (Option.filter_eq_some_iff.1 h).2

theorem le_maxSize_of_readSize? {text : String} {n : Nat} (h : readSize? text = some n) :
    n ≤ Decimal.maxSize := by
  rw [readSize?] at h
  split at h
  all_goals first | exact le_maxSize_of_readIn? h | cases h

/-- A number in a document fits in 64 bits. -/
theorem ensures_number (n : Node) : Ensures (· ≤ Decimal.maxSize) n.number := by
  refine ensures_bind fun m => ?_
  cases m with
  | scalar p text style =>
    dsimp only
    split
    · next k hk =>
      split
      · exact ensures_pure (le_maxSize_of_readSize? hk)
      · exact ensures_failure
    · exact ensures_failure
  | _ => exact ensures_failure

theorem ensures_paging (n : Node) : Ensures Paging.Fits (Paging.read n) := by
  refine ensures_bind fun block => ?_
  refine (ensures_settingOr (by decide) ensures_number).bind fun default hdefault => ?_
  refine (ensures_settingOr (by decide) ensures_number).bind fun largest hlargest => ?_
  exact ensures_pure ⟨hdefault, hlargest⟩

theorem ensures_settings (n : Node) : Ensures (·.paging.Fits) (Settings.read n) := by
  refine ensures_bind fun block => ?_
  refine (ensures_settingOr (by constructor <;> decide) ensures_paging).bind fun paging hpaging => ?_
  exact ensures_bind fun collections => ensures_pure hpaging

end Yaml

/-! ### Checking -/

namespace Settings

variable {s base : Settings}

/-- Settings that pass the check are as they were, and have a default size from one to the largest
size. -/
theorem sound_of_check {t : Settings} (h : s.check = .ok t) (hfits : s.paging.Fits) :
    t.paging.Sound := by
  rw [check] at h
  split at h
  · cases h
  · next hpos =>
    split at h
    · cases h
    · next hle =>
      split at h
      · cases h
      · cases h
        exact ⟨by omega, by omega, hfits.largest_le⟩

theorem fits_of_readWith? {root : Yaml.Node} (h : root.readWith? Settings.read = some s) :
    s.paging.Fits := by
  obtain ⟨⟨t, left⟩, hread, hs⟩ := Option.map_eq_some_iff.1 h
  obtain rfl : t = s := hs
  exact Yaml.ensures_settings root _ _ _ _ hread

theorem le_maxSize_of_sizeOr {without n : Nat} (hwithout : without ≤ Decimal.maxSize)
    {fault : String → Decimal.SizeFault → SettingsError} {raw : Option String}
    (h : sizeOr without fault raw = .ok n) : n ≤ Decimal.maxSize := by
  cases raw with
  | none =>
    cases h
    exact hwithout
  | some raw => exact Decimal.le_maxSize_of_readSize (mapError_eq_ok.1 h)

/-- Settings that were accepted have sound page sizes. -/
theorem Accepted.sound (h : s.Accepted) : s.paging.Sound := by
  cases h with
  | document h =>
    rw [ofYaml] at h
    split at h
    · next t ht =>
      obtain ⟨root, -, hroot⟩ := Option.bind_eq_some_iff.1 ht
      exact sound_of_check h (fits_of_readWith? hroot)
    · cases h
  | environment hbase h =>
    obtain ⟨default, hdefault, h⟩ := bind_eq_ok.1 h
    obtain ⟨largest, hlargest, h⟩ := bind_eq_ok.1 h
    exact sound_of_check h ⟨le_maxSize_of_sizeOr hbase.default_le hdefault,
      le_maxSize_of_sizeOr hbase.largest_le hlargest⟩

end Settings

end Shelf
