import Shelf.Proofs.Decimal.Digits
import Shelf.Proofs.Sort
import Shelf.Proofs.Text.Identifier

/-!
Sort texts that are read and printed.

The keys that a text is read as have plain fields, and no field in common. They are printed side by
side, and since no plain token holds a comma, a blank or a `-`, they are read back as they are.

    " price,, -title ,-price"     price ascending, title descending
    --price    - price    $x      refused
-/

namespace Shelf

/-- The text of a key: its field, behind a `-` in descending order. -/
def SortKey.text (k : SortKey) : String :=
  match k.direction with
  | .asc  => k.field
  | .desc => "-" ++ k.field

/-- The text of a sort order. -/
def SortSpec.text (s : SortSpec) : String := ",".intercalate (s.keys.map SortKey.text)

theorem SortKey.mem_text {k : SortKey} {c : Char} (h : c ∈ k.text.toList) :
    c = '-' ∨ c ∈ k.field.toList := by
  rw [text] at h
  split at h
  · exact .inr h
  · rw [String.toList_append] at h
    exact List.mem_cons.1 h

theorem SortKey.text_ne_nil {k : SortKey} (h : Text.isPlainToken k.field = true) :
    k.text.toList ≠ [] := by
  rw [text]
  split
  · exact Text.toList_ne_nil_of_isPlainToken h
  · rw [String.toList_append]
    exact List.cons_ne_nil _ _

namespace SortSpec

theorem spelled_text {k : SortKey} (h : Text.isPlainToken k.field = true) :
    spelled k.text.toList = k := by
  obtain ⟨field, direction⟩ := k
  cases direction with
  | desc =>
    rw [SortKey.text, String.toList_append]
    exact congrArg (SortKey.mk · .desc) String.ofList_toList
  | asc =>
    rw [SortKey.text]
    unfold spelled
    split
    · next cs hsign =>
      have hdash : '-' ∈ field.toList := hsign ▸ List.mem_cons_self
      exact absurd (Text.isTokenChar_of_isPlainToken h '-' hdash) (by decide)
    · exact congrArg (SortKey.mk · .asc) String.ofList_toList

theorem toList_text (s : SortSpec) :
    s.text.toList = [','].intercalate (s.keys.map fun k => k.text.toList) := by
  rw [text, String.toList_intercalate, List.map_map]
  rfl

/-- The entries of a printed sort order are the texts of its keys. -/
theorem entries_text {s : SortSpec} (h : ∀ k ∈ s.keys, Text.isPlainToken k.field = true) :
    Text.entries s.text = s.keys.map fun k => k.text.toList := by
  have hchar : ∀ k ∈ s.keys, ∀ c ∈ k.text.toList, Text.isBlank c = false ∧ c ≠ ',' := by
    intro k hk c hc
    rcases SortKey.mem_text hc with rfl | hc
    · decide
    · have htoken := Text.isTokenChar_of_isPlainToken (h k hk) c hc
      refine ⟨Text.isBlank_of_isTokenChar htoken, ?_⟩
      rintro rfl
      exact absurd htoken (by decide)
  have htrim : (s.keys.map fun k => k.text.toList).map Text.trim =
      s.keys.map fun k => k.text.toList := by
    rw [List.map_map]
    exact List.map_congr_left fun k hk => Text.trim_eq_self fun c hc => (hchar k hk c hc).1
  rw [Text.entries, toList_text]
  cases hkeys : s.keys with
  | nil => rfl
  | cons k ks =>
    rw [← hkeys, List.splitOn_intercalate ',' ?_ ?_, htrim, List.filter_eq_self, List.forall_mem_map]
    · exact fun k hk => decide_eq_true (SortKey.text_ne_nil (h k hk))
    · rw [List.forall_mem_map]
      exact fun k hk hcomma => (hchar k hk ',' hcomma).2 rfl
    · rw [hkeys]
      exact List.cons_ne_nil _ _

/-- Keys of plain fields without a field in common are read back from their text. -/
theorem read_text {s : SortSpec} (hdistinct : (s.keys.map SortKey.field).Nodup)
    (hplain : ∀ k ∈ s.keys, Text.isPlainToken k.field = true) : read s.text = .ok s := by
  have hkeys : spelledKeys s.text = s.keys := by
    rw [spelledKeys, entries_text hplain, List.map_map]
    exact (List.map_congr_left fun k hk => spelled_text (hplain k hk)).trans (List.map_id _)
  rw [read_eq_ok_iff, hkeys]
  exact ⟨hplain, (foldl_addKey_of_distinct hdistinct (s := {})).symm⟩

/-- A text is accepted when its entries are dotted identifiers behind one sign at most, it is read
as the first key of each field, and keys that can come of a text are what their own text is read
as. -/
theorem read_and_text (raw : String) :
    ((∃ s, read raw = .ok s) ↔ ∀ k ∈ spelledKeys raw, Text.IsDotted k.field.toList) ∧
      (∀ s, read raw = .ok s → FirstOfEach (spelledKeys raw) s.keys ∧ read s.text = .ok s) ∧
      ∀ s : SortSpec, (s.keys.map SortKey.field).Nodup →
        (∀ k ∈ s.keys, Text.IsDotted k.field.toList) → read s.text = .ok s := by
  simp only [← Text.isPlainToken_iff]
  refine ⟨⟨?_, fun hplain => ⟨_, read_eq_ok_iff.2 ⟨hplain, rfl⟩⟩⟩, fun s hs => ?_,
    fun s => read_text⟩
  · rintro ⟨s, hs⟩
    exact (read_eq_ok_iff.1 hs).1
  · have hfirst := firstOfEach_of_read hs
    exact ⟨hfirst, read_text hfirst.distinct (plain_of_read hs)⟩

end SortSpec

end Shelf
