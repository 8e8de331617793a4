import Mathlib.Data.List.Forall2
import Mathlib.Data.List.TakeWhile
import Mathlib.Data.Set.Subsingleton
import Shelf.Params

/-!
Keys that name an operator.

A key `name[op]` is cut at its first opening bracket. The name before it is not empty, and the
operator runs up to a closing bracket that ends the key and holds no bracket itself, so there is one
way at most to cut a key. Any other key is a name as a whole.

    price[gte]     price, gte          [x]        a name
    a]b[c]         a]b, c              a[b][c]    a name
    a[]            a, no text          d[e        a name
-/

namespace Shelf

/-- A key that is a name with an operator in brackets. -/
structure Brackets (key name op : String) : Prop where
  spelled : key = bracketed name op
  named : name ≠ ""
  whole : '[' ∉ name.toList
  unopened : '[' ∉ op.toList
  unclosed : ']' ∉ op.toList

theorem toList_bracketed (name op : String) :
    (bracketed name op).toList = name.toList ++ '[' :: (op.toList ++ [']']) := by
  simp [bracketed]

/-- Where a key is cut, and what the two sides must be. -/
theorem bracketKey?_of_cut {key : String} {front rest : List Char}
    (hkey : key.toList = front ++ '[' :: rest) (hfront : '[' ∉ front) :
    bracketKey? key =
      if front ≠ [] ∧ rest.getLast? = some ']' ∧ '[' ∉ rest.dropLast ∧ ']' ∉ rest.dropLast then
        some (String.ofList front, String.ofList rest.dropLast)
      else none := by
  have hother : ∀ c ∈ front, decide (c ≠ '[') = true := by
    intro c hc
    refine decide_eq_true ?_
    rintro rfl
    exact hfront hc
  have htake : key.toList.takeWhile (· ≠ '[') = front := by
    rw [hkey, List.takeWhile_append_of_pos hother, List.takeWhile_cons_of_neg (by decide),
      List.append_nil]
  have hdrop : key.toList.dropWhile (· ≠ '[') = '[' :: rest := by
    rw [hkey, List.dropWhile_append_of_pos hother, List.dropWhile_cons_of_neg (by decide)]
  rw [bracketKey?, htake, hdrop]

theorem bracketKey?_of_not_mem {key : String} (h : '[' ∉ key.toList) : bracketKey? key = none := by
  have hdrop : key.toList.dropWhile (· ≠ '[') = [] := by
    refine List.dropWhile_eq_nil_iff.2 fun c hc => decide_eq_true ?_
    rintro rfl
    exact h hc
  rw [bracketKey?, hdrop]

/-- A key is cut where it is a name with an operator in brackets, and in no other way. -/
theorem bracketKey?_eq_some_iff {key name op : String} :
    bracketKey? key = some (name, op) ↔ Brackets key name op := by
  constructor
  · intro h
    have hmem : '[' ∈ key.toList := by
      by_contra hnot
      rw [bracketKey?_of_not_mem hnot] at h
      cases h
    obtain ⟨front, rest, hkey, hfront⟩ := List.eq_append_cons_of_mem hmem
    rw [bracketKey?_of_cut hkey hfront] at h
    split at h
    · next hsides =>
      obtain ⟨hnamed, hclosed, hunopened, hunclosed⟩ := hsides
      cases h
      obtain ⟨op, rfl⟩ := List.getLast?_eq_some_iff.1 hclosed
      rw [List.dropLast_concat] at hunopened hunclosed ⊢
      refine ⟨?_, ?_, ?_, ?_, ?_⟩
      · rw [← String.toList_inj, hkey, toList_bracketed, String.toList_ofList, String.toList_ofList]
      · exact fun hnil => hnamed (String.ofList_eq_empty_iff.1 hnil)
      all_goals rw [String.toList_ofList]; assumption
    · cases h
  · rintro ⟨rfl, hnamed, hwhole, hunopened, hunclosed⟩
    rw [bracketKey?_of_cut (toList_bracketed name op) hwhole, List.dropLast_concat, if_pos,
      String.ofList_toList, String.ofList_toList]
    exact ⟨fun hnil => hnamed (String.toList_eq_nil_iff.1 hnil), List.getLast?_concat, hunopened,
      hunclosed⟩

theorem bracketKey?_eq_none_iff {key : String} :
    bracketKey? key = none ↔ ∀ name op, ¬ Brackets key name op := by
  rw [Option.eq_none_iff_forall_ne_some]
  constructor
  · exact fun h name op hkey => h (name, op) (bracketKey?_eq_some_iff.2 hkey)
  · exact fun h cut hcut => h cut.1 cut.2 (bracketKey?_eq_some_iff.1 hcut)

/-- There is one way at most to cut a key. -/
theorem subsingleton_brackets (key : String) :
    {cut : String × String | Brackets key cut.1 cut.2}.Subsingleton := by
  intro cut hcut other hother
  have hsame := (bracketKey?_eq_some_iff.2 hcut).symm.trans (bracketKey?_eq_some_iff.2 hother)
  exact Option.some.inj hsame

/-! ### Edits of a query text -/

/-- The edit that a pair asks for: a nested one where the key names an operator, and a plain one of
the whole key where it does not. -/
inductive ParamEdit.AskedBy : String × String → ParamEdit → Prop
  | nested {key name op text : String} : Brackets key name op →
      AskedBy (key, text) (.insertNested name op text)
  | plain {key text : String} : (∀ name op, ¬ Brackets key name op) →
      AskedBy (key, text) (.insert key text)

theorem ParamEdit.askedBy_iff {pair : String × String} {edit : ParamEdit} :
    AskedBy pair edit ↔ edit = ofPair pair := by
  obtain ⟨key, text⟩ := pair
  rw [ofPair]
  constructor
  · intro h
    cases h with
    | nested hkey => rw [bracketKey?_eq_some_iff.2 hkey]
    | plain hkey => rw [bracketKey?_eq_none_iff.2 hkey]
  · rintro rfl
    cases hcut : bracketKey? key with
    | none => exact .plain (bracketKey?_eq_none_iff.1 hcut)
    | some cut => exact .nested (bracketKey?_eq_some_iff.1 hcut)

namespace Params

/-- The pairs of a query text; question marks before it are skipped. -/
def queryPairs (raw : String) : List (String × String) :=
  Text.formPairs (raw.toList.dropWhile (· = '?'))

/-- A query text comes to the edits that its pairs ask for, in order. -/
theorem exists_asked (raw : String) :
    ∃ edits, List.Forall₂ ParamEdit.AskedBy (queryPairs raw) edits ∧
      ofQuery raw = ofEdits edits := by
  refine ⟨(queryPairs raw).map ParamEdit.ofPair, ?_, rfl⟩
  exact List.forall₂_map_right_iff.2 (List.forall₂_same.2 fun pair _ => ParamEdit.askedBy_iff.2 rfl)

end Params

end Shelf
