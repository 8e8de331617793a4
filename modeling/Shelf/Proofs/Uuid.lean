import Mathlib.Data.List.Basic
import Shelf.Uuid

/-!
The text of an identifier names it.

The text is one of the spellings that are read, and it is read back as the identifier that it is the
text of. So identifiers with one text are one, and whatever spelling an identifier was read from, its
text is the one in lower case with hyphens.
-/

namespace Shelf.Uuid

/-- Lower-case hexadecimal digits, thirty-two of them, in hyphenated spelling. -/
def IsNormal (s : String) : Prop :=
  ∃ cs : List Char, cs.length = 32 ∧ (∀ c ∈ cs, c ∈ "0123456789abcdef".toList) ∧
    s.toList = hyphenate cs

theorem isNormal_text (id : Uuid) : IsNormal id.text := by
  have hdigits : ∀ d : Fin 16, digitChar d ∈ "0123456789abcdef".toList := by decide
  refine ⟨id.digits.map digitChar, ?_, ?_, String.toList_ofList⟩
  · rw [List.length_map, id.length_digits]
  · rw [List.forall_mem_map]
    exact fun d _ => hdigits d

theorem digit?_digitChar : ∀ d : Fin 16, digit? (digitChar d) = some d := by decide

theorem mapM_digit? : ∀ ds : List (Fin 16), (ds.map digitChar).mapM digit? = some ds
  | []      => rfl
  | d :: ds => by
    rw [List.map_cons, List.mapM_cons, digit?_digitChar, mapM_digit? ds]
    rfl

/-- The pieces between the hyphens make up the row. -/
theorem pieces_append (cs : List Char) : cs.take 8 ++ ((cs.drop 8).take 4 ++
    ((cs.drop 12).take 4 ++ ((cs.drop 16).take 4 ++ cs.drop 20))) = cs := by
  have hstep : ∀ n, (cs.drop n).take 4 ++ cs.drop (n + 4) = cs.drop n := by
    intro n
    rw [← List.drop_drop]
    exact List.take_append_drop 4 (cs.drop n)
  rw [hstep 16, hstep 12, hstep 8, List.take_append_drop]

/-- The pieces of a hyphenated row, from its front to its end. -/
theorem hyphenate_eq (cs : List Char) : hyphenate cs = cs.take 8 ++ '-' :: ((cs.drop 8).take 4 ++
    '-' :: ((cs.drop 12).take 4 ++ '-' :: ((cs.drop 16).take 4 ++ '-' :: cs.drop 20))) := by
  simp only [hyphenate, List.cons_append, List.append_assoc]

/-- What is behind the hyphen after a front of known length. -/
theorem drop_front {front back : List Char} {n : Nat} (h : front.length = n) :
    (front ++ '-' :: back).drop (n + 1) = back := by
  rw [← List.drop_drop, List.drop_left' h]
  rfl

theorem dehyphenate?_hyphenate {cs : List Char} (h : cs.length = 32) :
    dehyphenate? (hyphenate cs) = some cs := by
  have hlength : ∀ n, n ≤ 28 → ((cs.drop n).take 4).length = 4 := by
    intro n hn
    rw [List.length_take, List.length_drop, h]
    omega
  have hfront : (cs.take 8).length = 8 := by rw [List.length_take, h]; rfl
  have h9 : (hyphenate cs).drop 9 = (cs.drop 8).take 4 ++ '-' :: ((cs.drop 12).take 4 ++
      '-' :: ((cs.drop 16).take 4 ++ '-' :: cs.drop 20)) := by
    rw [hyphenate_eq, drop_front hfront]
  have h14 : (hyphenate cs).drop 14 =
      (cs.drop 12).take 4 ++ '-' :: ((cs.drop 16).take 4 ++ '-' :: cs.drop 20) := by
    rw [show 14 = 9 + 5 from rfl, ← List.drop_drop, h9, drop_front (hlength 8 (by decide))]
  have h19 : (hyphenate cs).drop 19 = (cs.drop 16).take 4 ++ '-' :: cs.drop 20 := by
    rw [show 19 = 14 + 5 from rfl, ← List.drop_drop, h14, drop_front (hlength 12 (by decide))]
  have h24 : (hyphenate cs).drop 24 = cs.drop 20 := by
    rw [show 24 = 19 + 5 from rfl, ← List.drop_drop, h19, drop_front (hlength 16 (by decide))]
  have hrow : (hyphenate cs).take 8 ++ ((hyphenate cs).drop 9).take 4 ++
      ((hyphenate cs).drop 14).take 4 ++ ((hyphenate cs).drop 19).take 4 ++
        (hyphenate cs).drop 24 = cs := by
    rw [h9, h14, h19, h24, hyphenate_eq, List.take_left' hfront,
      List.take_left' (hlength 8 (by decide)), List.take_left' (hlength 12 (by decide)),
      List.take_left' (hlength 16 (by decide))]
    simp only [List.append_assoc]
    exact pieces_append cs
  rw [dehyphenate?, hrow, if_pos rfl]

/-- An identifier is read back from its text. -/
theorem ofText?_text (id : Uuid) : ofText? id.text = some id := by
  have hlength : (id.digits.map digitChar).length = 32 := by
    rw [List.length_map, id.length_digits]
  have hlong : (hyphenate (id.digits.map digitChar)).length = 36 := by
    simp [hyphenate, id.length_digits]
  rw [ofText?, text, String.toList_ofList]
  dsimp only
  rw [hlong, if_neg (by decide), if_neg (by simp), if_neg (by simp), dehyphenate?_hyphenate hlength,
    Option.bind_some, ofDigits?, mapM_digit?]
  exact dif_pos id.length_digits

/-- Identifiers with one text are one. -/
theorem text_injective : Function.Injective text := by
  intro a b h
  have hread : some a = some b := by rw [← ofText?_text a, h, ofText?_text b]
  exact Option.some.inj hread

/-- The identifier with the same digit throughout. -/
def uniform (d : Fin 16) : Uuid := ⟨List.replicate 32 d, List.length_replicate⟩

end Shelf.Uuid
