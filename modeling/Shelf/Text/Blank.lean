/-!
Blank characters and trimming.

Blank is the `White_Space` property of Unicode: twenty-five characters, U+0085, U+00A0 and U+3000
among them, but neither the zero-width space U+200B nor the byte order mark U+FEFF.
-/

namespace Shelf.Text

/-- The characters with the property `White_Space`. -/
def isBlank (c : Char) : Bool :=
  let n := c.toNat
  (0x09 ≤ n && n ≤ 0x0D) || n == 0x20 || n == 0x85 || n == 0xA0 || n == 0x1680 ||
  (0x2000 ≤ n && n ≤ 0x200A) || n == 0x2028 || n == 0x2029 || n == 0x202F || n == 0x205F ||
  n == 0x3000

/-- A text without the blanks at its two ends. -/
def trim (cs : List Char) : List Char :=
  ((cs.dropWhile isBlank).reverse.dropWhile isBlank).reverse

/-- `trim` on strings. -/
def trimmed (s : String) : String := String.ofList (trim s.toList)

/-- The entries of a comma-separated list: trimmed, and the empty ones dropped. -/
def entries (raw : String) : List (List Char) :=
  ((raw.toList.splitOn ',').map trim).filter (· ≠ [])

end Shelf.Text
