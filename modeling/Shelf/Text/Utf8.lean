/-!
Reading bytes as UTF-8.

Bytes that form no character are replaced, not refused: each longest stretch that starts a
well-formed sequence and is then cut short becomes one U+FFFD, and so does each byte that cannot
start a sequence.

    lead byte    second byte    bytes
    00..7F                      1
    C2..DF       80..BF         2
    E0           A0..BF         3
    E1..EC       80..BF         3
    ED           80..9F         3      (no surrogates)
    EE..EF       80..BF         3
    F0           90..BF         4
    F1..F3       80..BF         4
    F4           80..8F         4      (nothing above U+10FFFF)
-/

namespace Shelf.Text

/-- Stands for bytes that form no character. -/
def replacement : Char := '\uFFFD'

/-- What a lead byte announces: its own bits, the bounds of the byte after it, and how many plain
continuation bytes follow that one. -/
structure Lead where
  bits : Nat
  low : Nat
  high : Nat
  more : Nat

/-- The table of lead bytes above 7F. -/
def Lead.ofByte? (b : Nat) : Option Lead :=
  if 0xC2 ≤ b ∧ b ≤ 0xDF then some ⟨b - 0xC0, 0x80, 0xBF, 0⟩
  else if b = 0xE0 then some ⟨0, 0xA0, 0xBF, 1⟩
  else if b = 0xED then some ⟨0xD, 0x80, 0x9F, 1⟩
  else if 0xE1 ≤ b ∧ b ≤ 0xEF then some ⟨b - 0xE0, 0x80, 0xBF, 1⟩
  else if b = 0xF0 then some ⟨0, 0x90, 0xBF, 2⟩
  else if 0xF1 ≤ b ∧ b ≤ 0xF3 then some ⟨b - 0xF0, 0x80, 0xBF, 2⟩
  else if b = 0xF4 then some ⟨4, 0x80, 0x8F, 2⟩
  else none

/-- Reading in the middle of a sequence, or between two. -/
inductive Utf8State
  | between
  | within (bits low high more : Nat)

/-- A byte that starts a character. -/
def Utf8State.start (b : Nat) : Utf8State × List Char :=
  if b < 0x80 then (.between, [Char.ofNat b])
  else
    match Lead.ofByte? b with
    | some l => (.within l.bits l.low l.high l.more, [])
    | none   => (.between, [replacement])

/-- One byte: the state after it and the characters that it completes. -/
def Utf8State.step : Utf8State → Nat → Utf8State × List Char
  | .between, b => start b
  | .within bits low high more, b =>
    if low ≤ b ∧ b ≤ high then
      let bits := bits * 64 + (b - 0x80)
      match more with
      | 0        => (.between, [Char.ofNat bits])
      | more + 1 => (.within bits 0x80 0xBF more, [])
    else
      let (next, cs) := start b
      (next, replacement :: cs)

/-- The characters of a byte sequence, from a given state on. -/
def decodeFrom : Utf8State → List UInt8 → List Char
  | .between, []    => []
  | .within .., []  => [replacement]
  | st, b :: rest   => let (next, cs) := st.step b.toNat; cs ++ decodeFrom next rest

/-- The characters of a byte sequence. -/
def decodeUtf8 (bytes : List UInt8) : List Char := decodeFrom .between bytes

end Shelf.Text
