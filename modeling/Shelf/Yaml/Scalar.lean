/-!
Scalars of YAML text.

A scalar is plain, quoted or a block. What lies between two words of a plain or quoted scalar is a
gap: within a line it stays as it is, and across lines it folds, one line break to a space and more
of them to the breaks after the first. A block keeps its line breaks (`|`) or folds those between
unindented lines (`>`), and its header says what becomes of the breaks at its end.
-/

namespace Shelf.Yaml

/-- A position in the text: in its line, columns count characters and offsets count bytes. -/
structure Place where
  line : Nat := 0
  column : Nat := 0
  offset : Nat := 0
  deriving DecidableEq

/-- The position behind a character of the line. -/
def Place.right (p : Place) (c : Char) : Place := ⟨p.line, p.column + 1, p.offset + c.utf8Size⟩

/-- The start of the next line. -/
def Place.down (p : Place) : Place := ⟨p.line + 1, 0, 0⟩

/-- The text from a position on. -/
structure Cursor where
  place : Place
  rest : List Char

/-- The cursor some characters further in the line. -/
def Cursor.skip (c : Cursor) (n : Nat) : Cursor :=
  ⟨(c.rest.take n).foldl Place.right c.place, c.rest.drop n⟩

/-- The cursor further in the line, where the text ends in `rest`. -/
def Cursor.skipTo (c : Cursor) (rest : List Char) : Cursor :=
  c.skip (c.rest.length - rest.length)

/-- Spaces and tabs. -/
def isSpace (c : Char) : Bool := c == ' ' || c == '\t'

/-- Line breaks. -/
def isBreak (c : Char) : Bool := c == '\n' || c == '\u2028' || c == '\u2029'

/-- Whether a word ends here. -/
def endsWord : List Char → Bool
  | []     => true
  | c :: _ => isSpace c || isBreak c

/-- Whether a line starts here that marks the start or the end of a document. -/
def Cursor.atMarker (c : Cursor) : Bool :=
  c.place.column == 0 && (c.rest.take 3 == ['-', '-', '-'] || c.rest.take 3 == ['.', '.', '.']) &&
    endsWord (c.rest.drop 3)

/-- The cursor at the end of its line, if only blanks and a comment stand before that. -/
def Cursor.toLineEnd? (c : Cursor) : Option Cursor :=
  let afterBlanks := c.rest.dropWhile isSpace
  let rest :=
    if afterBlanks.head? == some '#' then afterBlanks.dropWhile (!isBreak ·) else afterBlanks
  if rest.head?.all isBreak then some (c.skipTo rest) else none

/-- The cursor behind a line break. -/
def Cursor.skipBreak (c : Cursor) : Cursor :=
  match c.rest with
  | []      => c
  | _ :: cs => ⟨c.place.down, cs⟩

/-! ### Gaps -/

/-- What lies between two words: blanks of one line, or line breaks. An escaped break has no first
break. Both lists have their last character first. -/
structure Gap where
  broken : Bool := false
  blanks : List Char := []
  first : Option Char := none
  more : List Char := []

namespace Gap

/-- One more blank; blanks around line breaks do not count. -/
def addBlank (g : Gap) (c : Char) : Gap :=
  if g.broken then g else { g with blanks := c :: g.blanks }

/-- One more line break. -/
def addBreak (g : Gap) (c : Char) : Gap :=
  if g.broken then { g with more := c :: g.more } else ⟨true, [], some c, []⟩

/-- What a gap stands for, last character first. -/
def folded (g : Gap) : List Char :=
  if g.broken then
    match g.first with
    | some '\n' => if g.more.isEmpty then [' '] else g.more
    | some c    => g.more ++ [c]
    | none      => g.more
  else g.blanks

end Gap

/-- The gap here. After a line break no tab may stand before column `indent`. -/
def spanGap (indent : Int) (g : Gap) (p : Place) : List Char → Option (Gap × Cursor)
  | [] => some (g, ⟨p, []⟩)
  | c :: cs =>
    if isSpace c then
      if g.broken ∧ c = '\t' ∧ (p.column : Int) < indent then none
      else spanGap indent (g.addBlank c) (p.right c) cs
    else if isBreak c then spanGap indent (g.addBreak c) p.down cs
    else some (g, ⟨p, c :: cs⟩)

/-! ### Plain scalars -/

/-- The brackets and commas of flow collections. -/
def isFlowIndicator (c : Char) : Bool := [',', '[', ']', '{', '}'].contains c

/-- A word of a plain scalar. -/
def spanWord (inFlow : Bool) (p : Place) : List Char → Option (List Char × Cursor)
  | [] => some ([], ⟨p, []⟩)
  | c :: cs =>
    if isSpace c || isBreak c || (c == ':' && endsWord cs) || (inFlow && isFlowIndicator c) then
      some ([], ⟨p, c :: cs⟩)
    else if c = ':' ∧ inFlow ∧ (cs.head?.any fun d => isFlowIndicator d || d == '?') then none
    else do
      let (word, rest) ← spanWord inFlow (p.right c) cs
      return (c :: word, rest)

/-- A scalar that has been read. -/
structure Scalar where
  /-- The last character comes first. -/
  reversed : List Char
  /-- Whether a line break came after it. -/
  broken : Bool
  cursor : Cursor

/-- A plain scalar, from a word on. -/
def plainFrom (inFlow : Bool) (indent : Int) :
    (fuel : Nat) → List Char → Gap → Cursor → Option Scalar
  | 0,        _,   _, _ => none
  | fuel + 1, acc, g, c =>
    if c.atMarker || c.rest.head? == some '#' then some ⟨acc, g.broken, c⟩
    else do
      let (word, c) ← spanWord inFlow c.place c.rest
      let (acc, g) := if word.isEmpty then (acc, g) else (word.reverse ++ g.folded ++ acc, {})
      if c.rest.isEmpty || !endsWord c.rest then some ⟨acc, g.broken, c⟩
      else
        let (g, c) ← spanGap indent g c.place c.rest
        if !inFlow && (c.place.column : Int) < indent then some ⟨acc, g.broken, c⟩
        else plainFrom inFlow indent fuel acc g c

/-! ### Quoted scalars -/

/-- A number in hexadecimal digits. -/
def hexNumber? (cs : List Char) : Option Nat :=
  cs.foldlM (fun n c => do
    let d ← if c.isDigit then some (c.toNat - '0'.toNat)
      else if 'a' ≤ c ∧ c ≤ 'f' then some (c.toNat - 'a'.toNat + 10)
      else if 'A' ≤ c ∧ c ≤ 'F' then some (c.toNat - 'A'.toNat + 10)
      else none
    return 16 * n + d) 0

/-- The character of a code point. -/
def charOf? (n : Nat) : Option Char := if n.isValidChar then some (Char.ofNat n) else none

/-- The characters that the escape after a backslash takes, and the character it stands for. -/
def escape? (c : Char) (cs : List Char) : Option (Nat × Char) :=
  let number (n : Nat) : Option (Nat × Char) :=
    if cs.length < n then none
    else ((hexNumber? (cs.take n)).bind charOf?).map fun c => (n + 1, c)
  match c with
  | '0'  => some (1, Char.ofNat 0)
  | 'a'  => some (1, Char.ofNat 7)
  | 'b'  => some (1, Char.ofNat 8)
  | 't'  => some (1, '\t')
  | '\t' => some (1, '\t')
  | 'n'  => some (1, '\n')
  | 'v'  => some (1, Char.ofNat 11)
  | 'f'  => some (1, Char.ofNat 12)
  | 'r'  => some (1, '\r')
  | 'e'  => some (1, Char.ofNat 27)
  | ' '  => some (1, ' ')
  | '"'  => some (1, '"')
  | '/'  => some (1, '/')
  | '\\' => some (1, '\\')
  | 'N'  => some (1, '\u0085')
  | '_'  => some (1, '\u00a0')
  | 'L'  => some (1, '\u2028')
  | 'P'  => some (1, '\u2029')
  | 'x'  => number 2
  | 'u'  => number 4
  | 'U'  => number 8
  | _    => none

/-- A scalar in single quotes, from behind its first quote on. -/
def singleFrom : (fuel : Nat) → List Char → Cursor → Option Scalar
  | 0,        _,   _ => none
  | fuel + 1, acc, c =>
    if c.atMarker then none
    else
      match c.rest with
      | '\'' :: '\'' :: _ => singleFrom fuel ('\'' :: acc) (c.skip 2)
      | '\'' :: _         => some ⟨acc, false, c.skip 1⟩
      | d :: _            =>
        if endsWord c.rest then do
          let (g, c) ← spanGap 0 {} c.place c.rest
          singleFrom fuel (g.folded ++ acc) c
        else singleFrom fuel (d :: acc) (c.skip 1)
      | [] => none

/-- A scalar in double quotes, from behind its first quote on. -/
def doubleFrom : (fuel : Nat) → List Char → Cursor → Option Scalar
  | 0,        _,   _ => none
  | fuel + 1, acc, c =>
    if c.atMarker then none
    else
      match c.rest with
      | '"' :: _ => some ⟨acc, false, c.skip 1⟩
      | '\\' :: d :: cs =>
        if isBreak d then do
          let (g, c) ← spanGap 0 { broken := true } c.place.down cs
          doubleFrom fuel (g.folded ++ acc) c
        else do
          let (n, e) ← escape? d cs
          doubleFrom fuel (e :: acc) (c.skip (n + 1))
      | d :: _ =>
        if endsWord c.rest then do
          let (g, c) ← spanGap 0 {} c.place c.rest
          doubleFrom fuel (g.folded ++ acc) c
        else doubleFrom fuel (d :: acc) (c.skip 1)
      | [] => none

/-! ### Block scalars -/

/-- What becomes of the line breaks at the end of a block. -/
inductive Chomping where | strip | clip | keep
  deriving DecidableEq

/-- The header of a block: folding, chomping and, if it is given, the indentation. -/
structure BlockHeader where
  folds : Bool
  chomping : Chomping := .clip
  increment : Option Nat := none

/-- The chomping that a sign asks for. -/
def chomping? : Char → Option Chomping
  | '+' => some .keep
  | '-' => some .strip
  | _   => none

/-- The header's signs: chomping and indentation in either order. -/
def blockHeader? (folds : Bool) (signs : List Char) : Option BlockHeader :=
  let increment? (c : Char) : Option Nat :=
    if '1' ≤ c ∧ c ≤ '9' then some (c.toNat - '0'.toNat) else none
  match signs with
  | []     => some { folds }
  | [c]    =>
    ((chomping? c).map fun ch => { folds, chomping := ch }).or
      ((increment? c).map fun n => { folds, increment := some n })
  | [c, d] =>
    match (chomping? c, increment? d), (increment? c, chomping? d) with
    | (some ch, some n), _ => some ⟨folds, ch, some n⟩
    | _, (some n, some ch) => some ⟨folds, ch, some n⟩
    | _, _                 => none
  | _ => none

/-- Indentation and empty lines: the largest column seen, the line breaks with the last one first,
and what follows. An indentation of zero is one that is still to be found. -/
def spanIndent (indent largest : Nat) (breaks : List Char) (p : Place) :
    List Char → Option (Nat × List Char × Cursor)
  | [] => some (max largest p.column, breaks, ⟨p, []⟩)
  | c :: cs =>
    let before := indent = 0 ∨ p.column < indent
    if c = ' ' ∧ before then spanIndent indent largest breaks (p.right c) cs
    else if c = '\t' ∧ before then none
    else if isBreak c then spanIndent indent (max largest p.column) (c :: breaks) p.down cs
    else some (max largest p.column, breaks, ⟨p, c :: cs⟩)

/-- The lines of a block and the breaks before, between and after them. -/
def blockLines (header : BlockHeader) (indent : Nat) :
    (fuel : Nat) → (acc lead breaks : List Char) → (leadBlank : Bool) → Cursor → Option Scalar
  | 0, _, _, _, _, _ => none
  | fuel + 1, acc, lead, breaks, leadBlank, c =>
    if c.place.column = indent ∧ !c.rest.isEmpty then do
      let blank := c.rest.head?.any isSpace
      let fold := header.folds && lead == ['\n'] && !leadBlank && !blank
      let acc := if fold then (if breaks.isEmpty then ' ' :: acc else acc) else lead ++ acc
      let line := c.rest.takeWhile (!isBreak ·)
      let acc := line.reverse ++ breaks ++ acc
      let c := c.skip line.length
      match c.rest with
      | [] => some ⟨acc, true, c⟩
      | b :: cs =>
        let (_, breaks, c) ← spanIndent indent 0 [] c.place.down cs
        blockLines header indent fuel acc [b] breaks blank c
    else
      match header.chomping with
      | .strip => some ⟨acc, true, c⟩
      | .clip  => some ⟨lead ++ acc, true, c⟩
      | .keep  => some ⟨breaks ++ lead ++ acc, true, c⟩

/-- A block, from behind its `|` or `>` on, inside a collection with this indentation. -/
def blockFrom (folds : Bool) (parent : Int) (c : Cursor) : Option Scalar := do
  let signs := c.rest.takeWhile fun d => !isSpace d && !isBreak d && d != '#'
  let header ← blockHeader? folds signs
  let c := (← (c.skip signs.length).toLineEnd?).skipBreak
  let given := match header.increment with
    | some n => (max parent 0).toNat + n
    | none   => 0
  let (largest, breaks, c) ← spanIndent given 0 [] c.place c.rest
  let indent := if given = 0 then max largest (max (parent + 1).toNat 1) else given
  blockLines header indent (c.rest.length + 1) [] [] breaks false c

end Shelf.Yaml
