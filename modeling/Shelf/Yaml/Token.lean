import Shelf.Yaml.Tag

/-!
Tokens of YAML text.

Indentation becomes tokens: a block collection starts where a line is indented further than the
block around it, and ends where one is indented less. Whether a scalar is a key shows only at the
`:` behind it, so the place of every possible key is remembered, and the tokens that announce the
key are put in there afterwards. A key stands on one line.

    a:             mappingStart key a value
      - b          sequenceStart entry b
      - c: d       entry mappingStart key c value d blockEnd blockEnd blockEnd
-/

namespace Shelf.Yaml

/-- How a scalar is written: plain, as a block that keeps its line breaks, or in another way. -/
inductive Style where | plain | literal | other
  deriving DecidableEq, Repr

/-- A token. -/
inductive Token
  | directive (d : Directive)
  | documentStart
  | documentEnd
  | sequenceStart
  | mappingStart
  | blockEnd
  | flowSequenceStart
  | flowSequenceEnd
  | flowMappingStart
  | flowMappingEnd
  | entry
  | comma
  | key
  | value
  | alias (name : String)
  | anchor (name : String)
  | tag (t : Tag)
  | scalar (text : String) (style : Style)
  deriving DecidableEq, Repr

/-- A place where a key may turn out to have started. -/
structure PossibleKey where
  /-- How many tokens come before it. -/
  token : Nat
  /-- Whether nothing but a key can stand there. -/
  required : Bool
  place : Place

/-- How far the text has been read. -/
structure Scan where
  cursor : Cursor
  /-- The column of the innermost block. -/
  indent : Int := -1
  /-- The columns of the blocks around it. -/
  indents : List Int := []
  /-- Whether a key, or an entry of a block, may start here. -/
  keyAllowed : Bool := true
  key : Option PossibleKey := none
  /-- The possible keys around each open flow collection. -/
  outer : List (Option PossibleKey) := []
  /-- The tokens so far, the last one first. -/
  tokens : List Token := []

namespace Scan

/-- Whether a flow collection is open. -/
def inFlow (s : Scan) : Bool := !s.outer.isEmpty

/-- The column of the cursor. -/
def column (s : Scan) : Nat := s.cursor.place.column

/-- One more token. -/
def emit (s : Scan) (t : Token) : Scan := { s with tokens := t :: s.tokens }

/-- A token put in behind the first `n` ones. -/
def emitAt (s : Scan) (n : Nat) (t : Token) : Scan :=
  let later := s.tokens.length - n
  { s with tokens := s.tokens.take later ++ t :: s.tokens.drop later }

/-- The cursor some characters further. -/
def skip (s : Scan) (n : Nat) : Scan := { s with cursor := s.cursor.skip n }

/-- Sets whether a key may start here. -/
def allow (s : Scan) (b : Bool) : Scan := { s with keyAllowed := b }

/-! ### Blanks, comments and line breaks -/

/-- A byte order mark. -/
def byteOrderMark : Char := '\uFEFF'

/-- Skips what lies before the next token. Where a key may start, tabs do not count as blanks, and
at the start of a line a byte order mark does. -/
def skipBlanks (inFlow : Bool) : (allowed inComment : Bool) → Place → List Char → Bool × Cursor
  | allowed, _, p, [] => (allowed, ⟨p, []⟩)
  | allowed, inComment, p, c :: cs =>
    if isBreak c then skipBlanks inFlow (allowed || !inFlow) false p.down cs
    else if inComment || c == ' ' || (c == '\t' && (inFlow || !allowed)) ||
        (c == byteOrderMark && p.column == 0) then
      skipBlanks inFlow allowed inComment (p.right c) cs
    else if c = '#' then skipBlanks inFlow allowed true (p.right c) cs
    else (allowed, ⟨p, c :: cs⟩)

/-- The cursor at the next token. -/
def toToken (s : Scan) : Scan :=
  let (keyAllowed, cursor) := skipBlanks s.inFlow s.keyAllowed false s.cursor.place s.cursor.rest
  { s with keyAllowed, cursor }

/-! ### Keys -/

/-- Whether a possible key is too far back. -/
def stale (p : Place) (k : PossibleKey) : Bool :=
  k.place.line < p.line || k.place.offset + 1024 < p.offset

/-- Forgets a possible key that is too far back; one that was required is an error. -/
def freshKey (p : Place) : Option PossibleKey → Option (Option PossibleKey)
  | some k => if stale p k then (if k.required then none else some none) else some (some k)
  | none   => some none

/-- Forgets the possible keys that are too far back. -/
def dropStale (s : Scan) : Option Scan := do
  let key ← freshKey s.cursor.place s.key
  let outer ← s.outer.mapM (freshKey s.cursor.place)
  return { s with key, outer }

/-- Forgets the possible key; one that was required is an error. -/
def dropKey (s : Scan) : Option Scan :=
  if s.key.any (·.required) then none else some { s with key := none }

/-- Remembers that a key may start here. -/
def saveKey (s : Scan) : Option Scan :=
  if s.keyAllowed then do
    let s ← s.dropKey
    let required := !s.inFlow && s.indent == (s.column : Int)
    return { s with key := some ⟨s.tokens.length, required, s.cursor.place⟩ }
  else some s

/-! ### Blocks -/

/-- Starts a block at a column, unless one is there. -/
def openBlock (s : Scan) (column token : Nat) (t : Token) : Scan :=
  if !s.inFlow && s.indent < (column : Int) then
    { s.emitAt token t with indent := column, indents := s.indent :: s.indents }
  else s

/-- Ends the blocks to the right of a column. -/
def closeBlocks (column : Int) : Int → List Int → List Token → Int × List Int × List Token
  | indent, [],           ts => (indent, [], ts)
  | indent, i :: indents, ts =>
    if column < indent then closeBlocks column i indents (.blockEnd :: ts)
    else (indent, i :: indents, ts)

/-- Ends the blocks to the right of a column. -/
def closeTo (s : Scan) (column : Int) : Scan :=
  if s.inFlow then s
  else
    let (indent, indents, tokens) := closeBlocks column s.indent s.indents s.tokens
    { s with indent, indents, tokens }

/-! ### Single tokens -/

/-- Ends all blocks. -/
def atDocumentEdge (s : Scan) : Option Scan := do return (← (s.closeTo (-1)).dropKey).allow false

/-- A directive, to the end of its line. -/
def directive (s : Scan) : Option Scan := do
  let s ← s.atDocumentEdge
  let (d, rest) ← Directive.read? (s.cursor.rest.drop 1)
  let cursor := (← (s.cursor.skipTo rest).toLineEnd?).skipBreak
  return { s with cursor }.emit (.directive d)

/-- The start or the end of a document. -/
def marker (s : Scan) (t : Token) : Option Scan := do return ((← s.atDocumentEdge).skip 3).emit t

/-- Opens a flow collection. -/
def openFlow (s : Scan) (t : Token) : Option Scan := do
  let s ← s.saveKey
  return ({ s with key := none, outer := s.key :: s.outer, keyAllowed := true }.skip 1).emit t

/-- Closes a flow collection. -/
def closeFlow (s : Scan) (t : Token) : Option Scan := do
  let s ← s.dropKey
  let s := match s.outer with
    | []           => s
    | key :: outer => { s with key, outer }
  return ((s.allow false).skip 1).emit t

/-- A comma. -/
def comma (s : Scan) : Option Scan := do return (((← s.dropKey).allow true).skip 1).emit .comma

/-- A dash before an entry. -/
def entry (s : Scan) : Option Scan :=
  if !s.inFlow && !s.keyAllowed then none
  else do
    let s ← (s.openBlock s.column s.tokens.length .sequenceStart).dropKey
    return ((s.allow true).skip 1).emit .entry

/-- A question mark before a key. -/
def explicitKey (s : Scan) : Option Scan :=
  if !s.inFlow && !s.keyAllowed then none
  else do
    let s ← (s.openBlock s.column s.tokens.length .mappingStart).dropKey
    return ((s.allow !s.inFlow).skip 1).emit .key

/-- A colon behind a key. -/
def value (s : Scan) : Option Scan :=
  match s.key with
  | some k =>
    let s := (s.emitAt k.token .key).openBlock k.place.column k.token .mappingStart
    some ((({ s with key := none }.allow false).skip 1).emit .value)
  | none =>
    if !s.inFlow && !s.keyAllowed then none
    else
      let s := s.openBlock s.column s.tokens.length .mappingStart
      some (((s.allow !s.inFlow).skip 1).emit .value)

/-- An anchor or an alias. -/
def named (s : Scan) (token : String → Token) : Option Scan := do
  let s ← s.saveKey
  let name := (s.cursor.rest.drop 1).takeWhile isNameChar
  let rest := s.cursor.rest.drop (name.length + 1)
  let ends := endsWord rest || rest.head?.any "?:,]\x7d%@`".toList.contains
  if name.isEmpty || !ends then none
  else return ((s.allow false).skip (name.length + 1)).emit (token (String.ofList name))

/-- A tag. -/
def tag (s : Scan) : Option Scan := do
  let s ← s.saveKey
  let (t, rest) ← Tag.read? (s.cursor.rest.drop 1)
  if endsWord rest || (s.inFlow && rest.head? == some ',') then
    return { s.allow false with cursor := s.cursor.skipTo rest }.emit (.tag t)
  else none

/-- The token of a scalar that has been read. -/
def emitScalar (s : Scan) (x : Scalar) (style : Style) : Scan :=
  { s with cursor := x.cursor }.emit (.scalar (String.ofList x.reversed.reverse) style)

/-- A block scalar. -/
def block (s : Scan) (folds : Bool) : Option Scan := do
  let s ← s.dropKey
  let x ← blockFrom folds s.indent (s.cursor.skip 1)
  return (s.emitScalar x (if folds then .other else .literal)).allow true

/-- A quoted scalar. -/
def quoted (s : Scan) (read : (fuel : Nat) → List Char → Cursor → Option Scalar) : Option Scan := do
  let s ← s.saveKey
  let x ← read (s.cursor.rest.length + 1) [] (s.cursor.skip 1)
  return (s.emitScalar x .other).allow false

/-- A plain scalar. -/
def plain (s : Scan) : Option Scan := do
  let s ← s.saveKey
  let x ← plainFrom s.inFlow (s.indent + 1) (s.cursor.rest.length + 1) [] {} s.cursor
  return (s.emitScalar x .plain).allow x.broken

/-- Whether a plain scalar can start here. -/
def startsPlain (inFlow : Bool) : List Char → Bool
  | [] => false
  | c :: cs =>
    if c = '-' then !(cs.head?.any isSpace)
    else if c = '?' ∨ c = ':' then !inFlow && !endsWord cs
    else !(isSpace c || isBreak c || isFlowIndicator c || "#&*!|>'\"%@`".toList.contains c)

/-- The token at the cursor. -/
def token (s : Scan) : Option Scan :=
  let ends := endsWord (s.cursor.rest.drop 1)
  match s.cursor.rest.head? with
  | none => s.atDocumentEdge
  | some c =>
    if s.column = 0 ∧ c = '%' then s.directive
    else if s.cursor.atMarker then s.marker (if c = '-' then .documentStart else .documentEnd)
    else if c = '[' then s.openFlow .flowSequenceStart
    else if c = '{' then s.openFlow .flowMappingStart
    else if c = ']' then s.closeFlow .flowSequenceEnd
    else if c = '}' then s.closeFlow .flowMappingEnd
    else if c = ',' then s.comma
    else if c = '-' ∧ ends then s.entry
    else if c = '?' ∧ (s.inFlow ∨ ends) then s.explicitKey
    else if c = ':' ∧ (s.inFlow ∨ ends) then s.value
    else if c = '*' then s.named .alias
    else if c = '&' then s.named .anchor
    else if c = '!' then s.tag
    else if c = '|' ∧ !s.inFlow then s.block false
    else if c = '>' ∧ !s.inFlow then s.block true
    else if c = '\'' then s.quoted singleFrom
    else if c = '"' then s.quoted doubleFrom
    else if startsPlain s.inFlow s.cursor.rest then s.plain
    else none

/-- Reads token after token. -/
def run : (fuel : Nat) → Scan → Option (List Token)
  | 0,        _ => none
  | fuel + 1, s => do
    let s ← s.toToken.dropStale
    let s := s.closeTo s.column
    if s.cursor.rest.isEmpty then return (← s.atDocumentEdge).tokens.reverse
    else run fuel (← s.token)

end Scan

/-! ### Texts -/

/-- The characters that may stand in a text. -/
def isAllowed (c : Char) : Bool :=
  let n := c.toNat
  n == 0x09 || n == 0x0A || n == 0x0D || (0x20 ≤ n && n ≤ 0x7E) || n == 0x85 ||
    (0xA0 ≤ n && n ≤ 0xFFFD) || 0x10000 ≤ n

/-- Every line break as a line feed, but for the two separators. -/
def unifyBreaks : List Char → List Char
  | '\r' :: '\n' :: cs => '\n' :: unifyBreaks cs
  | '\r' :: cs         => '\n' :: unifyBreaks cs
  | '\u0085' :: cs     => '\n' :: unifyBreaks cs
  | c :: cs            => c :: unifyBreaks cs
  | []                 => []

/-- The tokens of a text. -/
def tokens? (text : String) : Option (List Token) :=
  let cs := text.toList
  if cs.all isAllowed then
    Scan.run (cs.length + 1) { cursor := ⟨{}, unifyBreaks cs⟩ }
  else none

end Shelf.Yaml
