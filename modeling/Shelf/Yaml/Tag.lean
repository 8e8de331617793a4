import Shelf.Decimal.Numeral
import Shelf.Yaml.Scalar

/-!
Tags of YAML text, and the directives before a document.

A tag names the kind of a node. It is written in full, or as a handle with a suffix, and then the
handle stands for the first part of the tag. A directive says what a handle stands for, or which
version of the language the document is written in.

    !<tag:yaml.org,2002:int>      in full
    !!int                         the same, by the standard handle `!!`
    %TAG !x! tag:example,2002:    makes `!x!a` stand for `tag:example,2002:a`
    %YAML 1.2

A tag is a row of bytes, and `%` with two hexadecimal digits stands for one of them. The bytes of a
character have to stand together. A byte of zero ends the tag.
-/

namespace Shelf.Yaml

/-- What the names of handles, directives and anchors are made of. -/
def isNameChar (c : Char) : Bool := c.isAlphanum || c == '_' || c == '-'

/-- The bytes of a text. -/
def bytesOf (s : String) : List UInt8 := s.toUTF8.toList

/-! ### Identifiers -/

/-- The characters of an identifier; some stand only in one that is written in full. -/
def isUriChar (full : Bool) (c : Char) : Bool :=
  isNameChar c || ";/?:@&=+$.!~*'()".toList.contains c || (full && [',', '[', ']'].contains c)

/-- How many bytes follow the first one of a character. -/
def bytesAfter? (first : Nat) : Option Nat :=
  if first < 0x80 then some 0
  else if 0xC0 ≤ first ∧ first < 0xE0 then some 1
  else if 0xE0 ≤ first ∧ first < 0xF0 then some 2
  else if 0xF0 ≤ first ∧ first < 0xF8 then some 3
  else none

/-- How many bytes of the character are missing after this one, if it was one of `missing`. -/
def missingAfter? (byte : Nat) : (missing : Nat) → Option Nat
  | 0           => bytesAfter? byte
  | missing + 1 => if 0x80 ≤ byte ∧ byte < 0xC0 then some missing else none

/-- The bytes of an identifier, and what follows it. -/
def spanUri (full : Bool) : (missing : Nat) → List Char → Option (List UInt8 × List Char)
  | missing, '%' :: high :: low :: cs => do
    let byte ← hexNumber? [high, low]
    let (bytes, rest) ← spanUri full (← missingAfter? byte missing) cs
    return (byte.toUInt8 :: bytes, rest)
  | missing, c :: cs =>
    if missing ≠ 0 ∨ c = '%' then none
    else if isUriChar full c then do
      let (bytes, rest) ← spanUri full 0 cs
      return (c.toNat.toUInt8 :: bytes, rest)
    else some ([], c :: cs)
  | missing, [] => if missing = 0 then some ([], []) else none

/-- The bytes before the first zero. -/
def upToZero (bytes : List UInt8) : List UInt8 := bytes.takeWhile (· ≠ 0)

/-- An identifier that is not left out. -/
def readUri? (full : Bool) (cs : List Char) : Option (List UInt8 × List Char) := do
  let (bytes, rest) ← spanUri full 0 cs
  if bytes.isEmpty then none else return (upToZero bytes, rest)

/-! ### Tags -/

/-- A tag. -/
inductive Tag
  | full (bytes : List UInt8)
  | short (handle : String) (suffix : List UInt8)
  deriving DecidableEq, Repr

/-- The handle `!`, alone. -/
def primaryHandle : String := "!"

/-- The tag behind its first `!`, and what follows it. A lone `!` is a tag in full. -/
def Tag.read? : List Char → Option (Tag × List Char)
  | '<' :: cs => do
    let (bytes, '>' :: rest) ← readUri? true cs | none
    return (.full bytes, rest)
  | cs => do
    let name := String.ofList (cs.takeWhile isNameChar)
    match cs.dropWhile isNameChar with
    | '!' :: rest =>
      let (suffix, rest) ← readUri? false rest
      return (.short ("!" ++ name ++ "!") suffix, rest)
    | rest =>
      let (bytes, rest) ← spanUri false 0 rest
      let suffix := upToZero (bytesOf name ++ bytes)
      return (if suffix.isEmpty then .full (bytesOf "!") else .short primaryHandle suffix, rest)

/-- What handles stand for. -/
abbrev Handles := List (String × List UInt8)

/-- The handles of every document, unless it gives them another meaning. -/
def Handles.standard : Handles :=
  [(primaryHandle, bytesOf "!"), ("!!", bytesOf "tag:yaml.org,2002:")]

/-- The bytes of a tag; its handle must stand for something. -/
def Tag.resolve? (handles : Handles) : Tag → Option (List UInt8)
  | .full bytes          => some bytes
  | .short handle suffix => (handles.lookup handle).map (· ++ suffix)

/-! ### Directives -/

/-- A directive. -/
inductive Directive
  | version
  | handle (name : String) (expansion : List UInt8)
  deriving DecidableEq, Repr

/-- A number of at most nine digits, and what follows it. -/
def readVersionPart? (cs : List Char) : Option (Nat × List Char) :=
  let (ds, rest) := Decimal.spanDigits cs
  if ds.isEmpty ∨ 9 < ds.length then none else some (Decimal.digitsValue ds, rest)

/-- A version, which must be 1.1 or 1.2. -/
def readVersion? (cs : List Char) : Option (Directive × List Char) := do
  let (major, '.' :: rest) ← readVersionPart? cs | none
  let (minor, rest) ← readVersionPart? rest
  if major = 1 ∧ (minor = 1 ∨ minor = 2) then return (.version, rest) else none

/-- A handle and what it is to stand for. -/
def readHandle? : List Char → Option (Directive × List Char)
  | '!' :: cs => do
    let (handle, rest) ← match String.ofList (cs.takeWhile isNameChar), cs.dropWhile isNameChar with
      | name, '!' :: rest => some ("!" ++ name ++ "!", rest)
      | "",   rest        => some (primaryHandle, rest)
      | _,    _           => none
    if !rest.head?.any isSpace then none
    else
      let (expansion, rest) ← readUri? true (rest.dropWhile isSpace)
      if endsWord rest then return (.handle handle expansion, rest) else none
  | _ => none

/-- The directive behind a `%`, and what follows it. -/
def Directive.read? (cs : List Char) : Option (Directive × List Char) :=
  let afterName := cs.dropWhile isNameChar
  if !endsWord afterName then none
  else
    match String.ofList (cs.takeWhile isNameChar) with
    | "YAML" => readVersion? (afterName.dropWhile isSpace)
    | "TAG"  => readHandle? (afterName.dropWhile isSpace)
    | _      => none

/-- The handles of a document with these directives. It has at most one version, and no handle gets
a meaning twice. -/
def Handles.ofDirectives? (ds : List Directive) : Option Handles :=
  let given := ds.filterMap fun
    | .handle name expansion => some (name, expansion)
    | .version               => none
  if ds.count .version ≤ 1 ∧ (given.map Prod.fst).Nodup then some (given ++ standard) else none

end Shelf.Yaml
