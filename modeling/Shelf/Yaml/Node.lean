import Shelf.Arrival
import Shelf.Yaml.Token

/-!
Nodes of YAML text.

A document is a tree of scalars, lists and maps. Where a node may be left out, it is an empty plain
scalar. A text holds at most one document, and without one it stands for an empty plain scalar too.

An alias stands for an anchored node, which may be one around the alias. Both carry a number, for a
name may be used again: an anchor's number says how many names there are before it, and an alias has
the number that its name has by then. Of the nodes with one number the last one counts.

    [&a x, &b y, &a z, *a, &c w]      the anchors are 0, 1, 2 and 2; the alias is 2 and stands for w
-/

namespace Shelf.Yaml

/-- What may stand before a node: the number of its anchor, and its tag. -/
structure Properties where
  anchor : Option Nat := none
  tag : Option (List UInt8) := none
  deriving DecidableEq

/-- A node. -/
inductive Node
  | alias (number : Nat)
  | scalar (properties : Properties) (text : String) (style : Style)
  | list (properties : Properties) (items : List Node)
  | map (properties : Properties) (entries : List (Node × Node))
  deriving Inhabited

namespace Node

/-- The node that stands for one left out. -/
def empty : Node := .scalar {} "" .plain

/-- A node under its number, if it has one. -/
def underAnchor (p : Properties) (n : Node) : List (Nat × Node) :=
  (p.anchor.map fun number => (number, n)).toList

mutual

/-- The anchored nodes in a node, in the order in which they start. -/
def anchored : Node → List (Nat × Node)
  | .alias _             => []
  | .scalar p text style => underAnchor p (.scalar p text style)
  | .list p xs           => underAnchor p (.list p xs) ++ anchoredItems xs
  | .map p es            => underAnchor p (.map p es) ++ anchoredEntries es

/-- The anchored nodes in the items of a list. -/
def anchoredItems : List Node → List (Nat × Node)
  | []      => []
  | x :: xs => x.anchored ++ anchoredItems xs

/-- The anchored nodes in the entries of a map. -/
def anchoredEntries : List (Node × Node) → List (Nat × Node)
  | []           => []
  | (k, v) :: es => k.anchored ++ v.anchored ++ anchoredEntries es

end

mutual

/-- The size of a node: one for a scalar or an alias, and two more than its parts for a list or a
map. -/
def size : Node → Nat
  | .alias _      => 1
  | .scalar _ _ _ => 1
  | .list _ xs    => itemsSize xs + 2
  | .map _ es     => entriesSize es + 2

/-- The size of some items. -/
def itemsSize : List Node → Nat
  | []      => 0
  | x :: xs => x.size + itemsSize xs

/-- The size of some entries. -/
def entriesSize : List (Node × Node) → Nat
  | []           => 0
  | (k, v) :: es => k.size + v.size + entriesSize es

end

end Node

/-- What is left of the tokens, the meaning of handles, and the names of anchors so far with the
numbers that they have. -/
structure Rest where
  tokens : List Token
  handles : Handles := .standard
  numbers : List (String × Nat) := []

/-- A step from tokens to nodes. -/
abbrev Reading := StateT Rest Option

namespace Reading

/-- The next token; none at the end. -/
def peek : Reading (Option Token) := do return (← get).tokens.head?

/-- Takes the next token. -/
def take : Reading Unit := modify fun r => { r with tokens := r.tokens.drop 1 }

/-- Takes the next token, which must be this one. -/
def expect (t : Token) : Reading Unit := do
  if (← peek) = some t then take else failure

/-- The number that a name has. -/
def numberOf (name : String) : Reading Nat := do
  match (← get).numbers.lookup name with
  | some number => return number
  | none        => failure

/-- The number of the anchor here, if there is one. -/
def anchor : Reading (Option Nat) := do
  match ← peek with
  | some (.anchor name) =>
    take
    let number := (← get).numbers.length
    modify fun r => { r with numbers := Arrival.put name number r.numbers }
    return some number
  | _ => return none

/-- The tag here, if there is one. -/
def tag : Reading (Option (List UInt8)) := do
  match ← peek with
  | some (.tag t) =>
    take
    match t.resolve? (← get).handles with
    | some bytes => return some bytes
    | none       => failure
  | _ => return none

/-- The properties before a node: at most one anchor and at most one tag, in either order. -/
def properties : Reading Properties := do
  let before ← anchor
  let tag ← tag
  let behind ← if before.isNone then anchor else pure none
  return ⟨before.or behind, tag⟩

/-- Whether the next token is one of these, or there is none. -/
def ahead (ts : List Token) : Reading Bool := do
  match ← peek with
  | some t => return ts.contains t
  | none   => return true

mutual

/-- A node. Only a node in a block may be a block itself, and only the value of a key may be a list
whose dashes are not indented. -/
def node (inBlock afterKey : Bool) : (fuel : Nat) → Reading Node
  | 0        => failure
  | fuel + 1 => do
    match ← peek with
    | some (.alias name) => take; return .alias (← numberOf name)
    | _ =>
      let p ← properties
      let leftOut : Reading Node := if p = {} then failure else return .scalar p "" .plain
      match ← peek with
      | some (.scalar text style) => take; return .scalar p text style
      | some .flowSequenceStart   => take; return .list p (← flowItems true fuel)
      | some .flowMappingStart    => take; return .map p (← flowEntries true fuel)
      | some .entry               =>
        if afterKey then return .list p (← plainItems fuel) else leftOut
      | some .sequenceStart       =>
        if inBlock then take; return .list p (← blockItems fuel) else leftOut
      | some .mappingStart        =>
        if inBlock then take; return .map p (← blockEntries fuel) else leftOut
      | _ => leftOut

/-- The node here, unless one of these tokens shows that it is left out. -/
def nodeUnless (ends : List Token) (inBlock afterKey : Bool) : (fuel : Nat) → Reading Node
  | 0        => failure
  | fuel + 1 => do
    if ← ahead ends then return .empty else node inBlock afterKey fuel

/-- The items of a block list. -/
def blockItems : (fuel : Nat) → Reading (List Node)
  | 0        => failure
  | fuel + 1 => do
    match ← peek with
    | some .entry =>
      take
      let n ← nodeUnless [.entry, .blockEnd] true false fuel
      return n :: (← blockItems fuel)
    | some .blockEnd => take; return []
    | _ => failure

/-- The items of a list whose dashes stand in the column of the key. -/
def plainItems : (fuel : Nat) → Reading (List Node)
  | 0        => failure
  | fuel + 1 => do
    match ← peek with
    | some .entry =>
      take
      let n ← nodeUnless [.entry, .key, .value, .blockEnd] true false fuel
      return n :: (← plainItems fuel)
    | _ => return []

/-- The value of a key in a block. -/
def blockValue : (fuel : Nat) → Reading Node
  | 0        => failure
  | fuel + 1 => do
    if (← peek) = some .value then
      take
      nodeUnless [.key, .value, .blockEnd] true true fuel
    else return .empty

/-- The entries of a block map. -/
def blockEntries : (fuel : Nat) → Reading (List (Node × Node))
  | 0        => failure
  | fuel + 1 => do
    match ← peek with
    | some .key =>
      take
      let k ← nodeUnless [.key, .value, .blockEnd] true true fuel
      let v ← blockValue fuel
      return (k, v) :: (← blockEntries fuel)
    | some .blockEnd => take; return []
    | _ => failure

/-- The value of a key in a flow collection that this token ends. -/
def flowValue (ending : Token) : (fuel : Nat) → Reading Node
  | 0        => failure
  | fuel + 1 => do
    if (← peek) = some .value then
      take
      nodeUnless [.comma, ending] false false fuel
    else return .empty

/-- The key behind the question mark of a lone pair. Where it is left out, the token that shows so
is taken too. -/
def loneKey : (fuel : Nat) → Reading Node
  | 0        => failure
  | fuel + 1 => do
    if ← ahead [.value, .comma, .flowSequenceEnd] then take; return .empty
    else node false false fuel

/-- The items of a flow list; a lone pair is a map of its own. -/
def flowItems (first : Bool) : (fuel : Nat) → Reading (List Node)
  | 0        => failure
  | fuel + 1 => do
    if (← peek) = some .flowSequenceEnd then take; return []
    else
      if !first then expect .comma
      match ← peek with
      | some .flowSequenceEnd => take; return []
      | some .key =>
        take
        let k ← loneKey fuel
        let v ← flowValue .flowSequenceEnd fuel
        return .map {} [(k, v)] :: (← flowItems false fuel)
      | _ =>
        let n ← node false false fuel
        return n :: (← flowItems false fuel)

/-- The entries of a flow map; a lone node is a key without a value. -/
def flowEntries (first : Bool) : (fuel : Nat) → Reading (List (Node × Node))
  | 0        => failure
  | fuel + 1 => do
    if (← peek) = some .flowMappingEnd then take; return []
    else
      if !first then expect .comma
      match ← peek with
      | some .flowMappingEnd => take; return []
      | some .key =>
        take
        let k ← nodeUnless [.value, .comma, .flowMappingEnd] false false fuel
        let v ← flowValue .flowMappingEnd fuel
        return (k, v) :: (← flowEntries false fuel)
      | _ =>
        let k ← node false false fuel
        return (k, .empty) :: (← flowEntries false fuel)

end

/-- Takes all directives. -/
def directives : (fuel : Nat) → Reading (List Directive)
  | 0        => failure
  | fuel + 1 => do
    match ← peek with
    | some (.directive d) => take; return d :: (← directives fuel)
    | _ => return []

/-- Takes the marks of the document's end. -/
def documentEnds : (fuel : Nat) → Reading Unit
  | 0        => failure
  | fuel + 1 => do
    if (← peek) = some .documentEnd then
      take
      documentEnds fuel

/-- The only document. Behind directives its start has to be marked. -/
def document (fuel : Nat) : Reading Node := do
  let some _ ← peek | return .empty
  let ds ← directives fuel
  match Handles.ofDirectives? ds with
  | some handles => modify fun r => { r with handles }
  | none         => failure
  let n ←
    if (← peek) = some .documentStart then do
      take
      nodeUnless [.documentStart, .documentEnd] true false fuel
    else if ds.isEmpty then node true false fuel
    else failure
  documentEnds fuel
  match ← peek with
  | none   => return n
  | some _ => failure

end Reading

/-- The tree that a text holds. -/
def Node.ofText? (text : String) : Option Node := do
  let tokens ← tokens? text
  let (n, _) ← (Reading.document (4 * tokens.length + 8)).run { tokens }
  return n

end Shelf.Yaml
