import Shelf.Settings
import Shelf.Yaml.Node

/-!
Settings from YAML.

A block of settings is a map with scalar keys. Where a block or a list is left out, it is empty.
Any scalar is a text. A size is a plain scalar, or a literal block with the tag of integers: decimal
digits without leading zeros, or `0x`, `0o` and `0b` before digits of base 16, 8 and 2, behind a
plus or without one.

Aliases are followed where a setting is read, never in what is ignored. A few nodes full of aliases
may stand for very many, so the number of aliases that are followed has a limit.
-/

namespace Shelf.Yaml

/-- The value of a digit in a base up to sixteen. -/
def digitIn? (base : Nat) (c : Char) : Option Nat := (hexNumber? [c]).filter (· < base)

/-- A number of 64 bits in some base. -/
def readIn? (base : Nat) (cs : List Char) : Option Nat :=
  if cs.isEmpty then none
  else
    (cs.foldlM (fun n c => (digitIn? base c).map (base * n + ·)) 0).filter (· ≤ Decimal.maxSize)

/-- A size. -/
def readSize? (text : String) : Option Nat :=
  let cs := match text.toList with
    | '+' :: cs => cs
    | cs        => cs
  match cs with
  | '0' :: 'x' :: ds => readIn? 16 ds
  | '0' :: 'o' :: ds => readIn? 8 ds
  | '0' :: 'b' :: ds => readIn? 2 ds
  | '0' :: _ :: _    => none
  | ds               => readIn? 10 ds

/-! ### Aliases -/

/-- A step that follows aliases: it knows the anchored nodes, and how many aliases it may still
follow. -/
abbrev Following := ReaderT (List (Nat × Node)) (StateT Nat Option)

namespace Node

/-- The node that an alias stands for; any other node stands for itself. -/
def followed : Node → Following Node
  | .alias number => do
    match ← get, (← read).lookup number with
    | left + 1, some n => set left; return n
    | _, _             => failure
  | n => return n

/-- What a step reads from a document. Of anchored nodes with one number the one that starts last
counts, and the step may follow a hundred aliases for every unit of the document's size. -/
def readWith? {α : Type} (step : Node → Following α) (root : Node) : Option α :=
  ((step root).run root.anchored.reverse).run' (100 * root.size)

/-! ### Settings -/

/-- Whether the node is an empty plain scalar. -/
def isEmpty : Node → Bool
  | .scalar _ text style => style = .plain && text.isEmpty
  | _                    => false

/-- The text of a scalar. -/
def text (n : Node) : Following String := do
  match ← n.followed with
  | .scalar _ text _ => return text
  | _                => failure

/-- The entries of a map whose keys are scalars. -/
def entries (n : Node) : Following (List (String × Node)) := do
  match ← n.followed with
  | .map _ es => es.mapM fun e => do return (← e.1.text, e.2)
  | n         => if n.isEmpty then return [] else failure

/-- The items of a list. -/
def items (n : Node) : Following (List Node) := do
  match ← n.followed with
  | .list _ xs => return xs
  | n          => if n.isEmpty then return [] else failure

/-- The tag of integers. -/
def integerTag : List UInt8 := bytesOf "tag:yaml.org,2002:int"

/-- Whether a scalar may spell a number. -/
def maySpellNumber (p : Properties) : Style → Bool
  | .plain   => true
  | .literal => p.tag = some integerTag
  | .other   => false

/-- The number that a scalar spells. -/
def number (n : Node) : Following Nat := do
  match ← n.followed with
  | .scalar p text style =>
    match readSize? text with
    | some k => if maySpellNumber p style then return k else failure
    | none   => failure
  | _ => failure

end Node

instance : SettingSource Node Following where
  readBlock names n := do
    let known := (← n.entries).filter fun e => names.contains e.1
    if (known.map Prod.fst).Nodup then return known else failure
  readNamed n := n.entries
  readItems n := n.items
  readText n  := n.text
  readSize n  := n.number

end Shelf.Yaml

namespace Shelf.Settings

/-- The settings of a YAML document, checked. -/
def ofYaml (text : String) : Except SettingsError Settings :=
  match (Yaml.Node.ofText? text).bind (·.readWith? Settings.read) with
  | some s => s.check
  | none   => .error .malformed

end Shelf.Settings
