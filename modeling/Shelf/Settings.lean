import Shelf.Arrival
import Shelf.Collection
import Shelf.Decimal.Integer
import Shelf.Text.Blank

/-!
Settings: page sizes and collections by name.

Page sizes are at least one, the default one is at most the largest one, and each collection stands
under its own name. Settings come from a document, and variables of the environment may replace the
page sizes; both are checked.
-/

namespace Shelf

/-- Page sizes for all collections, and the collections. -/
structure Settings where
  paging : Paging := {}
  collections : List (String × Collection) := []
  deriving DecidableEq

/-- Why settings are refused. -/
inductive SettingsError
  | unreadable (path : String)
  | malformed
  | sizeBelowOne
  | defaultAboveLargest (default largest : Nat)
  | misnamed (key name : String)
  | badDefaultSize (raw : String) (fault : Decimal.SizeFault)
  | badLargestSize (raw : String) (fault : Decimal.SizeFault)
  deriving DecidableEq

/-- What is said about refused settings. -/
def SettingsError.message : SettingsError → String
  | .unreadable path => "Failed to read config file " ++ inQuotes path
  | .malformed       => "malformed document"
  | .sizeBelowOne    => "page sizes must be at least 1"
  | .defaultAboveLargest default largest =>
    "default_limit (" ++ intText default ++ ") exceeds max_limit (" ++ intText largest ++ ")"
  | .misnamed key name =>
    "collection key " ++ inQuotes key ++ " does not match its name " ++ inQuotes name
  | .badDefaultSize raw fault =>
    "Invalid default page size " ++ inQuotes raw ++ ": " ++ fault.message
  | .badLargestSize raw fault =>
    "Invalid maximum page size " ++ inQuotes raw ++ ": " ++ fault.message

namespace Settings

/-- The settings used without a document. -/
def standard : Settings where
  collections := [Collection.products, Collection.blogs].map fun c => (c.name, c)

/-- The collection of a name. -/
def collection? (s : Settings) (name : String) : Option Collection := s.collections.lookup name

/-- Refuses settings that contradict themselves. -/
def check (s : Settings) : Except SettingsError Settings :=
  if s.paging.defaultLimit = 0 ∨ s.paging.maxLimit = 0 then .error .sizeBelowOne
  else if s.paging.maxLimit < s.paging.defaultLimit then
    .error (.defaultAboveLargest s.paging.defaultLimit s.paging.maxLimit)
  else
    match s.collections.find? fun e => e.1 ≠ e.2.name with
    | some (key, c) => .error (.misnamed key c.name)
    | none          => .ok s

/-! ### The environment -/

/-- Variables and their values. -/
abbrev Environment := List (String × String)

/-- The variable for the default page size. -/
def defaultLimitVariable : String := "CATALOG_DEFAULT_LIMIT"

/-- The older variable for the default page size, used when the other one is absent. -/
def olderLimitVariable : String := "LIMIT_PRODUCTS"

/-- The variable for the largest page size. -/
def maxLimitVariable : String := "CATALOG_MAX_LIMIT"

/-- The size that a variable gives, or the one without. -/
def sizeOr (without : Nat) (fault : String → Decimal.SizeFault → SettingsError) :
    Option String → Except SettingsError Nat
  | none     => .ok without
  | some raw => (Decimal.readSize (Text.trim raw.toList)).mapError (fault raw)

/-- The settings with the page sizes that the environment gives. -/
def withEnvironment (s : Settings) (env : Environment) : Except SettingsError Settings := do
  let defaultRaw := (env.lookup defaultLimitVariable).or (env.lookup olderLimitVariable)
  let defaultLimit ← sizeOr s.paging.defaultLimit .badDefaultSize defaultRaw
  let maxLimit ← sizeOr s.paging.maxLimit .badLargestSize (env.lookup maxLimitVariable)
  check { s with paging := ⟨defaultLimit, maxLimit⟩ }

end Settings

/-! ### Reading settings -/

/-- Values that settings can be read from, by steps that may fail. -/
class SettingSource (ν : Type) (m : outParam (Type → Type)) where
  /-- The values of a block with these settings. Other settings are ignored, and one that comes
  twice spoils the block. -/
  readBlock : (names : List String) → ν → m (List (String × ν))
  /-- The values of a block with names of any kind. -/
  readNamed : ν → m (List (String × ν))
  /-- The items of a list. -/
  readItems : ν → m (List ν)
  /-- A text. -/
  readText : ν → m String
  /-- An integer of 64 bits, not negative. -/
  readSize : ν → m Nat

open SettingSource

variable {ν : Type} {m : Type → Type} [Monad m]

/-- The setting of a name, or its default. -/
def settingOr {α : Type} (block : List (String × ν)) (name : String) (default : α)
    (read : ν → m α) : m α :=
  match block.lookup name with
  | some v => read v
  | none   => return default

variable [SettingSource ν m]

/-- A list of texts. -/
def readTexts (v : ν) : m (List String) := do (← readItems v).mapM readText

/-- The settings of a collection; its name is required. -/
def Collection.read [MonadExcept Unit m] (v : ν) : m Collection := do
  let block ← readBlock ["name", "filterable_fields", "sortable_fields", "text_search_fields",
    "reserved_field"] v
  let some name := block.lookup "name" | throw ()
  let name ← readText name
  let standard := Collection.named name
  return {
    name
    filterable := ← settingOr block "filterable_fields" standard.filterable readTexts
    sortable := ← settingOr block "sortable_fields" standard.sortable readTexts
    textSearch := ← settingOr block "text_search_fields" standard.textSearch readTexts
    reserved := ← settingOr block "reserved_field" standard.reserved readText }

/-- Page sizes. -/
def Paging.read (v : ν) : m Paging := do
  let block ← readBlock ["default_limit", "max_limit"] v
  let standard : Paging := {}
  return {
    defaultLimit := ← settingOr block "default_limit" standard.defaultLimit readSize
    maxLimit := ← settingOr block "max_limit" standard.maxLimit readSize }

/-- Collections by name; of equal names the last one counts. -/
def readCollections [MonadExcept Unit m] (v : ν) : m (List (String × Collection)) := do
  let cs ← (← readNamed v).mapM fun e => do return (e.1, ← Collection.read e.2)
  return cs.foldl (fun row e => Arrival.put e.1 e.2 row) []

/-- All settings, not checked yet. -/
def Settings.read [MonadExcept Unit m] (v : ν) : m Settings := do
  let block ← readBlock ["paging", "collections"] v
  return {
    paging := ← settingOr block "paging" {} Paging.read
    collections := ← settingOr block "collections" [] readCollections }

/-! ### JSON -/

/-- A block is an object, or a list with the settings in their order. -/
instance : SettingSource Json Option where
  readBlock names
    | .object ms => some ms
    | .array xs  => if xs.length ≤ names.length then some (names.zip xs) else none
    | _          => none
  readNamed v := v.members?
  readItems v := v.items?
  readText v  := v.string?
  readSize v  := v.nat?

/-- A collection as JSON. -/
def Collection.toJson (c : Collection) : Json :=
  let texts (xs : List String) : Json := .array (xs.map .string)
  .object [("filterable_fields", texts c.filterable), ("name", .string c.name),
    ("reserved_field", .string c.reserved), ("sortable_fields", texts c.sortable),
    ("text_search_fields", texts c.textSearch)]

/-- Page sizes as JSON. -/
def Paging.toJson (p : Paging) : Json :=
  .object [("default_limit", .int p.defaultLimit), ("max_limit", .int p.maxLimit)]

/-- All settings as JSON. -/
def Settings.toJson (s : Settings) : Json :=
  .object [("collections", .object (Fields.ofList (s.collections.map fun e => (e.1, e.2.toJson)))),
    ("paging", s.paging.toJson)]

end Shelf
