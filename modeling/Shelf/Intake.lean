import Shelf.Service
import Shelf.Settings

/-!
Cart lines and ratings as clients send them.

Each is an object; members of other names are ignored. A number is an integer without point or
exponent and has to fit its width, and an identifier may have any of its spellings.
-/

namespace Shelf

open SettingSource

/-- An identifier in a text. -/
def Json.uuid? (v : Json) : Option Uuid := v.string?.bind Uuid.ofText?

/-- An integer up to `largest`, not negative. -/
def Json.upTo? (largest : Nat) (v : Json) : Option Nat := v.nat?.filter (· ≤ largest)

/-- A text, or nothing in its place. -/
def Json.optionalText? : Json → Option (Option String)
  | .null     => some none
  | .string s => some (some s)
  | _         => none

/-- A line for a shopping cart. -/
def CartLine.ofJson? (v : Json) : Option CartLine := do
  let block ← readBlock ["product", "color", "quantity"] v
  return {
    product := ← (← block.lookup "product").uuid?
    color := ← (← block.lookup "color").string?
    quantity := ← (← block.lookup "quantity").upTo? 0xFFFFFFFF }

/-- A rating; its comment may be absent or null. -/
def Rating.ofJson? (v : Json) : Option Rating := do
  let block ← readBlock ["postedBy", "star", "comment"] v
  return {
    postedBy := ← (← block.lookup "postedBy").uuid?
    star := ← (← block.lookup "star").upTo? 0xFF
    comment := ← settingOr block "comment" none Json.optionalText? }

end Shelf
