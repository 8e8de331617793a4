/-!
Plain tokens: dotted identifiers.

A token is plain when it is one or more identifiers joined by single dots, an identifier being an
ASCII letter or underscore and then any number of ASCII letters, digits and underscores. No sigil,
bracket, blank or line break gets through, so a plain token is never read as storage syntax.

              letter _            letter digit _ ↺
    start ──────────────▶ inside ──────────────────
      ▲                      │ dot
      └──────────────────────┘          anything else ──▶ refused
-/

namespace Shelf.Text

/-- ASCII letters and the underscore. -/
def isTokenLead (c : Char) : Bool :=
  ('A' ≤ c && c ≤ 'Z') || ('a' ≤ c && c ≤ 'z') || c == '_'

/-- What may follow the first character of an identifier. -/
def isTokenBody (c : Char) : Bool := isTokenLead c || ('0' ≤ c && c ≤ '9')

/-- Where a scan of a token stands. -/
inductive TokenScan where | start | inside | refused
  deriving DecidableEq

/-- The scan moves on by one character. -/
def TokenScan.step : TokenScan → Char → TokenScan
  | .start,   c => if isTokenLead c then .inside else .refused
  | .inside,  c => if isTokenBody c then .inside else if c = '.' then .start else .refused
  | .refused, _ => .refused

/-- A token is plain when its scan ends inside an identifier. -/
def isPlainToken (token : String) : Bool :=
  decide (token.toList.foldl TokenScan.step .start = .inside)

/-! ### The scan never comes back from a refusal -/

theorem foldl_step_refused : ∀ cs : List Char, cs.foldl TokenScan.step .refused = .refused
  | []      => rfl
  | _ :: cs => by rw [List.foldl_cons, TokenScan.step]; exact foldl_step_refused cs

end Shelf.Text
