/-!
JSON values.

A number is an integer or a floating-point number, and the two never compare equal: `1` is not
`1.0`. Floating-point numbers compare by value, so `0.0` is `-0.0`. An object lists its members in
the order of their names, compared by code points, and holds each name once; `Fields.Sorted` says
so, and reading, inserting and erasing keep it.
-/

namespace Shelf

/-- A JSON number. Integers lie in `-2^63 … 2^64 - 1` and floating-point numbers are finite. -/
inductive Number
  | int (n : Int)
  | real (x : Float)
  deriving Inhabited, Repr

/-- Equal in kind and in value. -/
def Number.beq : Number → Number → Bool
  | .int a,  .int b  => a == b
  | .real a, .real b => a == b
  | _,       _       => false

/-- The nearest floating-point number. -/
def Number.toFloat : Number → Float
  | .int n  => Float.ofInt n
  | .real x => x

/-- A JSON value. -/
inductive Json
  | null
  | bool (b : Bool)
  | number (n : Number)
  | string (s : String)
  | array (items : List Json)
  | object (members : List (String × Json))
  deriving Inhabited, Repr

/-- The members of an object. -/
abbrev Fields := List (String × Json)

mutual

/-- Equality of values. -/
def Json.beq : Json → Json → Bool
  | .null,     .null     => true
  | .bool a,   .bool b   => a == b
  | .number a, .number b => a.beq b
  | .string a, .string b => a == b
  | .array a,  .array b  => Json.beqItems a b
  | .object a, .object b => Json.beqMembers a b
  | _,         _         => false

/-- Equality of lists of values. -/
def Json.beqItems : List Json → List Json → Bool
  | [],      []      => true
  | a :: as, b :: bs => a.beq b && Json.beqItems as bs
  | _,       _       => false

/-- Equality of lists of members. -/
def Json.beqMembers : List (String × Json) → List (String × Json) → Bool
  | [],           []           => true
  | (k, a) :: as, (l, b) :: bs => k == l && a.beq b && Json.beqMembers as bs
  | _,            _            => false

end

instance : BEq Json := ⟨Json.beq⟩

/-- An integer. -/
def Json.int (n : Int) : Json := .number (.int n)

/-- A floating-point number; what is not finite has no place in JSON and becomes null. -/
def Json.real (x : Float) : Json := if x.isFinite then .number (.real x) else .null

/-! ### Members of an object -/

namespace Fields

/-- Every name comes before the next one. -/
def Sorted (fs : Fields) : Prop := fs.Pairwise fun a b => a.1 < b.1

/-- The value under a name. -/
def get? (fs : Fields) (name : String) : Option Json := fs.lookup name

/-- Writes a member at its place in the order. -/
def insert (name : String) (value : Json) : Fields → Fields
  | []             => [(name, value)]
  | (n, v) :: rest =>
    if name = n then (n, value) :: rest
    else if name < n then (name, value) :: (n, v) :: rest
    else (n, v) :: insert name value rest

/-- Drops a member. -/
def erase (fs : Fields) (name : String) : Fields := fs.filter (·.1 ≠ name)

/-- Writes the members of one object over another. -/
def override (fs new : Fields) : Fields := new.foldl (fun fs m => fs.insert m.1 m.2) fs

/-- The members in order, the last of equal names winning. -/
def ofList (members : List (String × Json)) : Fields := override [] members

/-- Whether an object carries every one of these members. -/
def carries (fs criteria : Fields) : Bool :=
  criteria.all fun m => match fs.get? m.1 with
    | some v => v == m.2
    | none   => false

end Fields

namespace Json

/-- The members, if the value is an object. -/
def members? : Json → Option Fields
  | .object ms => some ms
  | _          => none

/-- The items, if the value is an array. -/
def items? : Json → Option (List Json)
  | .array xs => some xs
  | _         => none

/-- The text, if the value is a string. -/
def string? : Json → Option String
  | .string s => some s
  | _         => none

/-- The value as a floating-point number, if it is a number. -/
def float? : Json → Option Float
  | .number n => some n.toFloat
  | _         => none

/-- The value as a natural number, if it is an integer and not negative. -/
def nat? : Json → Option Nat
  | .number (.int (.ofNat n)) => some n
  | _                         => none

/-- A member of an object; any other value has none. -/
def member? (v : Json) (name : String) : Option Json := v.members?.bind (·.get? name)

/-- Whether the value is an object that carries these members. -/
def carries (v : Json) (criteria : Fields) : Bool :=
  match v with
  | .object ms => Fields.carries ms criteria
  | _          => false

end Json

/-! ### Reading back what was written -/

namespace Fields

theorem get?_insert_self (name : String) (value : Json) (fs : Fields) :
    (fs.insert name value).get? name = some value := by
  induction fs with
  | nil => simp [insert, get?]
  | cons m fs ih =>
    obtain ⟨n, v⟩ := m
    simp only [insert]
    split
    · next h => simp [get?, h]
    · split
      · simp [get?]
      · next h _ =>
        simp only [get?, List.lookup_cons, beq_eq_false_iff_ne.2 h]
        exact ih

theorem get?_insert_of_ne {name other : String} (h : other ≠ name) (value : Json) (fs : Fields) :
    (fs.insert name value).get? other = fs.get? other := by
  induction fs with
  | nil => simp [insert, get?, List.lookup_cons, beq_eq_false_iff_ne.2 h]
  | cons m fs ih =>
    obtain ⟨n, v⟩ := m
    simp only [insert]
    split
    · next hn =>
      subst hn
      simp [get?, List.lookup_cons, beq_eq_false_iff_ne.2 h]
    · split
      · simp [get?, List.lookup_cons, beq_eq_false_iff_ne.2 h]
      · simp only [get?, List.lookup_cons] at ih ⊢
        split <;> simp_all

end Fields

end Shelf
