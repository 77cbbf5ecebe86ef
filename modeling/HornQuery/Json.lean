/-!
# JSON values

A value keeps what its written form shows and a decoder may have to judge: numbers keep their digits
and whether they are written as integers, objects keep their members in order with repeats, and a
string whose escapes leave half of a surrogate pair alone is a string without a text.
-/

namespace HornQuery

/-- A JSON number: `digits · 10 ^ exponent`, with a sign of its own so that minus zero is told apart. -/
structure Json.Number where
  /-- Whether a minus sign is written. -/
  negative : Bool
  /-- All digits, read as one numeral. -/
  digits : Nat
  /-- The power of ten to multiply with. -/
  exponent : Int
  /-- Whether it is written without a period and without an exponent. -/
  integral : Bool
deriving DecidableEq, Repr

/-- A JSON value. A string or member name is `none` if its escapes do not spell a text. -/
inductive Json where
  | null
  | bool (value : Bool)
  | number (value : Json.Number)
  | string (text : Option String)
  | array (items : List Json)
  | object (members : List (Option String × Json))
deriving Repr, Inhabited

namespace Json

/-! ### Building values -/

/-- The string `s`. -/
def text (s : String) : Json := .string (some s)

/-- The integer `n`. -/
def int (n : Int) : Json := .number ⟨decide (n < 0), n.natAbs, 0, true⟩

/-- The natural number `n`. -/
def nat (n : Nat) : Json := int n

/-- An array of strings. -/
def texts (items : List String) : Json := .array (items.map text)

/-- An object with the given members. -/
def record (members : List (String × Json)) : Json :=
  .object (members.map fun (key, value) ↦ (some key, value))

/-! ### Looking at values -/

/-- The integer a number is written as, if it is written as one. -/
def Number.toInt? (n : Number) : Option Int :=
  if n.integral then some (if n.negative then -n.digits else n.digits) else none

/-- The text of a string. -/
def asText? : Json → Option String
  | .string s => s
  | _ => none

/-- The items of an array. -/
def asArray? : Json → Option (List Json)
  | .array items => some items
  | _ => none

/-- The members of an object. -/
def asObject? : Json → Option (List (Option String × Json))
  | .object members => some members
  | _ => none

/-- The truth value of a boolean. -/
def asBool? : Json → Option Bool
  | .bool b => some b
  | _ => none

/-- The integer a number is written as. -/
def asInt? : Json → Option Int
  | .number n => n.toInt?
  | _ => none

/-- The natural number that an unsigned integer is written as. -/
def asNat? : Json → Option Nat
  | .number n => if n.integral && !n.negative then some n.digits else none
  | _ => none

/-- The last member of an object with the given name. -/
def get? (value : Json) (key : String) : Option Json := do
  let members ← value.asObject?
  (members.reverse.find? fun (k, _) ↦ k == some key).map (·.2)

end Json

end HornQuery
