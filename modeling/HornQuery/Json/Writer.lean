import HornQuery.Json

/-!
# Writing JSON

`compact` writes a value on one line without space; `pretty` indents nested values by two columns and
puts each item and member on a line of its own, with `[]` and an empty pair of braces for what is
empty. Both escape the quote, the backslash and the control characters below the space, and leave
every other character as it is.
-/

namespace HornQuery.Json

/-- The hexadecimal digit for a number below 16. -/
def hexChar (n : Nat) : Char :=
  if n < 10 then Char.ofNat ('0'.toNat + n) else Char.ofNat ('a'.toNat + (n - 10))

/-- The form of a character inside a string. -/
def escape (c : Char) : List Char :=
  if c = '"' then ['\\', '"']
  else if c = '\\' then ['\\', '\\']
  else if c.toNat = 0x08 then ['\\', 'b']
  else if c.toNat = 0x0C then ['\\', 'f']
  else if c = '\n' then ['\\', 'n']
  else if c = '\r' then ['\\', 'r']
  else if c = '\t' then ['\\', 't']
  else if c.toNat < 0x20 then ['\\', 'u', '0', '0', hexChar (c.toNat / 16), hexChar (c.toNat % 16)]
  else [c]

/-- A string in quotes. -/
def quote (s : String) : String :=
  String.ofList ('"' :: s.toList.flatMap escape ++ ['"'])

/-- A number; one that is not integral is written with an exponent. -/
def Number.display (n : Number) : String :=
  let sign := if n.negative then "-" else ""
  if n.integral then s!"{sign}{n.digits}" else s!"{sign}{n.digits}e{n.exponent}"

/-- A string or member name. One without a text is written as the empty string. -/
def quoteText (s : Option String) : String :=
  quote (s.getD "")

mutual

/-- A value on one line. -/
def compact : Json → String
  | .null => "null"
  | .bool b => if b then "true" else "false"
  | .number n => n.display
  | .string s => quoteText s
  | .array items => "[" ++ ",".intercalate (compactItems items) ++ "]"
  | .object members => "\x7b" ++ ",".intercalate (compactMembers members) ++ "\x7d"

/-- The items of an array, each on one line. -/
def compactItems : List Json → List String
  | [] => []
  | x :: xs => compact x :: compactItems xs

/-- The members of an object, each on one line. -/
def compactMembers : List (Option String × Json) → List String
  | [] => []
  | (key, x) :: xs => (quoteText key ++ ":" ++ compact x) :: compactMembers xs

end

/-- A new line with `depth` steps of two columns. -/
def newline (depth : Nat) : String :=
  String.ofList ('\n' :: List.replicate (2 * depth) ' ')

/-- Parts on lines of their own between two brackets at the given depth. -/
def bracket (opening closing : String) (depth : Nat) (parts : List String) : String :=
  if parts.isEmpty then opening ++ closing
  else opening ++ ",".intercalate (parts.map (newline (depth + 1) ++ ·)) ++ newline depth ++ closing

mutual

/-- A value over several lines, as part of a value that nests `depth` deep. -/
def prettyAt (depth : Nat) : Json → String
  | .null => "null"
  | .bool b => if b then "true" else "false"
  | .number n => n.display
  | .string s => quoteText s
  | .array items => bracket "[" "]" depth (prettyItems (depth + 1) items)
  | .object members => bracket "\x7b" "\x7d" depth (prettyMembers (depth + 1) members)

/-- The items of an array at the given depth. -/
def prettyItems (depth : Nat) : List Json → List String
  | [] => []
  | x :: xs => prettyAt depth x :: prettyItems depth xs

/-- The members of an object at the given depth. -/
def prettyMembers (depth : Nat) : List (Option String × Json) → List String
  | [] => []
  | (key, x) :: xs => (quoteText key ++ ": " ++ prettyAt depth x) :: prettyMembers depth xs

end

/-- A value over several lines. -/
def pretty (v : Json) : String :=
  prettyAt 0 v

end HornQuery.Json
