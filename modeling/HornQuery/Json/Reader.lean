import HornQuery.Json

/-!
# Reading JSON

The grammar is the strict one: no comments, no trailing commas, no leading zeros, and only space, tab,
newline and carriage return between tokens. Readers take the text still to be read and return a value
with the text behind it. Values nest, so `value` takes a bound on the depth; the length of the text
plus one always suffices.
-/

namespace HornQuery.Json

/-- The characters that may stand between tokens. -/
def isSpace (c : Char) : Bool :=
  c == ' ' || c == '\t' || c == '\n' || c == '\r'

/-- The text behind all space at the start of a text. -/
def skipSpace (s : List Char) : List Char :=
  s.dropWhile isSpace

/-! ### Numbers -/

/-- The number that a list of decimal digits spells. -/
def digitsValue (digits : List Char) : Nat :=
  digits.foldl (fun n c ↦ 10 * n + (c.toNat - '0'.toNat)) 0

/-- One or more digits. -/
def digits (s : List Char) : Option (List Char × List Char) :=
  match s.takeWhile Char.isDigit with
  | [] => none
  | ds => some (ds, s.dropWhile Char.isDigit)

/-- The digits before the period: a single zero, or digits that start with another. -/
def whole (s : List Char) : Option (List Char × List Char) :=
  match s with
  | '0' :: r => some (['0'], r)
  | _ => digits s

/-- The digits behind a period; none if there is no period. -/
def fraction : List Char → Option (List Char × List Char)
  | '.' :: r => digits r
  | r => some ([], r)

/-- The exponent, with its sign; `none` inside the result if there is no exponent. -/
def exponent (s : List Char) : Option (Option Int × List Char) :=
  match s with
  | c :: r =>
    if c = 'e' || c = 'E' then
      match r with
      | '+' :: r => (digits r).map fun (ds, r) ↦ (some (digitsValue ds : Int), r)
      | '-' :: r => (digits r).map fun (ds, r) ↦ (some (-(digitsValue ds : Int)), r)
      | r => (digits r).map fun (ds, r) ↦ (some (digitsValue ds : Int), r)
    else some (none, s)
  | [] => some (none, s)

/-- A number behind its sign. -/
def unsigned (negative : Bool) (s : List Char) : Option (Number × List Char) := do
  let (front, r) ← whole s
  let (back, r) ← fraction r
  let (power, r) ← exponent r
  return ({ negative
            digits := digitsValue (front ++ back)
            exponent := power.getD 0 - back.length
            integral := back.isEmpty && power.isNone }, r)

/-- A number. -/
def signed : List Char → Option (Number × List Char)
  | '-' :: r => unsigned true r
  | r => unsigned false r

/-! ### Strings -/

/-- The value of a hexadecimal digit. -/
def hexDigit? (c : Char) : Option Nat :=
  if c.isDigit then some (c.toNat - '0'.toNat)
  else if 'a' ≤ c && c ≤ 'f' then some (c.toNat - 'a'.toNat + 10)
  else if 'A' ≤ c && c ≤ 'F' then some (c.toNat - 'A'.toNat + 10)
  else none

/-- The character that a letter behind a backslash stands for. -/
def escaped? : Char → Option Nat
  | '"' => some 0x22
  | '\\' => some 0x5C
  | '/' => some 0x2F
  | 'b' => some 0x08
  | 'f' => some 0x0C
  | 'n' => some 0x0A
  | 'r' => some 0x0D
  | 't' => some 0x09
  | _ => none

/-- The code points of a string behind its opening quote. Escapes may give surrogates. -/
def points : List Char → Option (List Nat × List Char)
  | [] => none
  | '"' :: r => some ([], r)
  | '\\' :: 'u' :: a :: b :: c :: d :: r => do
    let a ← hexDigit? a
    let b ← hexDigit? b
    let c ← hexDigit? c
    let d ← hexDigit? d
    let (more, r) ← points r
    return ((((a * 16 + b) * 16 + c) * 16 + d) :: more, r)
  | '\\' :: c :: r => do
    let p ← escaped? c
    let (more, r) ← points r
    return (p :: more, r)
  | c :: r =>
    if c.toNat < 0x20 || c = '\\' then none
    else do
      let (more, r) ← points r
      return (c.toNat :: more, r)

/-- The text spelled by code points in which a pair of surrogates, high then low, is one character.
There is none if a surrogate stands alone. -/
def spell : List Nat → Option (List Char)
  | [] => some []
  | [p] => if 0xD800 ≤ p && p < 0xE000 then none else some [Char.ofNat p]
  | p :: q :: r =>
    if 0xD800 ≤ p && p < 0xDC00 then
      if 0xDC00 ≤ q && q < 0xE000 then
        (spell r).map (Char.ofNat (0x10000 + (p - 0xD800) * 0x400 + (q - 0xDC00)) :: ·)
      else none
    else if 0xDC00 ≤ p && p < 0xE000 then none
    else (spell (q :: r)).map (Char.ofNat p :: ·)

/-- A string behind its opening quote. -/
def quoted (s : List Char) : Option (Option String × List Char) :=
  (points s).map fun (ps, r) ↦ ((spell ps).map String.ofList, r)

/-! ### Values -/

/-- The text behind `word`, if the text starts with it. -/
def keyword (word : List Char) (s : List Char) : Option (List Char) :=
  if word.isPrefixOf s then some (s.drop word.length) else none

/-- Items with commas between them up to `close`, at least one. -/
def sequence {α : Type} (item : List Char → Option (α × List Char)) (close : Char) :
    Nat → List Char → Option (List α × List Char)
  | 0, _ => none
  | bound + 1, s => do
    let (x, r) ← item s
    match skipSpace r with
    | c :: r =>
      if c = ',' then
        let (xs, r) ← sequence item close bound r
        return (x :: xs, r)
      else if c = close then return ([x], r)
      else none
    | [] => none

/-- Items with commas between them up to `close`, possibly none. -/
def sequence? {α : Type} (item : List Char → Option (α × List Char)) (close : Char) (bound : Nat)
    (s : List Char) : Option (List α × List Char) :=
  match skipSpace s with
  | c :: r => if c = close then some ([], r) else sequence item close bound s
  | [] => none

/-- A member of an object. -/
def member (value : List Char → Option (Json × List Char)) (s : List Char) :
    Option ((Option String × Json) × List Char) := do
  match skipSpace s with
  | '"' :: r =>
    let (key, r) ← quoted r
    match skipSpace r with
    | ':' :: r =>
      let (v, r) ← value r
      return ((key, v), r)
    | _ => none
  | _ => none

/-- A value that nests at most `depth` deep, with space before it. -/
def value : Nat → List Char → Option (Json × List Char)
  | 0, _ => none
  | depth + 1, s =>
    match skipSpace s with
    | [] => none
    | c :: r =>
      if c = '"' then (quoted r).map fun (t, r) ↦ (.string t, r)
      else if c = '[' then (sequence? (value depth) ']' r.length r).map fun (xs, r) ↦ (.array xs, r)
      else if c = '\x7b' then
        (sequence? (member (value depth)) '\x7d' r.length r).map fun (ms, r) ↦ (.object ms, r)
      else if c = 'n' then (keyword "null".toList (c :: r)).map fun r ↦ (.null, r)
      else if c = 't' then (keyword "true".toList (c :: r)).map fun r ↦ (.bool true, r)
      else if c = 'f' then (keyword "false".toList (c :: r)).map fun r ↦ (.bool false, r)
      else (signed (c :: r)).map fun (n, r) ↦ (.number n, r)

/-- The value that a whole text is written as. -/
def parse? (text : String) : Option Json := do
  let s := text.toList
  let (v, r) ← value (s.length + 1) s
  if (skipSpace r).isEmpty then some v else none

end HornQuery.Json
