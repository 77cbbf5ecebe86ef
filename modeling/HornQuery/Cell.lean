import HornQuery.Decimal.Shortest
import HornQuery.Json

/-!
# Cells and tables

A cell is one value of a row. Two cells are equal in a condition only if both are present: nothing
equals a missing value, not even another one.
-/

namespace HornQuery

/-- One value of a row. -/
inductive Cell where
  /-- A missing value. -/
  | null
  /-- An integer. -/
  | integer (value : Int)
  /-- A binary floating point number. -/
  | real (value : Float)
  /-- A text. -/
  | text (value : String)
deriving Repr, Inhabited

namespace Cell

/-- Whether a condition `a = b` is true. -/
def equals : Cell → Cell → Bool
  | .integer a, .integer b => a = b
  | .real a, .real b => a == b
  | .text a, .text b => a = b
  | _, _ => false

/-- Whether a cell counts as true. -/
def isTruthy : Cell → Bool
  | .null => false
  | .integer n => n ≠ 0
  | .real x => !(x == 0)
  | .text s => !s.isEmpty && s ≠ "0"

/-- The text of a cell. -/
def display : Cell → String
  | .null => "NULL"
  | .integer n => toString n
  | .real x => Decimal.display x
  | .text s => s

/-- Whether an integer fits into 64 bits. -/
def isInt64 (i : Int) : Bool :=
  -0x8000000000000000 ≤ i && i < 0x8000000000000000

/-- The cell that a JSON value gives. An integer that does not fit into 64 bits is read as a real, as
is minus zero; booleans, arrays and objects are no cells. -/
def ofJson? : Json → Option Cell
  | .null => some .null
  | .string s => s.map .text
  | .number n =>
    match n.toInt? with
    | some i =>
      if isInt64 i && !(n.negative && i = 0) then some (.integer i)
      else some (.real (toFloat n))
    | none => some (.real (toFloat n))
  | _ => none
where
  /-- The double nearest to a written number. A number below `10 ^ (-399)` is nearest to zero, and
  its power of ten is never formed. -/
  toFloat (n : Json.Number) : Float :=
    let size :=
      if n.digits = 0 || n.exponent < -(400 + (n.digits.log2 : Int)) then 0
      else Float.ofScientific n.digits (n.exponent < 0) n.exponent.natAbs
    if n.negative then -size else size

/-- The JSON value of a cell. -/
def toJson : Cell → Json
  | .null => .null
  | .integer n => .int n
  | .real x =>
    let (negative, d) := Decimal.ofFloat x
    .number ⟨negative, d.digits, d.exponent, false⟩
  | .text s => .text s

/-- The cell that a table keeps of a cell: an integer loses all but its last 64 bits, the first of
which is the sign. -/
def kept : Cell → Cell
  | .integer n => .integer (n.bmod 0x10000000000000000)
  | c => c

@[simp] theorem equals_null_left (c : Cell) : equals .null c = false := by
  cases c <;> rfl

@[simp] theorem equals_null_right (c : Cell) : equals c .null = false := by
  cases c <;> rfl

@[simp] theorem equals_integer (a b : Int) : equals (.integer a) (.integer b) = decide (a = b) := rfl

@[simp] theorem equals_text (a b : String) : equals (.text a) (.text b) = decide (a = b) := rfl

end Cell

/-- Rows under named columns: a stored table, or the result of a query. -/
structure Table where
  /-- The names of the columns. -/
  columns : List String
  /-- The rows, each with a cell per column. -/
  rows : List (List Cell)
deriving Repr, Inhabited

/-- A table with its cells as they are kept. -/
def Table.kept (t : Table) : Table :=
  { t with rows := t.rows.map fun row ↦ row.map Cell.kept }

end HornQuery
