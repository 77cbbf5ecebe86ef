import HornQuery.Scan
import HornQuery.Schema

/-!
# Fragments and their SQL

A fragment is a scan together with what is asked of it: whether it has a combination at all, or the
rows of named columns.

In SQL a placeholder becomes a numbered parameter inside a lookup of the constant with that text. The
numbers follow the order in which placeholders are first met when the text is read from left to right
(`Fragment.order`), so a placeholder that occurs again has the same number.

The text and that order are defined apart from each other here, as they are used apart. Writing both at
once, with the numbers given while the text is written, is `Fragment.render`.
-/

namespace HornQuery

/-- What is asked of a scan. -/
inductive Shape where
  /-- Whether there is a combination. -/
  | existence
  /-- The rows of the columns with these names. -/
  | rows (columns : List String)
deriving DecidableEq, Repr

/-- A scan and what is asked of it. -/
structure Fragment where
  /-- The scan. -/
  scan : Scan
  /-- What is asked. -/
  shape : Shape

/-- SQL text with the placeholder behind each of its numbered parameters. -/
structure Rendered where
  /-- The text. -/
  sql : String
  /-- The placeholder of parameter `?1`, of `?2` and so on. -/
  params : List Placeholder
deriving DecidableEq, Repr

/-! ### Placeholders from left to right -/

mutual

/-- The placeholders of a condition in the order of its text. -/
def Condition.textual : Condition → List Placeholder
  | .eq left right => left.placeholders ++ right.placeholders
  | .exists scan => scan.textual

/-- The placeholders of the conditions of a scan in the order of their text. A nested scan is asked
for existence only, so that its projection is not written. -/
def Scan.textual : Scan → List Placeholder
  | ⟨_, conditions, _⟩ => Condition.textualOf conditions

/-- The placeholders of conditions in the order of their text. -/
def Condition.textualOf : List Condition → List Placeholder
  | [] => []
  | c :: cs => c.textual ++ Condition.textualOf cs

end

/-! ### Text -/

/-- An identifier in double quotes; a quote inside is doubled. -/
def quoteIdentifier (s : String) : String :=
  String.ofList ('"' :: s.toList.flatMap (fun c ↦ if c = '"' then ['"', '"'] else [c]) ++ ['"'])

/-- The SQL that looks up the constant whose text is the parameter with a number. -/
def lookupSql (number : Nat) : String :=
  s!"(SELECT id FROM {Schema.symbolTable} WHERE symbol = ?{number} AND arity = 0)"

/-- The SQL of an expression, with placeholders numbered by their place in `order`. -/
def Expr.sql (order : List Placeholder) : Expr → String
  | .column source field => s!"{source}.{field}"
  | .int value => toString value
  | .param key => lookupSql (order.idxOf key + 1)

/-- The SQL of a block that selects `columns`. -/
def blockSql (columns : String) (sources : List Source) (conditions : List String) : String :=
  let fromPart :=
    if sources.isEmpty then ""
    else " FROM " ++ ", ".intercalate (sources.map fun s ↦ s!"{s.table} AS {s.name}")
  let wherePart :=
    if conditions.isEmpty then "" else " WHERE " ++ " AND ".intercalate conditions
  "SELECT " ++ columns ++ fromPart ++ wherePart

mutual

/-- The SQL of a condition. -/
def Condition.sql (order : List Placeholder) : Condition → String
  | .eq left right => left.sql order ++ " = " ++ right.sql order
  | .exists scan => "EXISTS (" ++ scan.existsSql order ++ ")"

/-- The SQL of a scan of which only existence is asked. -/
def Scan.existsSql (order : List Placeholder) : Scan → String
  | ⟨sources, conditions, _⟩ => blockSql "1" sources (Condition.sqlOf order conditions)

/-- The SQL of conditions, one by one. -/
def Condition.sqlOf (order : List Placeholder) : List Condition → List String
  | [] => []
  | c :: cs => c.sql order :: Condition.sqlOf order cs

end

/-- The SQL of a scan with its projection. Without any projection it selects a constant. -/
def Scan.rowsSql (order : List Placeholder) (s : Scan) : String :=
  let columns :=
    if s.projection.isEmpty then "1"
    else ", ".intercalate (s.projection.map fun (label, e) ↦ e.sql order ++ " AS " ++ quoteIdentifier label)
  blockSql columns s.sources (Condition.sqlOf order s.conditions)

namespace Fragment

/-- Whether only existence is asked. -/
def isExistence (f : Fragment) : Bool :=
  match f.shape with
  | .existence => true
  | .rows _ => false

/-- The names of the columns asked for; none if only existence is asked. -/
def columns (f : Fragment) : List String :=
  match f.shape with
  | .existence => []
  | .rows columns => columns

/-- Every placeholder of the fragment, once. -/
def params (f : Fragment) : List Placeholder :=
  Distinct.ofList f.scan.placeholders

/-- The placeholders of the SQL text, in order of first appearance. -/
def order (f : Fragment) : List Placeholder :=
  match f.shape with
  | .existence => Distinct.ofList f.scan.textual
  | .rows _ =>
    Distinct.ofList (f.scan.projection.flatMap (fun (_, e) ↦ e.placeholders) ++ f.scan.textual)

/-- The SQL text of a fragment. -/
def sql (f : Fragment) : String :=
  match f.shape with
  | .existence => "SELECT EXISTS (" ++ f.scan.existsSql f.order ++ ") AS holds"
  | .rows _ =>
    "SELECT " ++ ", ".intercalate (f.scan.projection.map fun (label, _) ↦ quoteIdentifier label)
      ++ " FROM (" ++ f.scan.rowsSql f.order ++ ") AS scan"

end Fragment

/-! ### Text and numbers at once -/

/-- Write an expression, where placeholders have been met before. One that is met for the first time
gets the next number. -/
def Expr.write (met : List Placeholder) : Expr → String × List Placeholder
  | .column source field => (s!"{source}.{field}", met)
  | .int value => (toString value, met)
  | .param key =>
    let met := Distinct.insert met key
    (lookupSql (met.idxOf key + 1), met)

mutual

/-- Write a condition. -/
def Condition.write (met : List Placeholder) : Condition → String × List Placeholder
  | .eq left right =>
    let (leftSql, met) := left.write met
    let (rightSql, met) := right.write met
    (leftSql ++ " = " ++ rightSql, met)
  | .exists scan =>
    let (sql, met) := scan.writeExists met
    ("EXISTS (" ++ sql ++ ")", met)

/-- Write a scan of which only existence is asked. -/
def Scan.writeExists (met : List Placeholder) : Scan → String × List Placeholder
  | ⟨sources, conditions, _⟩ =>
    let (conditions, met) := Condition.writeAll met conditions
    (blockSql "1" sources conditions, met)

/-- Write conditions, one by one. -/
def Condition.writeAll (met : List Placeholder) : List Condition → List String × List Placeholder
  | [] => ([], met)
  | c :: cs =>
    let (sql, met) := c.write met
    let (more, met) := Condition.writeAll met cs
    (sql :: more, met)

end

/-- Write projected expressions with their labels, one by one. -/
def writeColumns (met : List Placeholder) : List (String × Expr) → List String × List Placeholder
  | [] => ([], met)
  | (label, e) :: rest =>
    let (sql, met) := e.write met
    let (more, met) := writeColumns met rest
    ((sql ++ " AS " ++ quoteIdentifier label) :: more, met)

/-- Write a scan with its projection. -/
def Scan.writeRows (met : List Placeholder) (s : Scan) : String × List Placeholder :=
  let (columns, met) := writeColumns met s.projection
  let (conditions, met) := Condition.writeAll met s.conditions
  (blockSql (if s.projection.isEmpty then "1" else ", ".intercalate columns) s.sources conditions, met)

/-- The SQL text with its parameters, written from left to right. -/
def Fragment.render (f : Fragment) : Rendered :=
  match f.shape with
  | .existence =>
    let (sql, met) := f.scan.writeExists []
    ⟨"SELECT EXISTS (" ++ sql ++ ") AS holds", met⟩
  | .rows _ =>
    let (sql, met) := f.scan.writeRows []
    ⟨"SELECT " ++ ", ".intercalate (f.scan.projection.map fun (label, _) ↦ quoteIdentifier label)
      ++ " FROM (" ++ sql ++ ") AS scan", met⟩

end HornQuery
