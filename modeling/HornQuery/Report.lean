import HornQuery.Config
import HornQuery.Json.Writer

/-!
# Reports

A report says how many symbols and facts a program has, what became of each rule, and the answer to
each query. As text it is a block of lines per query; as JSON it is one object.
-/

namespace HornQuery

/-- What became of a rule. -/
inductive RuleOutcome where
  /-- It was compiled in this pass. -/
  | compiled (pass : Nat)
  /-- It cannot be compiled. -/
  | failed (reason : String)
deriving DecidableEq, Repr

/-- A rule and what became of it. -/
structure RuleReport where
  /-- The rule, written `name/arity`. -/
  rule : String
  /-- What became of it. -/
  outcome : RuleOutcome
deriving DecidableEq, Repr

/-- What became of all rules. -/
structure ResolutionReport where
  /-- The number of passes over the rules. -/
  passes : Nat := 0
  /-- The rules in order of declaration. -/
  rules : List RuleReport := []
deriving DecidableEq, Repr

namespace ResolutionReport

/-- The number of rules that were compiled. -/
def compiled (r : ResolutionReport) : Nat :=
  r.rules.countP fun rule ↦ match rule.outcome with
    | .compiled _ => true
    | .failed _ => false

/-- The number of rules that were not. -/
def failed (r : ResolutionReport) : Nat :=
  r.rules.length - r.compiled

end ResolutionReport

/-- The answer to a query. -/
inductive Answer where
  /-- What was asked holds. -/
  | yes
  /-- What was asked does not hold. -/
  | no
  /-- The values of the variables, a row per solution. -/
  | rows (columns : List String) (rows : List (List String))
  /-- The query could not be answered. -/
  | error (message : String)
deriving DecidableEq, Repr

/-- A query and its answer. -/
structure Outcome where
  /-- The text of the query. -/
  query : String
  /-- The SQL it was compiled to, if that is to be shown. -/
  sql : Option String := none
  /-- The answer. -/
  answer : Answer
deriving DecidableEq, Repr

/-- Everything a run finds out. -/
structure Report where
  /-- The number of symbols. -/
  symbols : Nat := 0
  /-- The number of facts, with repeats. -/
  facts : Nat := 0
  /-- What became of the rules. -/
  resolution : ResolutionReport := {}
  /-- The queries and their answers, in source order. -/
  queries : List Outcome := []
deriving DecidableEq, Repr

/-! ### Order of rows -/

/-- Whether a row comes no later than another: they are compared cell by cell. -/
def rowLe : List String → List String → Bool
  | [], _ => true
  | _ :: _, [] => false
  | a :: as, b :: bs => if a < b then true else if b < a then false else rowLe as bs

/-- The answer with its rows sorted. -/
def Answer.sorted : Answer → Answer
  | .rows columns found => .rows columns (found.mergeSort rowLe)
  | a => a

/-- The report with the rows of each answer sorted. -/
def Report.sorted (r : Report) : Report :=
  { r with queries := r.queries.map fun o ↦ { o with answer := o.answer.sorted } }

/-! ### As text -/

/-- A line that starts with a percent sign and a space. -/
def resultLine (s : String) : String :=
  "% " ++ s ++ "\n"

/-- The line of a row: each column with its value. -/
def rowLine (columns row : List String) : String :=
  resultLine (", ".intercalate ((columns.zip row).map fun (column, value) ↦ s!"{column} = {value}"))

/-- The lines of an answer. -/
def Answer.text : Answer → String
  | .yes => resultLine "yes"
  | .no => resultLine "no"
  | .rows columns found =>
    if found.isEmpty then resultLine "no" else String.join (found.map (rowLine columns))
  | .error message => resultLine s!"error: {message}"

/-- The lines of a query: the query itself, its SQL if shown, and the answer. -/
def Outcome.text (o : Outcome) : String :=
  s!"?- {o.query}.\n" ++ (o.sql.map fun sql ↦ resultLine s!"sql: {sql}").getD "" ++ o.answer.text

/-- A report as text: the lines of each query. -/
def Report.text (r : Report) : String :=
  String.join (r.queries.map Outcome.text)

/-! ### As JSON -/

/-- A rule and what became of it. -/
def RuleReport.toJson (r : RuleReport) : Json :=
  .record <| ("rule", .text r.rule) :: match r.outcome with
    | .compiled pass => [("status", .text "compiled"), ("pass", .nat pass)]
    | .failed reason => [("status", .text "failed"), ("reason", .text reason)]

/-- What became of all rules. -/
def ResolutionReport.toJson (r : ResolutionReport) : Json :=
  .record [("passes", .nat r.passes), ("rules", .array (r.rules.map RuleReport.toJson))]

/-- The members that describe an answer. -/
def Answer.members : Answer → List (String × Json)
  | .yes => [("answer", .text "yes")]
  | .no => [("answer", .text "no")]
  | .rows columns found =>
    [("answer", .text "rows"), ("columns", .texts columns), ("rows", .array (found.map .texts))]
  | .error message => [("answer", .text "error"), ("message", .text message)]

/-- A query and its answer. -/
def Outcome.toJson (o : Outcome) : Json :=
  .record <| ("query", .text o.query) :: (o.sql.toList.map fun sql ↦ ("sql", .text sql))
    ++ o.answer.members

/-- A report as a JSON value. -/
def Report.toJson (r : Report) : Json :=
  .record [("symbols", .nat r.symbols), ("facts", .nat r.facts),
    ("resolution", r.resolution.toJson), ("queries", .array (r.queries.map Outcome.toJson))]

/-- A report in the given format. -/
def Report.render (r : Report) : OutputFormat → String
  | .text => r.text
  | .json => r.toJson.pretty

end HornQuery
