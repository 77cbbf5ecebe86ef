import HornQuery.BodyPolicy
import HornQuery.Text.Quoted

/-!
# Configuration of a run

Where the store lives, how far rules are resolved, which goals take part, how results are written, and
the values of query parameters. Parameters are kept in order of their names.
-/

namespace HornQuery

/-- Where the store lives. -/
inductive Backend where
  /-- In memory, for one run. -/
  | memory
  /-- In a file. -/
  | file (path : String)
deriving DecidableEq, Repr

namespace Backend

/-- The backend named by a text: `memory` or `:memory:`, or else a path, which may be marked as one by
a leading `sqlite:`. -/
def ofText (s : String) : Backend :=
  if s = "memory" || s = ":memory:" then .memory
  else
    let mark := "sqlite:".toList
    if mark.isPrefixOf s.toList then .file (String.ofList (s.toList.drop mark.length)) else .file s

/-- The name of a backend in messages. -/
def display : Backend → String
  | .memory => "in-memory"
  | .file path => "file " ++ Text.quote path

end Backend

/-- How results are written. -/
inductive OutputFormat where
  /-- Line by line. -/
  | text
  /-- As a JSON object. -/
  | json
deriving DecidableEq, Repr

namespace OutputFormat

/-- The format with a name. -/
def ofName? (name : String) : Option OutputFormat :=
  if name = "text" then some .text else if name = "json" then some .json else none

/-- The message for a name that no format has. -/
def unknownMessage (name : String) : String :=
  s!"unknown output format '{name}' (expected text or json)"

end OutputFormat

/-- The configuration of a run. -/
structure Config where
  /-- Where the store lives. -/
  backend : Backend := .memory
  /-- The largest number of passes over the rules. -/
  maxPasses : Nat := 10
  /-- Which goals take part. -/
  bodyPolicy : BodyPolicy := .joinAll
  /-- How results are written. -/
  output : OutputFormat := .text
  /-- The values of query parameters, in increasing order of their names. -/
  params : List (String × String) := []
  /-- Whether the SQL of each query is part of its result. -/
  showSql : Bool := false
deriving DecidableEq, Repr

namespace Config

/-- Numbers of passes have 64 bits: they are below this bound. -/
def passBound : Nat := 0x10000000000000000

/-- A list of values in order of their names, with the value for `name` set. -/
def setValue (name value : String) : List (String × String) → List (String × String)
  | [] => [(name, value)]
  | (n, v) :: rest =>
    if name < n then (name, value) :: (n, v) :: rest
    else if name = n then (name, value) :: rest
    else (n, v) :: setValue name value rest

/-- The configuration with the value of a parameter set. -/
def setParam (c : Config) (name value : String) : Config :=
  { c with params := setValue name value c.params }

/-- The value of a parameter. -/
def param? (c : Config) (name : String) : Option String :=
  c.params.lookup name

end Config

end HornQuery
