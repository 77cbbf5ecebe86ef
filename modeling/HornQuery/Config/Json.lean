import HornQuery.Config
import HornQuery.Json.Reader

/-!
# Configurations as JSON

A configuration is an object whose members are named after its fields, or an array with the values of
the fields in order. Fields that are not given keep their defaults. Members with other names are passed
over whatever their value, but a field given twice is refused, and so is any value that is not of the
field's kind; null is of no kind.
-/

namespace HornQuery

/-! ### Reading -/

/-- A choice between named alternatives: a name alone, or an object with the name as its only member. -/
def Json.alternative? : Json → Option (String × Json)
  | .string (some name) => some (name, .null)
  | .object [(some name, value)] => some (name, value)
  | _ => none

namespace Backend

/-- Read a backend. A file needs its path. -/
def ofJson? (value : Json) : Option Backend :=
  match value.alternative? with
  | some ("memory", .null) => some .memory
  | some ("file", .string path) => path.map .file
  | _ => none

end Backend

namespace BodyPolicy

/-- Read a policy. -/
def ofJson? (value : Json) : Option BodyPolicy :=
  match value.alternative? with
  | some ("join_all", .null) => some .joinAll
  | some ("first_clause", .null) => some .firstClause
  | _ => none

/-- The name of a policy. -/
def name : BodyPolicy → String
  | .joinAll => "join_all"
  | .firstClause => "first_clause"

end BodyPolicy

namespace OutputFormat

/-- Read a format. -/
def ofJson? (value : Json) : Option OutputFormat :=
  match value.alternative? with
  | some (name, .null) => ofName? name
  | _ => none

/-- The name of a format. -/
def name : OutputFormat → String
  | .text => "text"
  | .json => "json"

end OutputFormat

namespace Config

/-- The names of the fields, in order. -/
def fieldNames : List String :=
  ["backend", "max_passes", "body_policy", "output", "params", "show_sql"]

/-- Set parameters from the members of an object; of members with the same name the last counts. -/
def setParams (c : Config) (members : List (Option String × Json)) : Option Config :=
  members.foldlM (fun c (name, value) ↦ return c.setParam (← name) (← value.asText?)) { c with params := [] }

/-- Set the field with the given name. Names that no field has are passed over. -/
def setField (c : Config) (name : String) (value : Json) : Option Config :=
  match name with
  | "backend" => (Backend.ofJson? value).map fun b ↦ { c with backend := b }
  | "max_passes" =>
    (value.asNat?.filter (· < passBound)).map fun n ↦ { c with maxPasses := n }
  | "body_policy" => (BodyPolicy.ofJson? value).map fun p ↦ { c with bodyPolicy := p }
  | "output" => (OutputFormat.ofJson? value).map fun f ↦ { c with output := f }
  | "params" => value.asObject?.bind c.setParams
  | "show_sql" => value.asBool?.map fun b ↦ { c with showSql := b }
  | _ => some c

/-- Set fields from the members of an object. -/
def setMembers (c : Config) (seen : List String) : List (Option String × Json) → Option Config
  | [] => some c
  | (none, _) :: _ => none
  | (some name, value) :: rest =>
    if fieldNames.contains name && seen.contains name then none
    else do (← c.setField name value).setMembers (name :: seen) rest

/-- Set fields from a list of values for the fields in order. -/
def setInOrder (c : Config) : List String → List Json → Option Config
  | _, [] => some c
  | [], _ :: _ => none
  | name :: names, value :: values => do (← c.setField name value).setInOrder names values

/-- Read a configuration. -/
def ofJson? : Json → Option Config
  | .object members => setMembers {} [] members
  | .array items => setInOrder {} fieldNames items
  | _ => none

/-- Read the text of a configuration file. -/
def parse? (text : String) : Option Config :=
  (Json.parse? text).bind ofJson?

/-! ### Writing -/

/-- A configuration as a JSON value. -/
def toJson (c : Config) : Json :=
  .record
    [("backend", match c.backend with
      | .memory => .text "memory"
      | .file path => .record [("file", .text path)]),
     ("max_passes", .nat c.maxPasses),
     ("body_policy", .text c.bodyPolicy.name),
     ("output", .text c.output.name),
     ("params", .record (c.params.map fun (name, value) ↦ (name, .text value))),
     ("show_sql", .bool c.showSql)]

end Config

end HornQuery
