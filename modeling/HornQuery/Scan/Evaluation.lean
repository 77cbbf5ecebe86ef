import HornQuery.Scan
import HornQuery.Store

/-!
# What scans mean

The meaning of a scan is a list of environments: one for every way to draw a row from each source such
that all conditions are true (`Scan.solutions`). `Scan.holds` says whether there is one. Both are
written as plainly as possible, over all combinations of rows.
-/

namespace HornQuery

/-- Values for the columns of the sources drawn so far, and for placeholders. -/
structure Env where
  /-- The value of a column of a source. -/
  column : String → String → Cell
  /-- The value of a placeholder. -/
  param : Placeholder → Cell

/-- The environment with a row drawn for the source `name`. -/
def Env.bind (env : Env) (name : String) (columns : List String) (row : List Cell) : Env :=
  { env with
    column := fun source column ↦
      if source = name then ((columns.zip row).lookup column).getD .null
      else env.column source column }

/-- The value of an expression. -/
def Expr.value (env : Env) : Expr → Cell
  | .column source field => env.column source field
  | .int n => .integer n
  | .param key => env.param key

namespace Database

/-- The table that a source draws from; a table that does not exist has no rows. -/
def sourceTable (db : Database) (s : Source) : Table :=
  (db.table? s.table).getD ⟨[], []⟩

/-- Every way to draw a row from each of some sources. -/
def draws (db : Database) : List Source → Env → List Env
  | [], env => [env]
  | s :: rest, env =>
    let t := db.sourceTable s
    t.rows.flatMap fun row ↦ db.draws rest (env.bind s.name t.columns row)

end Database

/-! ### The meaning of a scan -/

mutual

/-- Whether a condition is true. -/
def Condition.holds (db : Database) (env : Env) : Condition → Bool
  | .eq left right => (left.value env).equals (right.value env)
  | .exists scan => scan.holds db env

/-- Whether some way to draw rows makes all conditions of a scan true. -/
def Scan.holds (db : Database) (env : Env) : Scan → Bool
  | ⟨sources, conditions, _⟩ =>
    (db.draws sources env).any fun env ↦ Condition.holdAll db env conditions

/-- Whether all conditions are true. -/
def Condition.holdAll (db : Database) (env : Env) : List Condition → Bool
  | [] => true
  | c :: cs => c.holds db env && Condition.holdAll db env cs

end

/-- The ways to draw rows that make all conditions of a scan true. -/
def Scan.solutions (db : Database) (env : Env) (s : Scan) : List Env :=
  (db.draws s.sources env).filter fun env ↦ Condition.holdAll db env s.conditions

/-- The projected values of each solution. -/
def Scan.rows (db : Database) (env : Env) (s : Scan) : List (List Cell) :=
  (s.solutions db env).map fun env ↦ s.projection.map fun (_, e) ↦ e.value env

end HornQuery
