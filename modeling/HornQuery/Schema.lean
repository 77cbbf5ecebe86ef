/-!
# The tables behind a program

Symbols live in one table, facts in one table per arity up to `maxArity`. Every column of a fact table
refers to the symbol table: first the relation, then the arguments.
-/

namespace HornQuery.Schema

/-- The largest arity that facts may have. -/
def maxArity : Nat := 4

/-- The table of symbols. -/
def symbolTable : String := "symbol"

/-- The table of the facts with `arity` arguments. -/
def factTable (arity : Nat) : String := s!"fact_{arity}ary"

/-- The column of the argument at a place counted from one. -/
def argColumn (position : Nat) : String := s!"arg{position}_id"

/-- The column of a fact's relation. -/
def functorColumn : String := "functor_id"

/-- The columns of the symbol table. -/
def symbolColumns : List String := ["id", "symbol", "arity"]

/-- The columns of the table of the facts with `arity` arguments. -/
def factColumns (arity : Nat) : List String :=
  functorColumn :: (List.range arity).map fun i ↦ argColumn (i + 1)

/-- The arities that have a table. -/
def arities : List Nat := List.range (maxArity + 1)

/-- The statement that creates the table of the facts with `arity` arguments. -/
def createFactTable (arity : Nat) : String :=
  let columns := (factColumns arity).map fun column ↦
    s!"{column} INTEGER NOT NULL REFERENCES {symbolTable}(id)"
  "CREATE TABLE IF NOT EXISTS " ++ factTable arity ++ " (" ++ ", ".intercalate columns ++ ")"

/-- The statements that create all tables, where they do not exist. -/
def createStatements : List String :=
  [s!"CREATE TABLE IF NOT EXISTS {symbolTable} (id INTEGER PRIMARY KEY, symbol TEXT NOT NULL, arity INTEGER NOT NULL)",
   s!"CREATE INDEX IF NOT EXISTS symbol_arity ON {symbolTable} (symbol, arity)"]
    ++ arities.map createFactTable

/-- The statement that inserts a fact with `arity` arguments. -/
def insertStatement (arity : Nat) : String :=
  let places := (List.range (arity + 1)).map fun i ↦ s!"?{i + 1}"
  "INSERT INTO " ++ factTable arity ++ " (" ++ ", ".intercalate (factColumns arity) ++ ") VALUES ("
    ++ ", ".intercalate places ++ ")"

end HornQuery.Schema
