import HornQuery.Cell
import HornQuery.Place
import HornQuery.Schema
import HornQuery.SymbolTable

/-!
# The store

A database holds the rows of the symbol table and of the fact tables. All facts stand in one list; the
table for an arity consists of those with that many arguments. Two rules hold for every database that
the operations build: no two symbols have the same number, and a fact refers to numbers of symbols
only.

A store has no tables until `bootstrap` creates them. Each writing operation either does all of its
work or returns an error, in which case the store is what it was before.
-/

namespace HornQuery

/-- A row of the symbol table. -/
structure SymbolRow where
  /-- The symbol's number. -/
  id : Int
  /-- The symbol. -/
  symbol : Symbol
deriving DecidableEq, Repr

/-- A row of a fact table. -/
structure FactRow where
  /-- The number of the fact's relation. -/
  functor : Int
  /-- The numbers of its arguments. -/
  args : List Int
deriving DecidableEq, Repr

/-- The rows of all tables, in order of insertion. -/
structure Database where
  /-- The rows of the symbol table. -/
  symbols : List SymbolRow := []
  /-- The rows of the fact tables. -/
  facts : List FactRow := []
deriving DecidableEq, Repr

/-- Why the store refuses an operation. -/
inductive StorageError where
  /-- There is no table of this name. -/
  | missingTable (name : String)
  /-- The number belongs to another symbol already. -/
  | repeatedId (id : Int)
  /-- No symbol has this number. -/
  | danglingId (id : Int)
  /-- A query joins more tables than the store can. -/
  | tooManySources (count : Nat)
  /-- An expression of a query nests deeper than the store can follow. -/
  | tooDeep (depth : Nat)
  /-- A query asks for no column. -/
  | noColumns
  /-- A query asks for more columns than the store can give. -/
  | tooManyColumns (count : Nat)
  /-- The store cannot be opened. -/
  | unopened (cause : OpenError)
  /-- The file of the store holds something else. -/
  | notDatabase
  /-- The file of the store may not be changed. -/
  | readOnly
  /-- The file that protects changes of the store cannot be created. -/
  | noJournal
  /-- The file of the store does not keep what is written to it. -/
  | lostWrite
deriving DecidableEq, Repr

/-- The wording of a storage error. -/
def StorageError.message : StorageError → String
  | .missingTable name => s!"no such table: {name}"
  | .repeatedId _ => "UNIQUE constraint failed: symbol.id"
  | .danglingId _ => "FOREIGN KEY constraint failed"
  | .tooManySources _ => "at most 64 tables in a join"
  | .tooDeep _ => "Expression tree is too large (maximum depth 1000)"
  | .noColumns => "incomplete input"
  | .tooManyColumns _ => "too many columns in result set"
  | .unopened cause => cause.message
  | .notDatabase => "file is not a database"
  | .readOnly => "attempt to write a readonly database"
  | .noJournal => "unable to open database file"
  | .lostWrite => "disk I/O error"

namespace Database

/-- Whether a symbol has the number `id`. -/
def hasId (db : Database) (id : Int) : Bool :=
  db.symbols.any fun r ↦ r.id = id

/-- Add a symbol under a number of its own. -/
def insertSymbol (db : Database) (row : SymbolRow) : Except StorageError Database :=
  if db.hasId row.id then .error (.repeatedId row.id)
  else .ok { db with symbols := db.symbols ++ [row] }

/-- Add a fact. Its table has to exist, and its numbers have to be numbers of symbols. -/
def insertFact (db : Database) (row : FactRow) : Except StorageError Database :=
  if Schema.maxArity < row.args.length then .error (.missingTable (Schema.factTable row.args.length))
  else
    match (row.functor :: row.args).find? fun id ↦ !db.hasId id with
    | some id => .error (.danglingId id)
    | none => .ok { db with facts := db.facts ++ [row] }

/-- Delete the facts with `arity` arguments. Nothing refers to facts. -/
def deleteFacts (db : Database) (arity : Nat) : Database :=
  { db with facts := db.facts.filter fun r ↦ r.args.length ≠ arity }

/-- Delete all symbols. A fact that refers to one prevents it, so there is nothing left afterwards. -/
def deleteSymbols (db : Database) : Except StorageError Database :=
  match (db.facts.flatMap fun r ↦ r.functor :: r.args).find? db.hasId with
  | some id => .error (.danglingId id)
  | none => .ok {}

/-- Delete all rows. Facts refer to symbols, so their tables come first. -/
def clear (db : Database) : Except StorageError Database :=
  (Schema.arities.foldl deleteFacts db).deleteSymbols

/-- The symbol table. -/
def symbolTable (db : Database) : Table where
  columns := Schema.symbolColumns
  rows := db.symbols.map fun r ↦ [.integer r.id, .text r.symbol.text, .integer r.symbol.arity]

/-- The facts with `arity` arguments. -/
def factsOf (db : Database) (arity : Nat) : List FactRow :=
  db.facts.filter fun r ↦ r.args.length = arity

/-- The table of the facts with `arity` arguments. -/
def factTable (db : Database) (arity : Nat) : Table where
  columns := Schema.factColumns arity
  rows := (db.factsOf arity).map fun r ↦ (r.functor :: r.args).map .integer

/-- The table of a name. -/
def table? (db : Database) (name : String) : Option Table :=
  if name = Schema.symbolTable then some db.symbolTable
  else (Schema.arities.find? fun n ↦ Schema.factTable n = name).map db.factTable

/-- The number of the constant with a text. -/
def constantId? (db : Database) (text : String) : Option Int :=
  (db.symbols.find? fun r ↦ r.symbol = .constant text).map (·.id)

end Database

/-- The tables, once they have been created. -/
structure Store where
  /-- The contents of the tables. -/
  database : Option Database := none
deriving DecidableEq, Repr

namespace Store

/-- Create the tables that do not exist. -/
def bootstrap (s : Store) : Store :=
  ⟨some (s.database.getD {})⟩

/-- Delete all rows. -/
def clear (s : Store) : Except StorageError Store :=
  match s.database with
  | none => .error (.missingTable (Schema.factTable 0))
  | some db => do
    let db ← db.clear
    return ⟨some db⟩

/-- Add every symbol of a table under its number. -/
def insertSymbols (s : Store) (symbols : SymbolTable) : Except StorageError Store :=
  match s.database with
  | none => .error (.missingTable Schema.symbolTable)
  | some db => do
    let db ← symbols.toList.foldlM (fun db (id, symbol) ↦ db.insertSymbol ⟨id, symbol⟩) db
    return ⟨some db⟩

/-- Add facts. Without any fact to add, no table is needed. -/
def insertFacts (s : Store) (rows : List FactRow) : Except StorageError Store :=
  match s.database, rows with
  | _, [] => .ok s
  | none, row :: _ => .error (.missingTable (Schema.factTable row.args.length))
  | some db, rows => do
    let db ← rows.foldlM Database.insertFact db
    return ⟨some db⟩

/-- The table of a name, as it is kept. Capital and small letters are the same in names. -/
def table (s : Store) (name : String) : Except StorageError Table :=
  match s.database.bind fun db ↦ db.table? name.toLower with
  | some t => .ok t.kept
  | none => .error (.missingTable name)

/-- The number of rows of a table. -/
def count (s : Store) (name : String) : Except StorageError Nat := do
  return (← s.table name).rows.length

/-- The number of the constant with a text, as a table with at most one row. -/
def idOf (s : Store) (text : String) : Except StorageError Table :=
  match s.database with
  | none => .error (.missingTable Schema.symbolTable)
  | some db => .ok ⟨["id"], (db.constantId? text).toList.map fun id ↦ [.integer id]⟩

/-- The largest number of columns that a query may ask for. -/
def maxColumns : Nat := 2000

/-- The row that selects the given cells. -/
def literals (cells : List Cell) : Except StorageError (List (List Cell)) :=
  if cells.isEmpty then .error .noColumns
  else if maxColumns < cells.length then .error (.tooManyColumns cells.length)
  else .ok [cells]

end Store

end HornQuery
