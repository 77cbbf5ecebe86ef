import HornQuery.FileSystem
import HornQuery.Program.Draft
import HornQuery.Resolution
import HornQuery.Scan.Execution

/-!
# Running programs

A run rebuilds the store from the program, resolves the rules and answers the queries one by one. An
error of a query is its answer; any other error ends the run. Whatever happens, the run leaves a log
and a store, and nothing that was in the store before has any influence on the result.
-/

namespace HornQuery

/-! ### Writing a program to the store -/

/-- What writing a program to a store leads to. -/
structure Materialized where
  /-- The store afterwards. -/
  store : Store
  /-- What happened. -/
  log : List Event
  /-- The numbers of the symbols. -/
  symbols : Except Error SymbolTable

/-- The number of a symbol. -/
def SymbolTable.require (t : SymbolTable) (s : Symbol) : Except Error Int :=
  match t.get? s with
  | some id => .ok id
  | none => .error (.compile (.unknownSymbol s))

/-- The row of a fact. -/
def Fact.row (t : SymbolTable) (f : Fact) : Except Error FactRow := do
  if Schema.maxArity < f.args.length then throw (.unsupportedArity f.symbol)
  let functor ← t.require f.symbol
  let args ← f.args.mapM fun text ↦ t.require (.constant text)
  return ⟨functor, args⟩

/-- Write symbols and then facts to the store. Rows are made first, so that nothing is written for a
program that does not fit. -/
def Program.materialize (p : Program) (store : Store) : Materialized :=
  let table := p.symbolTable
  match p.facts.mapM (Fact.row table) with
  | .error e => ⟨store, [], .error e⟩
  | .ok rows =>
    match store.insertSymbols table with
    | .error e => ⟨store, [], .error (.storage e)⟩
    | .ok store =>
      let log := [Event.symbolsWritten table.size]
      match store.insertFacts rows with
      | .error e => ⟨store, log, .error (.storage e)⟩
      | .ok store =>
        ⟨store, log ++ [.factsWritten rows.length, .materialized table.size rows.length], .ok table⟩

/-! ### Answering queries -/

/-- The value of a placeholder: one of a rule comes from the query, one of a query from the
configuration. -/
def Config.valueOf (config : Config) (bindings : List (Placeholder × String)) :
    Placeholder → Option String
  | .rule key name => bindings.lookup (.rule key name)
  | .external name => config.param? name

/-- The values of placeholders, up to the first one without. -/
def Config.bind (config : Config) (bindings : List (Placeholder × String)) :
    List Placeholder → Except Error (List (Placeholder × String))
  | [] => .ok []
  | key :: keys =>
    match config.valueOf bindings key with
    | none => .error (.missingBinding key)
    | some value => (config.bind bindings keys).map ((key, value) :: ·)

/-- The query parameters that are looked up for placeholders, up to the first one without a value. -/
def Config.lookedUp (config : Config) (bindings : List (Placeholder × String)) :
    List Placeholder → List String
  | [] => []
  | key :: keys =>
    let own := match key with
      | .external name => [name]
      | .rule _ _ => []
    match config.valueOf bindings key with
    | none => own
    | some _ => own ++ config.lookedUp bindings keys

/-- The answer that the result of a fragment gives. -/
def Fragment.answer (f : Fragment) (t : Table) : Answer :=
  match f.shape with
  | .existence =>
    match t.rows with
    | (cell :: _) :: _ => if cell.isTruthy then .yes else .no
    | _ => .no
  | .rows columns => .rows columns (t.rows.map fun row ↦ row.map Cell.display)

/-- The answer of a query that cannot hold. -/
def Fragment.emptyAnswer (f : Fragment) : Answer :=
  match f.shape with
  | .existence => .no
  | .rows columns => .rows columns []

/-- What executing a compiled query leads to. -/
structure Execution where
  /-- What happened. -/
  log : List Event
  /-- The query parameters that were looked up. -/
  used : List String := []
  /-- The answer; a storage error ends the run. -/
  answer : Except Error Answer

/-- Execute a compiled query. The store refuses what `refusal` says. -/
def CompiledQuery.execute (q : CompiledQuery) (config : Config) (store : Store) (text : String)
    (refusal : Fragment → Option StorageError := Fragment.refusal?) : Execution :=
  if q.unsatisfiable then ⟨[], [], .ok q.fragment.emptyAnswer⟩
  else
    let order := q.fragment.order
    let dropped := (q.bindings.map (·.1)).filter fun key ↦ !order.contains key
    let log := dropped.map Event.bindingDropped
    let used := config.lookedUp q.bindings order
    match config.bind q.bindings order with
    | .error e => ⟨log ++ [.queryFailed text e], used, .ok (.error e.message)⟩
    | .ok values =>
      match store.query q.fragment values refusal with
      | .error e => ⟨log, used, .error (.storage e)⟩
      | .ok table => ⟨log, used, .ok (q.fragment.answer table)⟩

/-- What answering queries leads to. -/
structure Answered where
  /-- The compiler afterwards. -/
  compiler : Compiler
  /-- What happened. -/
  log : List Event := []
  /-- The query parameters that were looked up. -/
  used : List String := []
  /-- The queries with their answers. -/
  outcomes : Except Error (List Outcome)

/-- Answer one query. -/
def Compiler.answer (c : Compiler) (config : Config) (store : Store) (q : Query) : Answered :=
  match c.compileQuery q with
  | (c, .error e) =>
    ⟨c, [.queryFailed q.text (.compile e)], [], .ok [⟨q.text, none, .error e.message⟩]⟩
  | (c, .ok compiled) =>
    let sql := compiled.fragment.sql
    let x := compiled.execute config store q.text
    ⟨c, .querySql q.text sql :: x.log, x.used,
      x.answer.map fun a ↦ [⟨q.text, if config.showSql then some sql else none, a⟩]⟩

/-- Answer queries in order. -/
def Compiler.answerAll (c : Compiler) (config : Config) (store : Store) : List Query → Answered
  | [] => ⟨c, [], [], .ok []⟩
  | q :: qs =>
    let first := c.answer config store q
    match first.outcomes with
    | .error e => ⟨first.compiler, first.log, first.used, .error e⟩
    | .ok found =>
      let rest := first.compiler.answerAll config store qs
      ⟨rest.compiler, first.log ++ rest.log, first.used ++ rest.used, rest.outcomes.map (found ++ ·)⟩

/-! ### Runs -/

/-- What a run leads to. -/
structure Run where
  /-- The store afterwards. -/
  store : Store
  /-- What happened. -/
  log : List Event
  /-- The report, or why there is none. -/
  result : Except Error Report

/-- The events for configured parameters that no query looked up. -/
def Config.unusedParams (config : Config) (used : List String) : List Event :=
  ((config.params.map (·.1)).filter fun name ↦ !used.contains name).map Event.paramUnused

/-- Resolve the rules of a program that is in the store, and answer its queries. -/
def Program.answers (p : Program) (config : Config) (store : Store) (symbols : SymbolTable) : Run :=
  let resolution := (Compiler.fresh p symbols config.bodyPolicy).resolve config.maxPasses
  match resolution.report with
  | .error e => ⟨store, resolution.log, .error e⟩
  | .ok report =>
    let answered := resolution.compiler.answerAll config store p.queries
    match answered.outcomes with
    | .error e => ⟨store, resolution.log ++ answered.log, .error e⟩
    | .ok outcomes =>
      ⟨store,
        resolution.log ++ answered.log ++ config.unusedParams answered.used
          ++ [.executed outcomes.length],
        .ok ⟨symbols.size, p.facts.length, report, outcomes⟩⟩

/-- Run a program on a store, which is rebuilt from it. -/
def Program.run (p : Program) (config : Config) (store : Store) : Run :=
  match store.bootstrap.clear with
  | .error e => ⟨store.bootstrap, [], .error (.storage e)⟩
  | .ok store =>
    let m := p.materialize store
    match m.symbols with
    | .error e => ⟨m.store, m.log, .error e⟩
    | .ok symbols =>
      let r := p.answers config m.store symbols
      { r with log := m.log ++ r.log }

/-- The events of reading a program. -/
def Parsed.log (p : Parsed) : List Event :=
  [.collected p.comments,
   .parsed p.clauses p.program.symbols.length p.program.facts.length p.program.rules.length
     p.program.queries.length]

/-- A store in use, with the configuration of its runs. -/
structure Session where
  /-- The configuration. -/
  config : Config := {}
  /-- The store. -/
  store : Store := {}
  /-- Why the store refuses to be rebuilt, if it does. -/
  refusal : Option StorageError := none
deriving DecidableEq, Repr

namespace Session

/-- Run a source text. The text is read also if the store refuses to be rebuilt. -/
def run (s : Session) (source : String) : Run :=
  match Program.parse source with
  | .error e => ⟨s.store, [], .error (.parse e)⟩
  | .ok parsed =>
    match s.refusal with
    | some e => ⟨s.store, parsed.log, .error (.storage e)⟩
    | none =>
      let r := parsed.program.run s.config s.store
      { r with log := parsed.log ++ r.log }

/-- Run a program that has been read already. -/
def runProgram (s : Session) (p : Program) : Run :=
  match s.refusal with
  | some e => ⟨s.store, [], .error (.storage e)⟩
  | none => p.run s.config s.store

/-- Run a source text as the first thing after opening the store. -/
def start (s : Session) (source : String) : Run :=
  let r := s.run source
  { r with log := .opened s.config.backend :: r.log }

end Session

variable {m : Type → Type} [Monad m]

/-- Open the store that a configuration names. -/
def FileSystem.openSession (fs : FileSystem m) (config : Config) :
    m (Except StorageError Session) := do
  match ← fs.openStore config.backend with
  | .error e => return .error (.unopened e)
  | .ok opened => return .ok { config, store := opened.store, refusal := opened.refusal }

/-- Open the store that a configuration names, and run a source text on it. -/
def FileSystem.run (fs : FileSystem m) (config : Config) (source : String) : m Run := do
  match ← fs.openSession config with
  | .error e => return ⟨{}, [], .error (.storage e)⟩
  | .ok session => return session.start source

end HornQuery
