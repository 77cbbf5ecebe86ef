import HornQuery.Config
import HornQuery.Error

/-!
# Events of a run

A run keeps a log. An event says what happened; its level, message and fields follow from that.
-/

namespace HornQuery

/-- How serious an event is, the most serious first. -/
inductive Level where
  | error | warn | info | debug | trace
deriving DecidableEq, Repr

namespace Level

/-- The rank of a level; more serious levels come first. -/
def rank : Level → Nat
  | .error => 0
  | .warn => 1
  | .info => 2
  | .debug => 3
  | .trace => 4

/-- The name of a level in the log. -/
def name : Level → String
  | .error => "ERROR"
  | .warn => "WARN"
  | .info => "INFO"
  | .debug => "DEBUG"
  | .trace => "TRACE"

end Level

/-- Something that happens during a run. -/
inductive Event where
  /-- A run of a file was asked for. -/
  | running (file : String) (backend : Backend)
  /-- The store was opened. -/
  | opened (backend : Backend)
  /-- The clauses were collected. -/
  | collected (comments : Nat)
  /-- The source text was read. -/
  | parsed (clauses symbols facts rules queries : Nat)
  /-- The symbols were written to the store. -/
  | symbolsWritten (count : Nat)
  /-- The facts were written to the store. -/
  | factsWritten (count : Nat)
  /-- The whole program was written to the store. -/
  | materialized (symbols facts : Nat)
  /-- A rule was turned into SQL. -/
  | ruleSql (rule : Symbol) (sql : String)
  /-- A rule was resolved. -/
  | ruleCompiled (rule : Symbol) (pass : Nat)
  /-- A rule cannot be compiled. -/
  | ruleFailed (rule : Symbol) (reason : String)
  /-- A pass over the rules ended. -/
  | passFinished (pass : Nat) (progress : Bool)
  /-- Rules are left that cannot be resolved. -/
  | unresolved (error : Error)
  /-- All rules were resolved. -/
  | resolved (compiled passes failed : Nat)
  /-- A query was turned into SQL. -/
  | querySql (query sql : String)
  /-- A query cannot be answered. -/
  | queryFailed (query : String) (error : Error)
  /-- A constant of a query has no use in the rule it is passed to. -/
  | bindingDropped (key : Placeholder)
  /-- No query uses a configured parameter. -/
  | paramUnused (name : String)
  /-- All queries were answered. -/
  | executed (count : Nat)
deriving DecidableEq, Repr

namespace Event

/-- The level of an event. -/
def level : Event → Level
  | .running _ _ => .info
  | .opened _ => .info
  | .collected _ => .trace
  | .parsed .. => .debug
  | .symbolsWritten _ => .debug
  | .factsWritten _ => .debug
  | .materialized _ _ => .info
  | .ruleSql _ _ => .debug
  | .ruleCompiled _ _ => .debug
  | .ruleFailed _ _ => .warn
  | .passFinished _ _ => .trace
  | .unresolved _ => .error
  | .resolved .. => .info
  | .querySql _ _ => .debug
  | .queryFailed _ _ => .warn
  | .bindingDropped _ => .warn
  | .paramUnused _ => .warn
  | .executed _ => .info

/-- The message of an event. -/
def message : Event → String
  | .running file backend => s!"Running {Text.quote file} on {backend.display} backend"
  | .opened backend => s!"Opened {backend.display} store"
  | .collected _ => "Collected program"
  | .parsed .. => "Parsed program"
  | .symbolsWritten count => s!"Committed {count} symbols"
  | .factsWritten count => s!"Committed {count} fact rows"
  | .materialized symbols facts => s!"Materialized {symbols} symbols, {facts} facts"
  | .ruleSql _ _ => "Compiled rule"
  | .ruleCompiled _ _ => "Rule compiled"
  | .ruleFailed _ reason => s!"Rule failed: {reason}"
  | .passFinished _ _ => "Resolution pass finished"
  | .unresolved error => error.message
  | .resolved compiled passes failed =>
    s!"Resolved {compiled} rules in {passes} passes ({failed} failed)"
  | .querySql _ _ => "Compiled query"
  | .queryFailed _ error => s!"Query failed: {error.message}"
  | .bindingDropped _ => "Dropping extraneous binding"
  | .paramUnused _ => "Dropping extraneous binding: no query references it"
  | .executed count => s!"Executed {count} queries"

/-- The named values that an event carries besides its message. -/
def fields : Event → List (String × String)
  | .collected comments => [("comments", toString comments)]
  | .parsed clauses symbols facts rules queries =>
    [("clauses", toString clauses), ("symbols", toString symbols), ("facts", toString facts),
     ("rules", toString rules), ("queries", toString queries)]
  | .ruleSql rule sql => [("rule", rule.display), ("sql", sql)]
  | .ruleCompiled rule pass => [("rule", rule.display), ("pass", toString pass)]
  | .ruleFailed rule _ => [("rule", rule.display)]
  | .passFinished pass progress => [("pass", toString pass), ("progress", toString progress)]
  | .querySql query sql => [("query", query), ("sql", sql)]
  | .queryFailed query _ => [("query", query)]
  | .bindingDropped key => [("param", key.display)]
  | .paramUnused name => [("param", name)]
  | _ => []

/-- The line of an event in a log: level, message and fields. -/
def line (e : Event) : String :=
  e.level.name ++ " " ++ e.message
    ++ String.join (e.fields.map fun (name, value) ↦ s!" {name}={value}")

/-- The lines of the events that are at least as serious as `level`. -/
def logAt (level : Level) (events : List Event) : List String :=
  (events.filter fun e ↦ e.level.rank ≤ level.rank).map line

end Event

end HornQuery
