import HornQuery.Node.Reader
import HornQuery.Program.Survey

/-!
# Collecting a program

A draft is a program under construction. `Draft.visit` takes one clause: whatever its survey noted is
registered, also if the clause is refused in the end, but facts, rules and queries change only by a
clause that is accepted. A draft knows the text that its clauses come from and where the last of them
starts, which is where a fault is reported. `Program.parse` reads a source text and visits its clauses
up to the first fault.
-/

namespace HornQuery

/-- A program under construction. -/
structure Draft where
  /-- The text that the clauses come from. -/
  source : String := ""
  /-- The offset at which the clause taken last starts. -/
  offset : Nat := 0
  /-- What has been collected. -/
  program : Program := {}
  /-- How many comments were passed. -/
  comments : Nat := 0
deriving DecidableEq, Repr

/-- Register something that a clause mentions. -/
def Program.register (p : Program) : Entry → Program
  | .symbol s => { p with symbols := Distinct.insert p.symbols s }
  | .var name => { p with vars := Distinct.insert p.vars name }
  | .occurrence relation args => { p with occurrences := p.occurrences ++ [(relation, args)] }

namespace Draft

open Survey (Item)

/-- Register everything that a clause mentions. -/
def register (d : Draft) (entries : List Entry) : Draft :=
  { d with program := entries.foldl Program.register d.program }

/-- Add what a clause means. A second rule for a relation is refused. -/
def add (d : Draft) : Item → Except Fault Draft
  | .comment => .ok { d with comments := d.comments + 1 }
  | .query q => .ok { d with program.queries := d.program.queries ++ [q] }
  | .fact f =>
    .ok { d with
      program.relations := Distinct.insert d.program.relations f.symbol
      program.facts := d.program.facts ++ [f] }
  | .rule r =>
    if (d.program.rule? r.key).isSome then .error (.repeatedRule r.key)
    else .ok { d with program.rules := d.program.rules ++ [r] }

/-- A fault of the clause taken last. -/
def error (d : Draft) (fault : Fault) : ParseError :=
  .ofOffset d.source d.offset fault

/-- The draft that has come to a clause and registered what the clause mentions. -/
def noted (d : Draft) (clause : Located) : Draft :=
  { d with offset := clause.offset }.register (Survey.clause clause.node).entries

/-- Take one clause. The draft returned holds what was registered, whether or not there is a fault. -/
def visit (d : Draft) (clause : Located) : Draft × Option ParseError :=
  match (Survey.clause clause.node).result with
  | .error fault => (d.noted clause, some ((d.noted clause).error fault))
  | .ok item =>
    match (d.noted clause).add item with
    | .error fault => (d.noted clause, some ((d.noted clause).error fault))
    | .ok after => (after, none)

/-- Take clauses up to the first that is refused. -/
def visitAll (d : Draft) : List Located → Except ParseError Draft
  | [] => .ok d
  | c :: cs =>
    match d.visit c with
    | (_, some e) => .error e
    | (after, none) => after.visitAll cs

end Draft

/-- A program read from a source text, with what is counted on the way. -/
structure Parsed where
  /-- The program. -/
  program : Program
  /-- The number of clauses, comments included. -/
  clauses : Nat
  /-- The number of comments that stand between clauses. -/
  comments : Nat
deriving DecidableEq, Repr

/-- The program that a source text says. A fault of a clause is placed at the start of the clause. -/
def Program.parse (source : String) : Except ParseError Parsed := do
  let tree ← Node.parseTree source
  let d ← Draft.visitAll { source } tree
  return ⟨d.program, tree.length, d.comments⟩

end HornQuery
