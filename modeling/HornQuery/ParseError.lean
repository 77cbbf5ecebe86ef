import HornQuery.Node
import HornQuery.Symbol
import HornQuery.Text.Location

/-!
# What can be wrong with a source text

A `Fault` is the cause alone: the first six arise while characters are read, the others while clauses
are collected into a program. A `ParseError` is a fault with its place. The wording of every fault is
`Fault.message`.
-/

namespace HornQuery

/-- Why a source text is refused. -/
inductive Fault where
  /-- Another token had to follow. -/
  | expected (token : String)
  /-- The text ends where a term had to start. -/
  | missingTerm
  /-- No term starts with this character. -/
  | unexpectedChar (c : Char)
  /-- A quoted name is not closed on its line. -/
  | unclosedQuote
  /-- A colon is not followed by a name. -/
  | missingParamName
  /-- Goals are joined by a semicolon. -/
  | disjunction
  /-- A term stands where a clause had to. -/
  | bareTerm (kind : Node.Kind)
  /-- A clause stands where a term had to. -/
  | nestedClause (kind : Node.Kind)
  /-- What stands as a head or goal cannot be applied. -/
  | notPredicate (kind : Node.Kind)
  /-- A fact has a variable. -/
  | openFact (name : String)
  /-- A parameter stands outside a query. -/
  | strayParam (name : String)
  /-- An argument is itself applied to arguments. -/
  | compoundArg (name : String)
  /-- A rule with this name and arity exists already. -/
  | repeatedRule (key : Symbol)
deriving DecidableEq, Repr

/-- The wording of a fault. -/
def Fault.message : Fault → String
  | .expected token => s!"expected '{token}'"
  | .missingTerm => "unexpected end of input, expected term"
  | .unexpectedChar c => s!"unexpected character '{c}'"
  | .unclosedQuote => "unterminated quoted atom"
  | .missingParamName => "expected parameter name after ':'"
  | .disjunction => "disjunction (;) is not supported"
  | .bareTerm kind => s!"expected a clause, found a bare {kind.name}"
  | .nestedClause kind => s!"unexpected {kind.name} inside a term"
  | .notPredicate kind => s!"expected a predicate, found a {kind.name}"
  | .openFact name => s!"facts must be ground, found variable {name}"
  | .strayParam name => s!"parameter :{name} is only allowed in queries"
  | .compoundArg name => s!"compound argument {name}(...) is not supported"
  | .repeatedRule key =>
    s!"rule {key.display} is defined more than once; alternative rule clauses are not supported"

/-- A fault and the place it was found at. -/
structure ParseError where
  /-- What is wrong. -/
  fault : Fault
  /-- Where. -/
  location : Location
deriving DecidableEq, Repr

namespace ParseError

/-- A fault found `offset` bytes into `source`. -/
def ofOffset (source : String) (offset : Nat) (fault : Fault) : ParseError :=
  ⟨fault, .ofOffset source offset⟩

/-- The full message, with the place. -/
def message (e : ParseError) : String :=
  e.location.describe e.fault.message

end ParseError

end HornQuery
