import HornQuery.ParseError
import HornQuery.Scan
import HornQuery.Store
import HornQuery.Text.Quoted

/-!
# What can go wrong

A `CompileError` concerns one rule or one query, and the run goes on without it; so does a run without
the value of a query's parameter. Every other `Error` ends the run (`Error.isFatal`).
-/

namespace HornQuery

/-- Why goals cannot be turned into a scan. -/
inductive CompileError where
  /-- A relation is used with an arity other than those it is defined with. -/
  | arityMismatch (used : Symbol) (defined : List Nat)
  /-- A relation is not defined with any arity. -/
  | unknownRelation (relation : Symbol)
  /-- A symbol has no number. -/
  | unknownSymbol (symbol : Symbol)
  /-- A rule is used that could not be compiled itself. -/
  | ruleFailed (rule : Symbol) (reason : String)
deriving DecidableEq, Repr

/-- The wording of a compile error. -/
def CompileError.message : CompileError → String
  | .arityMismatch used defined =>
    s!"Arity mismatch: {used.display} used, but {used.text} is defined with arity "
      ++ Text.bracketed (defined.map toString)
  | .unknownRelation relation => s!"Unknown relation: {relation.display}"
  | .unknownSymbol symbol => s!"Unknown symbol: {symbol.display}"
  | .ruleFailed rule reason => s!"Rule {rule.display} failed to compile: {reason}"

/-- Why a run, or a part of one, fails. -/
inductive Error where
  /-- The source text is not a program. -/
  | parse (e : ParseError)
  /-- Goals cannot be compiled. -/
  | compile (e : CompileError)
  /-- A fact has more arguments than any table. -/
  | unsupportedArity (fact : Symbol)
  /-- A rule needs a relation that can never be resolved. -/
  | cascade (rule reference : Symbol)
  /-- Rules wait for each other, or for more passes than are allowed. -/
  | cycle (passes : Nat) (pending : List Symbol)
  /-- A placeholder has no value. -/
  | missingBinding (key : Placeholder)
  /-- The store refuses. -/
  | storage (e : StorageError)
deriving DecidableEq, Repr

namespace Error

/-- The wording of an error. -/
def message : Error → String
  | .parse e => s!"Syntax error: {e.message}"
  | .compile e => e.message
  | .unsupportedArity fact =>
    s!"Unsupported arity {fact.arity} for fact {fact.text} (max {Schema.maxArity})"
  | .cascade rule reference =>
    s!"Unsupported rule cascade: rule {rule.display} references {reference.display}, "
      ++ "which is neither a fact relation nor a resolvable rule"
  | .cycle passes pending =>
    s!"Recursive rule depth passed after {passes} passes, "
      ++ "check for circular dependencies between rules: "
      ++ Text.bracketed (pending.map fun key ↦ Text.quote key.display)
  | .missingBinding key => s!"Required parameter {key.display} missing at execution"
  | .storage e => s!"Storage error: {e.message}"

/-- Whether an error ends the whole run. -/
def isFatal : Error → Bool
  | .compile _ => false
  | .missingBinding _ => false
  | _ => true

end Error

end HornQuery
