import HornQuery.Distinct
import HornQuery.Symbol

/-!
# Terms and goals

A term is a variable, a constant or a parameter whose value is supplied when a query is executed. A
goal applies a name to terms; goals make up rule bodies and queries, and a rule's head has the same
form.
-/

namespace HornQuery

/-- An argument of a goal. -/
inductive Term where
  /-- A variable. -/
  | var (name : String)
  /-- A constant: a name or a numeral. -/
  | const (text : String)
  /-- A value supplied at execution, written with a colon. -/
  | param (name : String)
deriving DecidableEq, Repr

namespace Term

/-- The written form of a term. Constants are not quoted. -/
def display : Term → String
  | .var name => name
  | .const text => text
  | .param name => s!":{name}"

/-- The name of a variable. -/
def varName? : Term → Option String
  | .var name => some name
  | _ => none

/-- The text of a constant. -/
def constText? : Term → Option String
  | .const text => some text
  | _ => none

/-- Whether the term is a variable. -/
def isVar (t : Term) : Bool := t.varName?.isSome

/-- Whether the term is a constant. -/
def isConst (t : Term) : Bool := t.constText?.isSome

/-- Whether the term is a parameter. -/
def isParam : Term → Bool
  | .param _ => true
  | _ => false

/-- The names of the variables among `terms`, each once, in order of first appearance. -/
def vars (terms : List Term) : List String :=
  Distinct.ofList (terms.filterMap varName?)

end Term

/-- A name applied to terms. -/
structure Goal where
  /-- The name that is applied. -/
  functor : String
  /-- What it is applied to. -/
  args : List Term
deriving DecidableEq, Repr

namespace Goal

/-- The relation a goal is about. -/
def symbol (g : Goal) : Symbol := ⟨g.functor, g.args.length⟩

/-- The variables of a goal, each once, in order of first appearance. -/
def vars (g : Goal) : List String := Term.vars g.args

/-- The written form of a goal; without arguments there are no parentheses. -/
def display (g : Goal) : String :=
  if g.args.isEmpty then g.functor
  else g.functor ++ "(" ++ ", ".intercalate (g.args.map Term.display) ++ ")"

/-- The variables of several goals, each once, in order of first appearance. -/
def varsOf (goals : List Goal) : List String :=
  Distinct.ofList (goals.flatMap vars)

end Goal

end HornQuery
