import HornQuery.Term

/-!
# Programs

A program is what a source text says once its clauses are collected: facts, rules and queries in
source order, and every symbol and variable in order of first mention. A relation is defined by its
facts or by a rule; a rule of the same name and arity shadows the facts. Which relations have facts is
noted apart from the facts, and only looked up there.
-/

namespace HornQuery

/-- A fact: a name applied to constants. -/
structure Fact where
  /-- The relation's name. -/
  functor : String
  /-- The texts of the constants. -/
  args : List String
deriving DecidableEq, Repr

/-- The relation a fact belongs to. -/
def Fact.symbol (f : Fact) : Symbol := ⟨f.functor, f.args.length⟩

/-- A rule: the goal it concludes, given as a name and terms, and the goals it needs. -/
structure Rule where
  /-- The name of what the rule concludes. -/
  name : String
  /-- The terms that name is applied to. -/
  head : List Term
  /-- What has to hold. -/
  body : List Goal
deriving DecidableEq, Repr

namespace Rule

/-- The relation a rule defines; a program has at most one rule for each. -/
def key (r : Rule) : Symbol := ⟨r.name, r.head.length⟩

/-- The variables of the head, each once, in order of first appearance. -/
def params (r : Rule) : List String := Term.vars r.head

/-- Whether `name` is a variable of the head. -/
def isParam (r : Rule) (name : String) : Bool := r.head.contains (.var name)

/-- The relations that the body refers to. -/
def references (r : Rule) : List Symbol := r.body.map Goal.symbol

/-- The written form of a rule. -/
def display (r : Rule) : String :=
  (Goal.mk r.name r.head).display ++ " :- " ++ ", ".intercalate (r.body.map Goal.display) ++ "."

end Rule

/-- A query: goals, and the text they were written as. -/
structure Query where
  /-- What is asked, all to hold together. -/
  goals : List Goal
  /-- The source text of the goals. -/
  text : String
deriving DecidableEq, Repr

/-- The variables of a query, each once, in order of first appearance. -/
def Query.freeVars (q : Query) : List String := Goal.varsOf q.goals

/-- A collected program. -/
structure Program where
  /-- Every constant mentioned and every relation that has facts, in order of first mention. -/
  symbols : List Symbol := []
  /-- Every variable, in order of first mention. -/
  vars : List String := []
  /-- Every application of a relation, with the written forms of its arguments. -/
  occurrences : List (Symbol × List String) := []
  /-- The facts, with repeats. -/
  facts : List Fact := []
  /-- The relations that facts were added for, each once. -/
  relations : List Symbol := []
  /-- The rules, no two with the same key. -/
  rules : List Rule := []
  /-- The queries. -/
  queries : List Query := []
deriving DecidableEq, Repr

namespace Program

/-- The rule for a relation. -/
def rule? (p : Program) (key : Symbol) : Option Rule :=
  p.rules.find? fun r ↦ r.key = key

/-- Whether a relation has facts. -/
def hasFacts (p : Program) (relation : Symbol) : Bool :=
  p.relations.contains relation

/-- The argument lists that a relation is applied to, in source order. -/
def occurrencesOf (p : Program) (relation : Symbol) : List (List String) :=
  (p.occurrences.filter fun o ↦ o.1 = relation).map (·.2)

/-- The arities with which a name is defined, by facts or by a rule, in increasing order. -/
def definedArities (p : Program) (name : String) : List Nat :=
  let ofFacts := (p.relations.filter fun s ↦ s.text = name).map (·.arity)
  let ofRules := (p.rules.filter fun r ↦ r.name = name).map (·.head.length)
  (Distinct.ofList (ofFacts ++ ofRules)).mergeSort

end Program

end HornQuery
