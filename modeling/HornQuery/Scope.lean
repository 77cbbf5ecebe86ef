import HornQuery.Fragment

/-!
# Scopes

A scope is a scan under construction. It draws one source per fact relation used and one per variable
that is not supplied from outside: such a variable ranges over the constants, that is, over the rows of
the symbol table with arity zero.

Aliases are made from the scope's number and a counter, never from names in the program. Scopes have
different numbers, so that a scan can be nested in another without any clash.
-/

namespace HornQuery

/-- A scan under construction. -/
structure Scope where
  /-- The number that its aliases carry. -/
  number : Nat
  /-- How many fact relations it draws from. -/
  tables : Nat := 0
  /-- The variables that have a source, in order of first use. -/
  vars : List String := []
  /-- The sources so far. -/
  sources : List Source := []
  /-- The conditions so far. -/
  conditions : List Condition := []

namespace Scope

/-- The alias of the fact relation with the given index. -/
def tableAlias (number index : Nat) : String := s!"f{number}_{index}"

/-- The alias of the variable with the given index. -/
def variableAlias (number index : Nat) : String := s!"v{number}_{index}"

/-- Add a condition. -/
def require (s : Scope) (c : Condition) : Scope :=
  { s with conditions := s.conditions ++ [c] }

/-- Require two expressions to be equal. -/
def equate (s : Scope) (left right : Expr) : Scope :=
  s.require (.eq left right)

/-- Draw from a fact relation, under the alias returned. -/
def addTable (s : Scope) (arity : Nat) : String × Scope :=
  let source := tableAlias s.number s.tables
  (source, { s with tables := s.tables + 1, sources := s.sources ++ [⟨Schema.factTable arity, source⟩] })

/-- The number of a variable's value. A variable met for the first time gets a source of its own. -/
def idOf (s : Scope) (name : String) : Expr × Scope :=
  match s.vars.idxOf? name with
  | some i => (.column (variableAlias s.number i) "id", s)
  | none =>
    let source := variableAlias s.number s.vars.length
    (.column source "id",
      { s with
        vars := s.vars ++ [name]
        sources := s.sources ++ [⟨Schema.symbolTable, source⟩]
        conditions := s.conditions ++ [.eq (.column source "arity") (.int 0)] })

/-- The names of a list that have a source, each with its alias. -/
def columnsFor (s : Scope) (names : List String) : List (String × String) :=
  names.filterMap fun name ↦
    (s.vars.idxOf? name).map fun i ↦ (name, variableAlias s.number i)

/-- The fragment that asks for the named variables, in order; without any it asks for existence. -/
def finish (s : Scope) (names : List String) : Fragment :=
  let columns := s.columnsFor names
  let projection := columns.zipIdx.map fun ((_, source), i) ↦ (s!"c{i}", Expr.column source "symbol")
  ⟨⟨s.sources, s.conditions, projection⟩,
    if columns.isEmpty then .existence else .rows (columns.map (·.1))⟩

end Scope

end HornQuery
