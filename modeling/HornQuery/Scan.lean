import HornQuery.Distinct
import HornQuery.Symbol

/-!
# Scans

A scan is one block of a relational query: it draws a row from each of its sources, keeps the
combinations for which all conditions are true, and projects expressions from them. A condition is an
equation or the existence of a combination in a nested scan, which may refer to the sources around it.

Values that are not known when a scan is built are placeholders. `Scan.substitute` replaces
placeholders by expressions, all at once and at every depth; this is how a rule's scan is put into the
scan of whoever uses the rule.
-/

namespace HornQuery

/-- A value that is supplied from outside a scan. -/
inductive Placeholder where
  /-- A head variable of a rule, supplied by whoever uses the rule. -/
  | rule (key : Symbol) (name : String)
  /-- A parameter of a query, supplied by the configuration. -/
  | external (name : String)
deriving DecidableEq, Repr

/-- The written form of a placeholder. -/
def Placeholder.display : Placeholder → String
  | .rule key name => s!"({key.display}, {name})"
  | .external name => s!":{name}"

/-- A scalar expression. -/
inductive Expr where
  /-- A column of a source, which goes by the name it has in the scan. -/
  | column (source column : String)
  /-- An integer. -/
  | int (value : Int)
  /-- The number of the constant whose text a placeholder supplies. -/
  | param (key : Placeholder)
deriving DecidableEq, Repr

/-- A table under a name of its own. -/
structure Source where
  /-- The table. -/
  table : String
  /-- The name that columns refer to. -/
  name : String
deriving DecidableEq, Repr

mutual

/-- A condition on a combination of rows. -/
inductive Condition where
  /-- Two expressions have the same value. -/
  | eq (left right : Expr)
  /-- A nested scan has a combination of its own. -/
  | exists (scan : Scan)

/-- Sources, conditions and what is projected, with labels. -/
structure Scan where
  /-- Where rows are drawn from. -/
  sources : List Source := []
  /-- What has to be true, all together. -/
  conditions : List Condition := []
  /-- What is projected, each expression under a label. -/
  projection : List (String × Expr) := []

end

instance : Inhabited Scan := ⟨{}⟩

/-! ### Substitution -/

/-- Expressions for placeholders; the first entry for a placeholder counts. -/
abbrev Bindings := List (Placeholder × Expr)

/-- An expression with placeholders replaced. -/
def Expr.substitute (b : Bindings) : Expr → Expr
  | .param key => (b.lookup key).getD (.param key)
  | e => e

mutual

/-- A condition with placeholders replaced. -/
def Condition.substitute (b : Bindings) : Condition → Condition
  | .eq left right => .eq (left.substitute b) (right.substitute b)
  | .exists scan => .exists (scan.substitute b)

/-- A scan with placeholders replaced. -/
def Scan.substitute (b : Bindings) : Scan → Scan
  | ⟨sources, conditions, projection⟩ =>
    ⟨sources, Condition.substituteAll b conditions,
      projection.map fun (label, e) ↦ (label, e.substitute b)⟩

/-- Conditions with placeholders replaced. -/
def Condition.substituteAll (b : Bindings) : List Condition → List Condition
  | [] => []
  | c :: cs => c.substitute b :: Condition.substituteAll b cs

end

@[simp] theorem Condition.substituteAll_eq_map (b : Bindings) (cs : List Condition) :
    Condition.substituteAll b cs = cs.map (Condition.substitute b) := by
  induction cs with
  | nil => rfl
  | cons c cs ih => simp [Condition.substituteAll, ih]

/-! ### Placeholders -/

/-- The placeholder that an expression is. -/
def Expr.placeholders : Expr → List Placeholder
  | .param key => [key]
  | _ => []

mutual

/-- The placeholders of the equation that a condition is. -/
def Condition.ownPlaceholders : Condition → List Placeholder
  | .eq left right => left.placeholders ++ right.placeholders
  | .exists _ => []

/-- The placeholders of the scan nested in a condition. -/
def Condition.nestedPlaceholders : Condition → List Placeholder
  | .eq _ _ => []
  | .exists scan => scan.placeholders

/-- All placeholders of a scan, with repeats: of the projection, then of its equations, then of the
nested scans. -/
def Scan.placeholders : Scan → List Placeholder
  | ⟨_, conditions, projection⟩ =>
    projection.flatMap (fun (_, e) ↦ e.placeholders) ++ Condition.ownPlaceholdersOf conditions
      ++ Condition.nestedPlaceholdersOf conditions

/-- The placeholders of all equations among conditions. -/
def Condition.ownPlaceholdersOf : List Condition → List Placeholder
  | [] => []
  | c :: cs => c.ownPlaceholders ++ Condition.ownPlaceholdersOf cs

/-- The placeholders of all scans nested in conditions. -/
def Condition.nestedPlaceholdersOf : List Condition → List Placeholder
  | [] => []
  | c :: cs => c.nestedPlaceholders ++ Condition.nestedPlaceholdersOf cs

end

/-! ### Size -/

mutual

/-- The largest number of sources of a scan nested in a condition. -/
def Condition.width : Condition → Nat
  | .eq _ _ => 0
  | .exists scan => scan.width

/-- The largest number of sources in one block of a scan. -/
def Scan.width : Scan → Nat
  | ⟨sources, conditions, _⟩ => max sources.length (Condition.widthOf conditions)

/-- The largest number of sources of the scans nested in conditions. -/
def Condition.widthOf : List Condition → Nat
  | [] => 0
  | c :: cs => max c.width (Condition.widthOf cs)

end

end HornQuery
