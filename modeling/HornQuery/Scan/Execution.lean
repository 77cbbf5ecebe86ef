import HornQuery.Scan.Depth
import HornQuery.Scan.Join

/-!
# Executing fragments

The store answers a fragment with a table: one cell that says whether there is a combination, or the
projected values of each solution. Placeholders take the numbers of the constants whose texts are
supplied for them.

A store may refuse a fragment before it looks at any row. What it refuses is not for this library to say,
and execution takes it as a parameter. `Fragment.refusal?` is the default.
-/

namespace HornQuery

/-- The largest number of sources that one block of a query may have. -/
def maxSources : Nat := 64

/-- How far the store follows the expressions of a query. -/
def maxDepth : Nat := 1000

/-- Why the store refuses to execute a fragment, by the two limits above. Other stores have other limits,
so this is a parameter of execution, and only the one that is used where nothing else is said. -/
def Fragment.refusal? (f : Fragment) : Option StorageError :=
  if maxDepth < f.depth then some (.tooDeep f.depth)
  else if maxSources < f.scan.width then some (.tooManySources f.scan.width)
  else none

/-- A fragment is executed exactly if it is neither too deep nor too wide. -/
theorem Fragment.refusal?_eq_none_iff (f : Fragment) :
    f.refusal? = none ↔ f.depth ≤ maxDepth ∧ f.scan.width ≤ maxSources := by
  unfold Fragment.refusal?
  split
  · simp; omega
  · split
    · simp; omega
    · simp; omega

namespace Database

/-- The environment in which a query starts: each placeholder has the number of the constant with the
text supplied for it, or no value if there is no such constant. -/
def startEnv (db : Database) (values : List (Placeholder × String)) : Env where
  column := fun _ _ ↦ .null
  param := fun key ↦
    match (values.lookup key).bind db.constantId? with
    | some id => .integer id
    | none => .null

/-- The result of a fragment: one cell that is 1 or 0, or the projected rows. There is none if the store
refuses the fragment, according to `refusal`. -/
def execute (db : Database) (f : Fragment) (values : List (Placeholder × String))
    (refusal : Fragment → Option StorageError := Fragment.refusal?) : Except StorageError Table :=
  match refusal f with
  | some e => .error e
  | none =>
    let env := db.startEnv values
    match f.shape with
    | .existence => .ok ⟨["holds"], [[.integer (if (f.scan.test db).holds env then 1 else 0)]]⟩
    | .rows _ =>
      let solutions := Join.all db f.scan.sources (Condition.tests db f.scan.conditions) env
      .ok ⟨f.scan.projection.map (·.1),
        solutions.map fun env ↦ f.scan.projection.map fun (_, e) ↦ e.value env⟩

/-- Execution answers with what the scan means. -/
theorem execute_eq (db : Database) (f : Fragment) (values : List (Placeholder × String))
    (refusal : Fragment → Option StorageError) :
    db.execute f values refusal =
      match refusal f with
      | some e => .error e
      | none =>
        match f.shape with
        | .existence =>
          .ok ⟨["holds"], [[.integer (if f.scan.holds db (db.startEnv values) then 1 else 0)]]⟩
        | .rows _ => .ok ⟨f.scan.projection.map (·.1), f.scan.rows db (db.startEnv values)⟩ := by
  simp only [execute, Scan.test_holds, Scan.rows, Scan.solutions_eq_join]

end Database

/-- The result of a fragment on a store. -/
def Store.query (s : Store) (f : Fragment) (values : List (Placeholder × String))
    (refusal : Fragment → Option StorageError := Fragment.refusal?) : Except StorageError Table :=
  match s.database with
  | none => .error (.missingTable Schema.symbolTable)
  | some db => db.execute f values refusal

end HornQuery
