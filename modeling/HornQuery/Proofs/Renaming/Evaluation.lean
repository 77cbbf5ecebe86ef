import Mathlib
import HornQuery.Proofs.Encoding
import HornQuery.Proofs.Renaming.Fragments

/-!
# Renaming, and what the store sees of it

The store keeps a text in the rows of the symbol table only. Renaming a database changes these texts and
nothing else: numbers and facts stay as they are. So a renamed scan draws the same rows, apart from the
texts in them (`Database.draws_rename`), and the same conditions are true (`Scan.holds_rename`).

Together with renamed values for its placeholders, a renamed fragment has the result of the fragment
with its texts renamed (`Database.execute_rename`).
-/

namespace HornQuery

variable {ρ : Renaming}

/-! ### Cells and tables -/

/-- A cell with its text renamed. -/
def Cell.rename (ρ : Renaming) : Cell → Cell
  | .text s => .text (ρ.text s)
  | c => c

/-- Two cells are equal exactly if their new texts are. -/
theorem Cell.equals_rename (a b : Cell) : (a.rename ρ).equals (b.rename ρ) = a.equals b := by
  cases a <;> cases b <;> simp [Cell.rename, Cell.equals, ρ.text_injective.eq_iff]

/-- A table with its texts renamed. -/
def Table.rename (ρ : Renaming) (t : Table) : Table :=
  { t with rows := t.rows.map fun row ↦ row.map (Cell.rename ρ) }

/-- A database with its symbols renamed. -/
def Database.rename (ρ : Renaming) (db : Database) : Database :=
  { db with symbols := db.symbols.map fun r ↦ ⟨r.id, r.symbol.rename ρ⟩ }

/-- A store with its symbols renamed. -/
def Store.rename (ρ : Renaming) (s : Store) : Store := ⟨s.database.map (Database.rename ρ)⟩

namespace Database

theorem symbolTable_rename (db : Database) :
    (db.rename ρ).symbolTable = db.symbolTable.rename ρ := by
  simp [symbolTable, rename, Table.rename, Symbol.rename, Cell.rename, Function.comp_def]

/-- Facts are kept as numbers, so their tables stay the same. -/
theorem factTable_rename (db : Database) (arity : Nat) :
    (db.rename ρ).factTable arity = (db.factTable arity).rename ρ := by
  simp [factTable, factsOf, rename, Table.rename, Cell.rename, Function.comp_def]

/-- Whatever table a source refers to, its cells are renamed. -/
theorem sourceTable_rename (db : Database) (s : Source) :
    (db.rename ρ).sourceTable s = (db.sourceTable s).rename ρ := by
  have htable : (db.rename ρ).table? s.table = (db.table? s.table).map (Table.rename ρ) := by
    unfold table?
    split
    · simp [symbolTable_rename]
    · rw [Option.map_map, Function.comp_def]
      exact congrArg (Option.map · _) (funext fun arity ↦ db.factTable_rename arity)
  rw [sourceTable, sourceTable, htable]
  cases db.table? s.table <;> rfl

/-- A constant has the number that its new name has. -/
theorem constantId?_rename (db : Database) (text : String) :
    (db.rename ρ).constantId? (ρ.text text) = db.constantId? text := by
  simp only [constantId?, rename, List.find?_map, Function.comp_def, ← Symbol.rename_constant,
    Symbol.rename_inj, Option.map_map]

end Database

/-! ### Environments -/

/-- The environment with the texts in its columns renamed, and with other values for placeholders. The
values are given apart, since a placeholder need not be the new name of any other. -/
def Env.rename (ρ : Renaming) (param : Placeholder → Cell) (env : Env) : Env where
  column := fun source field ↦ (env.column source field).rename ρ
  param := param

/-- The values under the new names of placeholders are the renamed values. -/
def Env.Supplied (ρ : Renaming) (param : Placeholder → Cell) (env : Env) : Prop :=
  ∀ key : Placeholder, param (key.rename ρ) = (env.param key).rename ρ

variable {param : Placeholder → Cell} {env : Env}

/-- Binding a row and renaming commute. -/
theorem Env.bind_rename (env : Env) (name : String) (columns : List String) (row : List Cell) :
    (env.rename ρ param).bind name columns (row.map (Cell.rename ρ)) =
      (env.bind name columns row).rename ρ param := by
  have hlookup : ∀ field, ((columns.zip (row.map (Cell.rename ρ))).lookup field).getD .null =
      (((columns.zip row).lookup field).getD .null).rename ρ := by
    intro field
    have hzip := lookup_map Function.injective_id (Cell.rename ρ) (columns.zip row) field
    rw [← List.zip_map, List.map_id, id_eq] at hzip
    rw [hzip]
    cases (columns.zip row).lookup field <;> rfl
  simp only [Env.bind, Env.rename, Env.mk.injEq, and_true]
  funext source field
  split
  · exact hlookup field
  · rfl

/-- The value of a renamed expression is the renamed value. -/
theorem Expr.value_rename (h : env.Supplied ρ param) (e : Expr) :
    (e.rename ρ).value (env.rename ρ param) = (e.value env).rename ρ := by
  cases e with
  | column source field => rfl
  | int value => rfl
  | param key => exact h key

/-- From a renamed database, the same rows are drawn with their texts renamed. -/
theorem Database.draws_rename (db : Database) (sources : List Source) (env : Env) :
    (db.rename ρ).draws sources (env.rename ρ param) =
      (db.draws sources env).map (Env.rename ρ param) := by
  induction sources generalizing env with
  | nil => rfl
  | cons s rest ih =>
    simp only [draws, sourceTable_rename, Table.rename, List.flatMap_map, List.map_flatMap,
      Env.bind_rename, ih]

/-- Drawing rows does not touch the values of placeholders. -/
theorem Env.Supplied.of_mem_draws {db : Database} {sources : List Source} {e : Env}
    (h : env.Supplied ρ param) (he : e ∈ db.draws sources env) : e.Supplied ρ param := by
  intro key
  rw [Database.param_of_mem_draws he]
  exact h key

/-! ### Scans -/

mutual

/-- A condition holds exactly if the renamed one does in the renamed database. -/
theorem Condition.holds_rename {db : Database} {env : Env} (h : env.Supplied ρ param) :
    (c : Condition) → (c.rename ρ).holds (db.rename ρ) (env.rename ρ param) = c.holds db env
  | .eq left right => by
    simp only [Condition.rename, Condition.holds, Expr.value_rename h, Cell.equals_rename]
  | .exists scan => by
    simp only [Condition.rename, Condition.holds]
    exact scan.holds_rename h

/-- A renamed scan has a combination exactly if the scan has one. -/
theorem Scan.holds_rename {db : Database} {env : Env} (h : env.Supplied ρ param) :
    (s : Scan) → (s.rename ρ).holds (db.rename ρ) (env.rename ρ param) = s.holds db env
  | ⟨sources, conditions, projection⟩ => by
    simp only [Scan.rename, Scan.holds, Database.draws_rename, List.any_map]
    rw [Bool.eq_iff_iff]
    simp only [List.any_eq_true, Function.comp_apply]
    refine exists_congr fun e ↦ and_congr_right fun he ↦ ?_
    rw [Condition.holdAll_rename (h.of_mem_draws he) conditions]

theorem Condition.holdAll_rename {db : Database} {env : Env} (h : env.Supplied ρ param) :
    (cs : List Condition) → Condition.holdAll (db.rename ρ) (env.rename ρ param)
      (Condition.renameAll ρ cs) = Condition.holdAll db env cs
  | [] => rfl
  | c :: cs => by
    simp only [Condition.renameAll, Condition.holdAll]
    rw [c.holds_rename h, Condition.holdAll_rename h cs]

end

/-- A renamed scan has the rows of the scan with their texts renamed. -/
theorem Scan.rows_rename {db : Database} (h : env.Supplied ρ param) (s : Scan) :
    (s.rename ρ).rows (db.rename ρ) (env.rename ρ param) =
      (s.rows db env).map fun row ↦ row.map (Cell.rename ρ) := by
  obtain ⟨sources, conditions, projection⟩ := s
  have hfilter : ((db.draws sources env).filter fun e ↦ Condition.holdAll (db.rename ρ)
        (e.rename ρ param) (Condition.renameAll ρ conditions)) =
      (db.draws sources env).filter fun e ↦ Condition.holdAll db e conditions :=
    List.filter_congr fun e he ↦ Condition.holdAll_rename (h.of_mem_draws he) conditions
  simp only [Scan.rows, Scan.solutions, Scan.rename, Database.draws_rename, List.filter_map,
    Function.comp_def, hfilter, List.map_map]
  refine List.map_congr_left fun e he ↦ List.map_congr_left fun entry _ ↦ ?_
  exact Expr.value_rename (h.of_mem_draws (List.mem_filter.mp he).1) entry.2

/-! ### Execution -/

/-- Values for placeholders under their new names. -/
def renameValues (ρ : Renaming) (values : List (Placeholder × String)) :
    List (Placeholder × String) :=
  values.map (Prod.map (Placeholder.rename ρ) ρ.text)

/-- A placeholder's value is found under its new name. -/
theorem lookup_renameValues (values : List (Placeholder × String)) (key : Placeholder) :
    (renameValues ρ values).lookup (key.rename ρ) = (values.lookup key).map ρ.text :=
  lookup_map Placeholder.rename_injective ρ.text values key

namespace Database

variable (db : Database) (values : List (Placeholder × String))

/-- At the start, too, the values under new names are the renamed ones. -/
theorem startEnv_supplied :
    (db.startEnv values).Supplied ρ ((db.rename ρ).startEnv (renameValues ρ values)).param := by
  intro key
  have hid : ((renameValues ρ values).lookup (key.rename ρ)).bind (db.rename ρ).constantId? =
      (values.lookup key).bind db.constantId? := by
    rw [lookup_renameValues]
    cases values.lookup key with
    | none => rfl
    | some text => exact db.constantId?_rename text
  simp only [startEnv, hid]
  split <;> rfl

theorem startEnv_rename :
    (db.rename ρ).startEnv (renameValues ρ values) = (db.startEnv values).rename ρ
      ((db.rename ρ).startEnv (renameValues ρ values)).param := rfl

/-- A renamed fragment has the result of the fragment with its texts renamed. -/
theorem execute_rename (f : Fragment) :
    (db.rename ρ).execute (f.rename ρ) (renameValues ρ values) =
      (db.execute f values).map (Table.rename ρ) := by
  rw [execute_eq, execute_eq, Fragment.refusal?_rename]
  cases f.refusal? with
  | some e => rfl
  | none =>
    have hsupplied := db.startEnv_supplied (ρ := ρ) values
    rw [startEnv_rename]
    obtain ⟨scan, shape⟩ := f
    cases shape with
    | existence =>
      simp only [Fragment.rename, Shape.rename, Scan.holds_rename hsupplied]
      rfl
    | rows columns =>
      simp only [Fragment.rename, Shape.rename, Scan.rows_rename hsupplied, Scan.projection_rename,
        List.map_map]
      rfl

end Database

end HornQuery
