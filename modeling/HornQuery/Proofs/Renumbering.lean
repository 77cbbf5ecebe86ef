import Mathlib
import HornQuery.Proofs.Answers
import HornQuery.Proofs.Renaming.Compilation
import HornQuery.Proofs.Reordering.Outlines

/-!
# Renumbering scopes

The aliases of a compiled query carry the number of the scope that it was compiled in, which counts the
scopes opened before. Nothing else of a query depends on that count: the same query compiled after some
more scopes is the same up to a permutation of the numbers (`Compiler.compileQuery_renumber`).

The permutation exchanges the numbers of the two scopes. Compilation commutes with it step by step,
because a scope makes all of its aliases from its own number (`Compiler.addGoals_renumber`), and the
fragments in the cache come from earlier scopes, whose numbers stay (`Compiler.Scoped.unmoved`).

A permutation of the numbers permutes the aliases, so the store draws the same rows under other names.
A renumbered query is therefore executed exactly like the query (`CompiledQuery.execute_renumber`).
-/

namespace HornQuery

open Scope (Owns Earlier tableAlias variableAlias)

variable {σ : Equiv.Perm Nat}

/-! ### Aliases -/

namespace Scope

/-- The number of the scope and the index that an alias carries. -/
def aliasNumbers (name : String) : Nat × Nat :=
  let digits := name.toList.tail
  (Nat.ofDigitChars 10 (digits.takeWhile (· != '_')) 0,
    Nat.ofDigitChars 10 (digits.dropWhile (· != '_')).tail 0)

/-- A name with the number of its scope changed if it is an alias, else the name itself. -/
def renumberAlias (σ : Equiv.Perm Nat) (name : String) : String :=
  let numbers := aliasNumbers name
  if name = tableAlias numbers.1 numbers.2 then tableAlias (σ numbers.1) numbers.2
  else if name = variableAlias numbers.1 numbers.2 then variableAlias (σ numbers.1) numbers.2
  else name

/-- The numbers of an alias can be read off it, since digits end at the underscore. -/
theorem aliasNumbers_eq {name : String} {kind : Char} {number index : Nat}
    (h : name.toList = kind :: (Nat.toDigits 10 number ++ '_' :: Nat.toDigits 10 index)) :
    aliasNumbers name = (number, index) := by
  have hdigits : ∀ d ∈ Nat.toDigits 10 number, (d != '_') = true := by
    intro d hd
    rw [bne_iff_ne]
    rintro rfl
    exact Nat.underscore_not_in_toDigits hd
  simp [aliasNumbers, h, List.takeWhile_append_of_pos hdigits, List.dropWhile_append_of_pos hdigits,
    Nat.ofDigitChars_ten_toDigits]

/-- Renumbering an alias changes the number of its scope and keeps its kind and index. -/
@[simp] theorem renumberAlias_tableAlias (σ : Equiv.Perm Nat) (number index : Nat) :
    renumberAlias σ (tableAlias number index) = tableAlias (σ number) index := by
  simp [renumberAlias, aliasNumbers_eq (toList_tableAlias number index)]

@[simp] theorem renumberAlias_variableAlias (σ : Equiv.Perm Nat) (number index : Nat) :
    renumberAlias σ (variableAlias number index) = variableAlias (σ number) index := by
  simp [renumberAlias, aliasNumbers_eq (toList_variableAlias number index)]

/-- Renumbering can be undone, on every name, because other names are left alone. -/
@[simp] theorem renumberAlias_symm (σ : Equiv.Perm Nat) (name : String) :
    renumberAlias σ.symm (renumberAlias σ name) = name := by
  have hcases : (∃ number index, name = tableAlias number index) ∨
      (∃ number index, name = variableAlias number index) ∨ ∀ τ, renumberAlias τ name = name := by
    by_cases htable : name = tableAlias (aliasNumbers name).1 (aliasNumbers name).2
    · exact Or.inl ⟨_, _, htable⟩
    · by_cases hvariable : name = variableAlias (aliasNumbers name).1 (aliasNumbers name).2
      · exact Or.inr (Or.inl ⟨_, _, hvariable⟩)
      · exact Or.inr (Or.inr fun τ ↦ by simp only [renumberAlias, if_neg htable, if_neg hvariable])
  obtain ⟨number, index, rfl⟩ | ⟨number, index, rfl⟩ | hsame := hcases
  · simp
  · simp
  · rw [hsame, hsame]

/-- In particular no two names become one. -/
theorem renumberAlias_eq_iff {name name' : String} :
    renumberAlias σ.symm name' = name ↔ name' = renumberAlias σ name := by
  have hinverse : renumberAlias σ (renumberAlias σ.symm name') = name' :=
    renumberAlias_symm σ.symm name'
  constructor
  · rintro rfl
    exact hinverse.symm
  · rintro rfl
    exact renumberAlias_symm σ name

/-- The aliases of a scope that keeps its number stay as they are. -/
theorem Owns.renumberAlias_eq {number : Nat} {name : String} (h : Owns number name)
    (hnumber : σ number = number) : renumberAlias σ name = name := by
  obtain ⟨index, rfl | rfl⟩ := h <;> simp [hnumber]

end Scope

open Scope (renumberAlias)

/-! ### Scans -/

/-- An expression with the number in its alias changed. -/
def Expr.renumber (σ : Equiv.Perm Nat) : Expr → Expr
  | .column source field => .column (renumberAlias σ source) field
  | e => e

/-- A source with the number in its alias changed. -/
def Source.renumber (σ : Equiv.Perm Nat) (s : Source) : Source := ⟨s.table, renumberAlias σ s.name⟩

mutual

/-- A condition with the numbers in its aliases changed. -/
def Condition.renumber (σ : Equiv.Perm Nat) : Condition → Condition
  | .eq left right => .eq (left.renumber σ) (right.renumber σ)
  | .exists scan => .exists (scan.renumber σ)

/-- A scan with the numbers in its aliases changed. -/
def Scan.renumber (σ : Equiv.Perm Nat) : Scan → Scan
  | ⟨sources, conditions, projection⟩ =>
    ⟨sources.map (Source.renumber σ), Condition.renumberAll σ conditions,
      projection.map (Prod.map id (Expr.renumber σ))⟩

/-- Conditions with the numbers in their aliases changed. -/
def Condition.renumberAll (σ : Equiv.Perm Nat) : List Condition → List Condition
  | [] => []
  | c :: cs => c.renumber σ :: Condition.renumberAll σ cs

end

@[simp] theorem Condition.renumberAll_eq_map (cs : List Condition) :
    Condition.renumberAll σ cs = cs.map (Condition.renumber σ) := by
  induction cs with
  | nil => rfl
  | cons c cs ih => simp [Condition.renumberAll, ih]

/-- Bindings with the numbers in their aliases changed. -/
def Bindings.renumber (σ : Equiv.Perm Nat) (b : Bindings) : Bindings :=
  b.map (Prod.map id (Expr.renumber σ))

/-- A fragment with the numbers in its aliases changed. -/
def Fragment.renumber (σ : Equiv.Perm Nat) (f : Fragment) : Fragment := ⟨f.scan.renumber σ, f.shape⟩

/-- A compiled query with the numbers in its aliases changed. -/
def CompiledQuery.renumber (σ : Equiv.Perm Nat) (q : CompiledQuery) : CompiledQuery :=
  { q with fragment := q.fragment.renumber σ }

theorem Bindings.lookup_renumber (b : Bindings) (key : Placeholder) :
    (b.renumber σ).lookup key = (b.lookup key).map (Expr.renumber σ) :=
  lookup_map Function.injective_id (Expr.renumber σ) b key

/-- Substitution commutes with renumbering. -/
theorem Expr.renumber_substitute (b : Bindings) (e : Expr) :
    (e.substitute b).renumber σ = (e.renumber σ).substitute (b.renumber σ) := by
  cases e with
  | column source field => rfl
  | int value => rfl
  | param key =>
    simp only [Expr.renumber, Expr.substitute, Bindings.lookup_renumber]
    cases b.lookup key <;> rfl

mutual

/-- Also inside nested scans, whose aliases are renumbered like all others. -/
theorem Condition.renumber_substitute (b : Bindings) :
    (c : Condition) → (c.substitute b).renumber σ = (c.renumber σ).substitute (b.renumber σ)
  | .eq left right => by
    simp only [Condition.substitute, Condition.renumber, Expr.renumber_substitute]
  | .exists scan => by
    simp only [Condition.substitute, Condition.renumber]
    rw [scan.renumber_substitute b]

/-- Placeholders may be replaced before or after the numbers are changed. -/
theorem Scan.renumber_substitute (b : Bindings) :
    (s : Scan) → (s.substitute b).renumber σ = (s.renumber σ).substitute (b.renumber σ)
  | ⟨sources, conditions, projection⟩ => by
    simp only [Scan.substitute, Scan.renumber, Scan.mk.injEq, true_and]
    refine ⟨Condition.renumberAll_substituteAll b conditions, ?_⟩
    rw [List.map_map, List.map_map]
    exact List.map_congr_left fun entry _ ↦ Prod.ext rfl (entry.2.renumber_substitute b)

theorem Condition.renumberAll_substituteAll (b : Bindings) :
    (cs : List Condition) → Condition.renumberAll σ (Condition.substituteAll b cs) =
      Condition.substituteAll (b.renumber σ) (Condition.renumberAll σ cs)
  | [] => rfl
  | c :: cs => by
    simp only [Condition.substituteAll, Condition.renumberAll]
    rw [c.renumber_substitute b, Condition.renumberAll_substituteAll b cs]

end

/-! ### Scans that stay as they are -/

/-- An expression stays as it is if the aliases that it may refer to do. -/
theorem Expr.renumber_eq_self {visible : List Source} {e : Expr} (he : e.WellScoped visible)
    (h : ∀ s ∈ visible, renumberAlias σ s.name = s.name) : e.renumber σ = e := by
  cases e with
  | column source field =>
    obtain ⟨s, hs, rfl, -⟩ := he
    exact congrArg (Expr.column · field) (h s hs)
  | int value => rfl
  | param key => rfl

mutual

/-- A condition stays as it is if, in addition, the aliases that it declares do. -/
theorem Condition.renumber_eq_self {outer : List Source}
    (h : ∀ s ∈ outer, renumberAlias σ s.name = s.name) :
    (c : Condition) → c.WellScoped outer → (∀ name ∈ c.declared, renumberAlias σ name = name) →
      c.renumber σ = c
  | .eq left right, hc, _ => by
    rw [Condition.renumber, Expr.renumber_eq_self hc.1 h, Expr.renumber_eq_self hc.2 h]
  | .exists scan, hc, hdeclared => by
    rw [Condition.renumber, scan.renumber_eq_self h hc hdeclared]

/-- A well scoped scan stays as it is if the aliases do that it declares and those around it. -/
theorem Scan.renumber_eq_self {outer : List Source}
    (h : ∀ s ∈ outer, renumberAlias σ s.name = s.name) :
    (s : Scan) → s.WellScoped outer → (∀ name ∈ s.declared, renumberAlias σ name = name) →
      s.renumber σ = s
  | ⟨sources, conditions, projection⟩, hs, hdeclared => by
    obtain ⟨-, -, hconditions, hprojection⟩ := hs
    rw [Scan.declared] at hdeclared
    have hsources : ∀ s ∈ sources, renumberAlias σ s.name = s.name := fun s hs ↦
      hdeclared _ (List.mem_append_left _ (List.mem_map_of_mem hs))
    have hvisible : ∀ s ∈ outer ++ sources, renumberAlias σ s.name = s.name := fun s hs ↦
      (List.mem_append.mp hs).elim (h s) (hsources s)
    simp only [Scan.renumber, Scan.mk.injEq]
    refine ⟨?_, ?_, ?_⟩
    · refine (List.map_congr_left fun s hs ↦ ?_).trans (List.map_id _)
      exact congrArg (Source.mk s.table) (hsources s hs)
    · exact Condition.renumberAll_eq_self hvisible conditions hconditions fun name hname ↦
        hdeclared name (List.mem_append_right _ hname)
    · refine (List.map_congr_left fun entry hentry ↦ ?_).trans (List.map_id _)
      exact Prod.ext rfl (Expr.renumber_eq_self (hprojection entry hentry) hvisible)

theorem Condition.renumberAll_eq_self {outer : List Source}
    (h : ∀ s ∈ outer, renumberAlias σ s.name = s.name) :
    (cs : List Condition) → Condition.AllWellScoped outer cs →
      (∀ name ∈ Condition.declaredIn cs, renumberAlias σ name = name) →
      Condition.renumberAll σ cs = cs
  | [], _, _ => rfl
  | c :: cs, hcs, hdeclared => by
    rw [Condition.declaredIn] at hdeclared
    rw [Condition.renumberAll,
      c.renumber_eq_self h hcs.1 fun name hname ↦ hdeclared name (List.mem_append_left _ hname),
      Condition.renumberAll_eq_self h cs hcs.2 fun name hname ↦
        hdeclared name (List.mem_append_right _ hname)]

end

/-- A scan stays as it is if the scopes that it comes from keep their numbers. -/
theorem Compiler.ScopedUpTo.renumber_eq {number : Nat} {scan : Scan}
    (h : Compiler.ScopedUpTo number scan) (hσ : ∀ m ≤ number, σ m = m) : scan.renumber σ = scan := by
  refine scan.renumber_eq_self (List.forall_mem_nil _) h.1 fun name hname ↦ ?_
  obtain ⟨m, hm, howns⟩ := h.2 name hname
  exact howns.renumberAlias_eq (hσ m (by omega))

/-! ### Outlines -/

/-- An outline has no aliases to renumber. -/
theorem Expr.outline_renumber (e : Expr) : (e.renumber σ).outline = e.outline := by
  cases e <;> rfl

mutual

theorem Condition.outline_renumber : (c : Condition) → (c.renumber σ).outline = c.outline
  | .eq left right => by
    simp only [Condition.renumber, Condition.outline, Expr.outline_renumber]
  | .exists scan => by
    simp only [Condition.renumber, Condition.outline]
    rw [scan.outline_renumber]

/-- So the outline of a scan stays as it is. -/
theorem Scan.outline_renumber : (s : Scan) → (s.renumber σ).outline = s.outline
  | ⟨sources, conditions, projection⟩ => by
    simp only [Scan.renumber, Scan.outline, Scan.mk.injEq, List.map_map]
    refine ⟨rfl, Condition.outlineAll_renumberAll conditions, ?_⟩
    exact List.map_congr_left fun entry _ ↦ Prod.ext rfl entry.2.outline_renumber

theorem Condition.outlineAll_renumberAll : (cs : List Condition) →
    Condition.outlineAll (Condition.renumberAll σ cs) = Condition.outlineAll cs
  | [] => rfl
  | c :: cs => by
    simp only [Condition.renumberAll, Condition.outlineAll]
    rw [c.outline_renumber, Condition.outlineAll_renumberAll cs]

end

/-- Renumbering leaves everything of a fragment that does not depend on aliases. -/
theorem Fragment.outline_renumber (f : Fragment) : (f.renumber σ).outline = f.outline :=
  congrArg (Fragment.mk · f.shape) f.scan.outline_renumber

/-! ### Evaluation -/

/-- The environment in which the columns have renumbered aliases. -/
def Env.renumber (σ : Equiv.Perm Nat) (env : Env) : Env :=
  { env with column := fun name ↦ env.column (renumberAlias σ.symm name) }

/-- Binding a row under a renumbered alias renumbers the environment. -/
theorem Env.bind_renumber (env : Env) (name : String) (columns : List String) (row : List Cell) :
    (env.renumber σ).bind (renumberAlias σ name) columns row =
      (env.bind name columns row).renumber σ := by
  simp only [Env.bind, Env.renumber, Env.mk.injEq, and_true]
  funext source field
  simp only [Scope.renumberAlias_eq_iff]

/-- A renumbered expression finds its value in the renumbered environment. -/
theorem Expr.value_renumber (env : Env) (e : Expr) :
    (e.renumber σ).value (env.renumber σ) = e.value env := by
  cases e with
  | column source field =>
    simp only [Expr.renumber, Expr.value, Env.renumber, Scope.renumberAlias_symm]
  | int value => rfl
  | param key => rfl

/-- The same rows are drawn under renumbered aliases. -/
theorem Database.draws_renumber (db : Database) (sources : List Source) (env : Env) :
    db.draws (sources.map (Source.renumber σ)) (env.renumber σ) =
      (db.draws sources env).map (Env.renumber σ) := by
  induction sources generalizing env with
  | nil => rfl
  | cons s rest ih =>
    have htable : db.sourceTable (s.renumber σ) = db.sourceTable s := rfl
    simp only [List.map_cons, draws, htable, List.map_flatMap, ← ih, ← Env.bind_renumber]
    rfl

mutual

/-- So a renumbered condition holds exactly if the condition does. -/
theorem Condition.holds_renumber (db : Database) (env : Env) :
    (c : Condition) → (c.renumber σ).holds db (env.renumber σ) = c.holds db env
  | .eq left right => by
    simp only [Condition.renumber, Condition.holds, Expr.value_renumber]
  | .exists scan => by
    simp only [Condition.renumber, Condition.holds]
    exact scan.holds_renumber db env

/-- A renumbered scan has a combination exactly if the scan has one. -/
theorem Scan.holds_renumber (db : Database) (env : Env) :
    (s : Scan) → (s.renumber σ).holds db (env.renumber σ) = s.holds db env
  | ⟨sources, conditions, projection⟩ => by
    simp only [Scan.renumber, Scan.holds, Database.draws_renumber, List.any_map]
    refine congrArg (List.any _) (funext fun e ↦ ?_)
    exact Condition.holdAll_renumber db e conditions

theorem Condition.holdAll_renumber (db : Database) (env : Env) :
    (cs : List Condition) → Condition.holdAll db (env.renumber σ) (Condition.renumberAll σ cs) =
      Condition.holdAll db env cs
  | [] => rfl
  | c :: cs => by
    simp only [Condition.renumberAll, Condition.holdAll]
    rw [c.holds_renumber db env, Condition.holdAll_renumber db env cs]

end

/-- A renumbered scan has the rows of the scan. -/
theorem Scan.rows_renumber (db : Database) (env : Env) (s : Scan) :
    (s.renumber σ).rows db (env.renumber σ) = s.rows db env := by
  obtain ⟨sources, conditions, projection⟩ := s
  have hfilter : (fun e : Env ↦ Condition.holdAll db (e.renumber σ)
      (Condition.renumberAll σ conditions)) = fun e ↦ Condition.holdAll db e conditions :=
    funext fun e ↦ Condition.holdAll_renumber db e conditions
  simp only [Scan.rows, Scan.solutions, Scan.renumber, Database.draws_renumber, List.filter_map,
    Function.comp_def, hfilter, List.map_map, Prod.map_snd, Expr.value_renumber]

/-- Executing a fragment does not depend on the numbers in its aliases. -/
theorem Database.execute_renumber (db : Database) (f : Fragment)
    (values : List (Placeholder × String)) :
    db.execute (f.renumber σ) values = db.execute f values := by
  -- No column has a value when a query starts, so there is nothing to rename.
  have hstart : db.startEnv values = (db.startEnv values).renumber σ := rfl
  rw [execute_eq, execute_eq, Fragment.refusal?_eq_of_outline f.outline_renumber]
  obtain ⟨scan, shape⟩ := f
  have hlabels : (scan.renumber σ).projection.map Prod.fst = scan.projection.map Prod.fst := by
    obtain ⟨sources, conditions, projection⟩ := scan
    simp [Scan.renumber, Function.comp_def]
  have hholds : (scan.renumber σ).holds db (db.startEnv values) =
      scan.holds db (db.startEnv values) := by
    rw [hstart, scan.holds_renumber, ← hstart]
  have hrows : (scan.renumber σ).rows db (db.startEnv values) =
      scan.rows db (db.startEnv values) := by
    rw [hstart, scan.rows_renumber, ← hstart]
  simp only [Fragment.renumber, hholds, hrows, hlabels]

/-- **A renumbered query is executed like the query**, on every store and with all that is logged. -/
theorem CompiledQuery.execute_renumber (q : CompiledQuery) (config : Config) (store : Store)
    (text : String) : (q.renumber σ).execute config store text = q.execute config store text := by
  have horder : (q.fragment.renumber σ).order = q.fragment.order :=
    Fragment.order_eq_of_outline q.fragment.outline_renumber
  have hquery : ∀ values, store.query (q.fragment.renumber σ) values =
      store.query q.fragment values := by
    intro values
    rcases store with ⟨_ | db⟩
    · rfl
    · exact db.execute_renumber q.fragment values
  simp only [execute, renumber, horder, hquery]
  rfl

/-- An outcome without its SQL. -/
def Outcome.withoutSql (o : Outcome) : Outcome := { o with sql := none }

/-! ### Scopes -/

namespace Scope

/-- A scope under another number. -/
def renumber (σ : Equiv.Perm Nat) (s : Scope) : Scope :=
  { s with
    number := σ s.number
    sources := s.sources.map (Source.renumber σ)
    conditions := s.conditions.map (Condition.renumber σ) }

variable (s : Scope)

theorem require_renumber (c : Condition) :
    (s.renumber σ).require (c.renumber σ) = (s.require c).renumber σ := by
  simp [require, renumber]

theorem equate_renumber (left right : Expr) :
    (s.renumber σ).equate (left.renumber σ) (right.renumber σ) = (s.equate left right).renumber σ :=
  s.require_renumber (.eq left right)

/-- A renumbered scope gives renumbered aliases to its tables. -/
theorem addTable_renumber (arity : Nat) :
    (s.renumber σ).addTable arity =
      Prod.map (renumberAlias σ) (renumber σ) (s.addTable arity) := by
  simp [addTable, renumber, Source.renumber]

/-- And to its variables. -/
theorem idOf_renumber (name : String) :
    (s.renumber σ).idOf name = Prod.map (Expr.renumber σ) (renumber σ) (s.idOf name) := by
  simp only [idOf, renumber]
  cases s.vars.idxOf? name with
  | some i => simp [Expr.renumber, renumber]
  | none => simp [Expr.renumber, Source.renumber, Condition.renumber, renumber]

theorem columnsFor_renumber (names : List String) :
    (s.renumber σ).columnsFor names =
      (s.columnsFor names).map (Prod.map id (renumberAlias σ)) := by
  simp only [columnsFor, renumber, List.map_filterMap, Option.map_map, Function.comp_def,
    Prod.map_apply, id_eq, renumberAlias_variableAlias]

/-- The projection refers to renumbered aliases, under the same labels. -/
theorem finish_renumber (names : List String) :
    (s.renumber σ).finish names = (s.finish names).renumber σ := by
  have hnames : ((s.columnsFor names).map (Prod.map id (renumberAlias σ))).map Prod.fst =
      (s.columnsFor names).map Prod.fst := by
    rw [List.map_map]
    rfl
  simp only [finish, columnsFor_renumber, Fragment.renumber, Scan.renumber,
    Condition.renumberAll_eq_map, List.isEmpty_map, hnames, List.zipIdx_map, List.map_map]
  rfl

end Scope

/-! ### Compilation -/

namespace Compiler

variable {c : Compiler} {rule : Option Rule}

/-- The second result is the first with other numbers, or both are the same error. -/
abbrev RenumbersTo {α : Type} (f : α → α) : Except CompileError α → Except CompileError α → Prop :=
  Alike Eq fun a a' ↦ a' = f a

/-- Being the same error or the renumbered value is being the renumbered result. -/
theorem RenumbersTo.eq_map {α : Type} {f : α → α} {x x' : Except CompileError α}
    (h : RenumbersTo f x x') : x' = x.map f := by
  obtain h | rfl := h
  · rw [h]
    rfl
  · rfl

/-- The cached fragments keep their aliases. -/
def Unmoved (c : Compiler) (σ : Equiv.Perm Nat) : Prop :=
  ∀ key fragment, c.fragment? key = some fragment → fragment.scan.renumber σ = fragment.scan

/-- A permutation that fixes the scopes opened so far leaves the cache as it is. -/
theorem Scoped.unmoved (h : c.Scoped) (hσ : ∀ m ≤ c.scopes, σ m = m) : c.Unmoved σ :=
  fun _ _ hfragment ↦ (h.fragment hfragment).renumber_eq hσ

section

variable (m n : Nat) (s : Scope)

theorem literal_renumber (text : String) :
    RenumbersTo (Expr.renumber σ) ((c.later m).literal text) ((c.later n).literal text) := by
  have hsame : (c.later n).literal text = (c.later m).literal text := rfl
  rw [hsame, literal]
  cases (c.later m).symbols.constant? text with
  | some id => exact .ok rfl
  | none => exact .error rfl

/-- An argument in a renumbered scope has the renumbered value. -/
theorem argument_renumber (t : Term) :
    RenumbersTo (Prod.map (Expr.renumber σ) (Scope.renumber σ)) ((c.later m).argument rule s t)
      ((c.later n).argument rule (s.renumber σ) t) := by
  cases t with
  | var name =>
    simp only [argument]
    cases rule.filter (·.isParam name) with
    | some r => exact .ok rfl
    | none => exact .ok (s.idOf_renumber name)
  | param name => exact .ok rfl
  | const text => exact (literal_renumber m n text).map fun _ _ heq ↦ by rw [heq]; rfl

/-- Columns are matched under the renumbered alias of their table. -/
theorem matchColumns_renumber (source : String) (position : Nat) (ts : List Term) :
    RenumbersTo (Scope.renumber σ) ((c.later m).matchColumns rule source position ts s)
      ((c.later n).matchColumns rule (renumberAlias σ source) position ts (s.renumber σ)) := by
  induction ts generalizing position s with
  | nil => exact .ok rfl
  | cons t ts ih =>
    rw [matchColumns, matchColumns]
    refine (argument_renumber m n s t).bind ?_
    rintro ⟨value, s⟩ _ rfl
    have hrest := ih (s.equate (.column source (Schema.argColumn position)) value) (position + 1)
    rw [← s.equate_renumber] at hrest
    exact hrest

/-- A goal on facts adds a table whose alias has the other number. -/
theorem addFacts_renumber (g : Goal) :
    RenumbersTo (Scope.renumber σ) ((c.later m).addFacts rule s g)
      ((c.later n).addFacts rule (s.renumber σ) g) := by
  have hid : (c.later n).symbols.get? g.symbol =
      (c.later m).symbols.get? g.symbol := rfl
  rw [addFacts, addFacts, hid]
  cases (c.later m).symbols.get? g.symbol with
  | none => exact .error rfl
  | some id =>
    simp only [s.addTable_renumber, Prod.map_fst, Prod.map_snd]
    have hfunctor : ((s.addTable g.args.length).2.renumber σ).equate
        (.column (renumberAlias σ (s.addTable g.args.length).1) Schema.functorColumn) (.int id) =
      ((s.addTable g.args.length).2.equate
        (.column (s.addTable g.args.length).1 Schema.functorColumn) (.int id)).renumber σ :=
      (s.addTable g.args.length).2.equate_renumber
        (.column (s.addTable g.args.length).1 Schema.functorColumn) (.int id)
    rw [hfunctor]
    exact matchColumns_renumber m n _ _ 1 g.args

/-- What a head binds is renumbered, because it comes from the scope. -/
theorem matchHead_renumber (key : Symbol) (pairs : List (Term × Term)) (b : Bindings) :
    RenumbersTo (Prod.map (Bindings.renumber σ) (Scope.renumber σ)) ((c.later m).matchHead rule key pairs b s)
      ((c.later n).matchHead rule key pairs (b.renumber σ) (s.renumber σ)) := by
  induction pairs generalizing b s with
  | nil => exact .ok rfl
  | cons pair pairs ih =>
    obtain ⟨head, arg⟩ := pair
    rw [matchHead, matchHead]
    refine (argument_renumber m n s arg).bind ?_
    rintro ⟨value, s⟩ _ rfl
    cases head with
    | var name =>
      simp only [Prod.map_apply, b.lookup_renumber]
      cases b.lookup (.rule key name) with
      | some previous =>
        have hrest := ih (s.equate previous value) b
        rw [← s.equate_renumber] at hrest
        exact hrest
      | none =>
        have happend : (b ++ [(.rule key name, value)] : Bindings).renumber σ =
            b.renumber σ ++ [(.rule key name, value.renumber σ)] := List.map_append
        have hrest := ih s (b ++ [(.rule key name, value)])
        rw [happend] at hrest
        exact hrest
    | const text =>
      refine (literal_renumber (σ := σ) m n text).bind ?_
      rintro expected _ rfl
      have hrest := ih (s.equate value expected) b
      rw [← s.equate_renumber] at hrest
      exact hrest
    | param name => exact ih s b

/-- A rule whose fragment keeps its aliases is used in the same way. -/
theorem addRule_renumber (g : Goal) {fragment : Fragment}
    (hfragment : fragment.scan.renumber σ = fragment.scan) :
    RenumbersTo (Scope.renumber σ) ((c.later m).addRule rule s g fragment)
      ((c.later n).addRule rule (s.renumber σ) g fragment) := by
  have hcallee : (c.later n).program.rule? g.symbol = (c.later m).program.rule? g.symbol :=
    rfl
  rw [addRule, addRule, hcallee]
  cases (c.later m).program.rule? g.symbol with
  | none => exact .error rfl
  | some callee =>
    refine (matchHead_renumber m n s g.symbol _ []).bind ?_
    rintro ⟨b, s⟩ _ rfl
    refine .ok ?_
    rw [← s.require_renumber, Condition.renumber, Scan.renumber_substitute, hfragment]

/-- A goal on a rule nests a scan of the cache, whose own aliases are not moved. -/
theorem addGoal_renumber (h : c.Unmoved σ) (g : Goal) :
    RenumbersTo (Scope.renumber σ) ((c.later m).addGoal rule s g)
      ((c.later n).addGoal rule (s.renumber σ) g) := by
  have hcached : ∀ k, (c.later k).fragment? g.symbol = c.fragment? g.symbol := fun _ ↦ rfl
  have hfailures : ∀ k, (c.later k).failures = c.failures := fun _ ↦ rfl
  have hprogram : ∀ k, (c.later k).program = c.program := fun _ ↦ rfl
  simp only [addGoal, hcached, hfailures, hprogram]
  cases hfragment : c.fragment? g.symbol with
  | some fragment => exact addRule_renumber m n s g (h _ _ hfragment)
  | none =>
    cases c.failures.lookup g.symbol with
    | some reason => exact .error rfl
    | none =>
      split_ifs
      · exact .error rfl
      · exact addFacts_renumber m n s g
      · cases c.program.definedArities g.functor with
        | nil => exact .error rfl
        | cons arity arities => exact .error rfl

/-- **Goals added under another number** give the same conditions with other aliases. -/
theorem addGoals_renumber (h : c.Unmoved σ) (goals : List Goal) :
    RenumbersTo (Scope.renumber σ) ((c.later m).addGoals rule goals s)
      ((c.later n).addGoals rule goals (s.renumber σ)) := by
  induction goals generalizing s with
  | nil => exact .ok rfl
  | cons g goals ih =>
    rw [addGoals, addGoals]
    refine (addGoal_renumber m n s h g).bind ?_
    rintro s _ rfl
    exact ih s

end

/-- Goals that are compiled later give the fragment with the numbers of the two scopes exchanged. -/
theorem compileGoals_renumber (hc : c.Scoped) (m n : Nat) (goals : List Goal) (names : List String) :
    RenumbersTo (Fragment.renumber (Equiv.swap (c.scopes + m + 1) (c.scopes + n + 1)))
      ((c.later m).compileGoals rule goals names).2 ((c.later n).compileGoals rule goals names).2 := by
  have hopen : (c.later n).openScope.1 =
      (c.later m).openScope.1.renumber (Equiv.swap (c.scopes + m + 1) (c.scopes + n + 1)) :=
    congrArg (Scope.mk · 0 [] [] []) (Equiv.swap_apply_left _ _).symm
  have hunmoved : c.Unmoved (Equiv.swap (c.scopes + m + 1) (c.scopes + n + 1)) :=
    hc.unmoved fun k hk ↦ Equiv.swap_apply_of_ne_of_ne (by omega) (by omega)
  have hgoals : RenumbersTo (Scope.renumber (Equiv.swap (c.scopes + m + 1) (c.scopes + n + 1)))
      ((c.later m).openScope.2.addGoals rule goals (c.later m).openScope.1)
      ((c.later n).openScope.2.addGoals rule goals (c.later n).openScope.1) := by
    rw [hopen]
    exact addGoals_renumber (m + 1) (n + 1) _ hunmoved goals
  exact hgoals.map fun s _ heq ↦ by rw [heq, s.finish_renumber]

/-- A query from the cache keeps its aliases, like the cache itself. -/
theorem reuse_renumber (h : c.Unmoved σ) {g : Goal} {compiled : CompiledQuery}
    (hreuse : c.reuse g = some compiled) : compiled.renumber σ = compiled := by
  obtain ⟨r, m, fragment, -, hm, hfragment, rfl⟩ := reuse_eq_some hreuse
  have hexternal : Bindings.renumber σ m.external = m.external := by
    refine (List.map_congr_left ?_).trans (List.map_id _)
    rintro ⟨key, e⟩ hentry
    obtain ⟨name, rfl⟩ := HeadMatch.external_isParam hm _ hentry
    rfl
  simp only [CompiledQuery.renumber, Fragment.renumber, Scan.renumber_substitute,
    h _ _ hfragment, hexternal]

/-- **Opened scopes show only in the aliases.** A query that is compiled later is the same up to an
exchange of two numbers, or the same error. -/
theorem compileQuery_renumber (hc : c.Scoped) (m n : Nat) (q : Query) :
    ((c.later n).compileQuery q).2 = ((c.later m).compileQuery q).2.map
      (CompiledQuery.renumber (Equiv.swap (c.scopes + m + 1) (c.scopes + n + 1))) := by
  have hsame : (c.later n).reuse? ((c.later n).policy.select q.goals) =
      (c.later m).reuse? ((c.later m).policy.select q.goals) := rfl
  obtain ⟨cached, hreuse, hm⟩ | ⟨hreuse, hm⟩ := (c.later m).compileQuery_cases q <;>
    obtain ⟨cached', hreuse', hn⟩ | ⟨hreuse', hn⟩ := (c.later n).compileQuery_cases q <;>
    rw [hsame, hreuse] at hreuse'
  · obtain rfl := Option.some.inj hreuse'
    obtain ⟨g, -, -, -, hg⟩ := reuse?_eq_some hreuse
    have hkept := reuse_renumber (c := c) (σ := Equiv.swap (c.scopes + m + 1) (c.scopes + n + 1))
      (hc.unmoved fun k hk ↦ Equiv.swap_apply_of_ne_of_ne (by omega) (by omega)) hg
    rw [hm, hn, Except.map, hkept]
  · cases hreuse'
  · cases hreuse'
  · rw [hm, hn]
    exact RenumbersTo.eq_map ((compileGoals_renumber hc m n (c.policy.select q.goals)
      (Goal.varsOf (c.policy.select q.goals))).map fun fragment _ heq ↦ by rw [heq]; rfl)

/-- Opened scopes do not show in the answer, apart from the SQL. -/
theorem answer_renumber (hc : c.Scoped) (m n : Nat) (config : Config) (store : Store) (q : Query) :
    ((c.later n).answer config store q).outcomes.map (List.map Outcome.withoutSql) =
      ((c.later m).answer config store q).outcomes.map (List.map Outcome.withoutSql) := by
  have hresult := compileQuery_renumber hc m n q
  obtain ⟨-, ⟨e, hm, hanswer⟩ | ⟨compiled, sql, hm, hanswer⟩⟩ :=
    (c.later m).answer_cases config store q <;>
    obtain ⟨-, ⟨e', hn, hanswer'⟩ | ⟨compiled', sql', hn, hanswer'⟩⟩ :=
      (c.later n).answer_cases config store q <;>
    rw [hm, hn] at hresult
  · obtain rfl := Except.error.inj hresult
    rw [hanswer, hanswer']
  · cases hresult
  · cases hresult
  · obtain rfl := Except.ok.inj hresult
    rw [hanswer, hanswer', CompiledQuery.execute_renumber]
    cases (compiled.execute config store q.text).answer <;> rfl

end Compiler

end HornQuery
