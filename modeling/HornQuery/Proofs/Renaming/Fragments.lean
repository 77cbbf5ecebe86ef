import Mathlib
import HornQuery.Program
import HornQuery.Scan.Execution

/-!
# Renaming, and what SQL sees of it

A renaming gives other names to texts, variables and parameters, different ones to different names. It
acts on everything that is built from names: on goals and facts, on the placeholders of a scan, and on
the columns that a fragment asks for.

SQL sees nothing of it. Placeholders are numbered by the order in which they are met, and an injective
renaming keeps that order (`Fragment.order_rename`), so a fragment and its renaming have the same text
(`Fragment.sql_rename`) and the same size (`Fragment.refusal?_rename`).
-/

namespace HornQuery

/-- Other names for texts, for variables and for parameters. -/
structure Renaming where
  /-- The new text of a relation's name or a constant. -/
  text : String → String
  /-- The new name of a variable. -/
  var : String → String
  /-- The new name of a parameter. -/
  param : String → String
  /-- Different texts stay different. -/
  text_injective : Function.Injective text
  /-- Different variables stay different. -/
  var_injective : Function.Injective var
  /-- Different parameters stay different. -/
  param_injective : Function.Injective param

/-- Everything keeps its name. -/
protected def Renaming.refl : Renaming :=
  ⟨id, id, id, Function.injective_id, Function.injective_id, Function.injective_id⟩

/-! ### Lists under an injective map -/

section Lists

variable {α β γ δ : Type} [DecidableEq α] [DecidableEq β] {f : α → β}

theorem idxOf?_map (hf : Function.Injective f) (l : List α) (a : α) :
    (l.map f).idxOf? (f a) = l.idxOf? a := by
  induction l with
  | nil => rfl
  | cons b l ih => simp only [List.map_cons, List.idxOf?_cons, beq_iff_eq, hf.eq_iff, ih]

theorem idxOf_map (hf : Function.Injective f) (l : List α) (a : α) :
    (l.map f).idxOf (f a) = l.idxOf a := by
  induction l with
  | nil => rfl
  | cons b l ih => simp only [List.map_cons, List.idxOf_cons, beq_eq_decide, hf.eq_iff, ih]

theorem lookup_cons_ite (entry : α × γ) (l : List (α × γ)) (a : α) :
    (entry :: l).lookup a = if a = entry.1 then some entry.2 else l.lookup a := by
  obtain ⟨b, c⟩ := entry
  rw [List.lookup_cons, beq_eq_decide]
  by_cases h : a = b <;> simp [h]

/-- What an injective map does to the keys does not change what is found. -/
theorem lookup_map (hf : Function.Injective f) (g : γ → δ) (l : List (α × γ)) (a : α) :
    (l.map (Prod.map f g)).lookup (f a) = (l.lookup a).map g := by
  induction l with
  | nil => rfl
  | cons entry l ih =>
    simp only [List.map_cons, lookup_cons_ite, Prod.map_fst, Prod.map_snd, hf.eq_iff, ih]
    split <;> rfl

/-- Nothing becomes a repeat under an injective map. -/
theorem Distinct.append_map (hf : Function.Injective f) (s t : List α) :
    Distinct.append (s.map f) (t.map f) = (Distinct.append s t).map f := by
  induction t generalizing s with
  | nil => rfl
  | cons a t ih =>
    have hinsert : Distinct.insert (s.map f) (f a) = (Distinct.insert s a).map f := by
      simp only [Distinct.insert, List.mem_map_of_injective hf]
      split <;> simp
    rw [List.map_cons, Distinct.append_cons, Distinct.append_cons, hinsert, ih]

/-- So a list without repeats is made in the same order. -/
theorem Distinct.ofList_map (hf : Function.Injective f) (t : List α) :
    Distinct.ofList (t.map f) = (Distinct.ofList t).map f :=
  Distinct.append_map hf [] t

end Lists

variable {ρ : Renaming}

/-! ### Programs -/

/-- A symbol under its new text. -/
def Symbol.rename (ρ : Renaming) (s : Symbol) : Symbol := ⟨ρ.text s.text, s.arity⟩

/-- Symbols stay apart, because texts do and arities are kept. -/
theorem Symbol.rename_injective : Function.Injective (Symbol.rename ρ) := by
  rintro ⟨text, arity⟩ ⟨text', arity'⟩ h
  simp only [Symbol.rename, Symbol.mk.injEq, ρ.text_injective.eq_iff] at h
  rw [h.1, h.2]

@[simp] theorem Symbol.rename_inj {s s' : Symbol} : s.rename ρ = s'.rename ρ ↔ s = s' :=
  Symbol.rename_injective.eq_iff

@[simp] theorem Symbol.rename_constant (text : String) :
    (Symbol.constant text).rename ρ = .constant (ρ.text text) := rfl

/-- A term under its new name. -/
def Term.rename (ρ : Renaming) : Term → Term
  | .var name => .var (ρ.var name)
  | .const text => .const (ρ.text text)
  | .param name => .param (ρ.param name)

/-- Terms stay apart, because each kind has new names of its own. -/
theorem Term.rename_injective : Function.Injective (Term.rename ρ) := by
  intro t t' h
  cases t <;> cases t' <;> simp only [Term.rename, reduceCtorEq, var.injEq, const.injEq,
    param.injEq, ρ.var_injective.eq_iff, ρ.text_injective.eq_iff, ρ.param_injective.eq_iff] at h <;>
    rw [h]

@[simp] theorem Term.isVar_rename (t : Term) : (t.rename ρ).isVar = t.isVar := by
  cases t <;> rfl

/-- The variables of terms are listed in the same order, under their new names. -/
theorem Term.vars_rename (ts : List Term) :
    Term.vars (ts.map (Term.rename ρ)) = (Term.vars ts).map ρ.var := by
  have hname : ∀ t : Term, (t.rename ρ).varName? = t.varName?.map ρ.var := by
    intro t
    cases t <;> rfl
  rw [Term.vars, Term.vars, ← Distinct.ofList_map ρ.var_injective, List.filterMap_map,
    List.map_filterMap]
  exact congrArg Distinct.ofList (List.filterMap_congr fun t _ ↦ hname t)

/-- A goal under new names. -/
def Goal.rename (ρ : Renaming) (g : Goal) : Goal := ⟨ρ.text g.functor, g.args.map (Term.rename ρ)⟩

/-- A goal keeps its arity. -/
@[simp] theorem Goal.symbol_rename (g : Goal) : (g.rename ρ).symbol = g.symbol.rename ρ := by
  simp [Goal.rename, Goal.symbol, Symbol.rename]

/-- The same holds of the variables of goals. -/
theorem Goal.varsOf_rename (goals : List Goal) :
    Goal.varsOf (goals.map (Goal.rename ρ)) = (Goal.varsOf goals).map ρ.var := by
  rw [Goal.varsOf, Goal.varsOf, ← Distinct.ofList_map ρ.var_injective, List.flatMap_map,
    List.map_flatMap]
  exact congrArg Distinct.ofList (List.flatMap_congr fun g _ ↦ Term.vars_rename g.args)

/-- A fact under new names. -/
def Fact.rename (ρ : Renaming) (f : Fact) : Fact := ⟨ρ.text f.functor, f.args.map ρ.text⟩

@[simp] theorem Fact.symbol_rename (f : Fact) : (f.rename ρ).symbol = f.symbol.rename ρ := by
  simp [Fact.rename, Fact.symbol, Symbol.rename]

/-- A rule under new names. -/
def Rule.rename (ρ : Renaming) (r : Rule) : Rule :=
  ⟨ρ.text r.name, r.head.map (Term.rename ρ), r.body.map (Goal.rename ρ)⟩

/-! ### Scans -/

/-- A placeholder under its new name. -/
def Placeholder.rename (ρ : Renaming) : Placeholder → Placeholder
  | .rule key name => .rule (key.rename ρ) (ρ.var name)
  | .external name => .external (ρ.param name)

/-- Head variables and parameters stay apart, and so do those of different rules. -/
theorem Placeholder.rename_injective : Function.Injective (Placeholder.rename ρ) := by
  intro k k' h
  cases k <;> cases k' <;> simp only [Placeholder.rename, reduceCtorEq, rule.injEq, external.injEq,
    Symbol.rename_inj, ρ.var_injective.eq_iff, ρ.param_injective.eq_iff] at h
  · rw [h.1, h.2]
  · rw [h]

/-- An expression with its placeholder renamed. -/
def Expr.rename (ρ : Renaming) : Expr → Expr
  | .param key => .param (key.rename ρ)
  | e => e

mutual

/-- A condition with its placeholders renamed. -/
def Condition.rename (ρ : Renaming) : Condition → Condition
  | .eq left right => .eq (left.rename ρ) (right.rename ρ)
  | .exists scan => .exists (scan.rename ρ)

/-- A scan with its placeholders renamed. -/
def Scan.rename (ρ : Renaming) : Scan → Scan
  | ⟨sources, conditions, projection⟩ =>
    ⟨sources, Condition.renameAll ρ conditions, projection.map (Prod.map id (Expr.rename ρ))⟩

/-- Conditions with their placeholders renamed. -/
def Condition.renameAll (ρ : Renaming) : List Condition → List Condition
  | [] => []
  | c :: cs => c.rename ρ :: Condition.renameAll ρ cs

end

@[simp] theorem Condition.renameAll_eq_map (cs : List Condition) :
    Condition.renameAll ρ cs = cs.map (Condition.rename ρ) := by
  induction cs with
  | nil => rfl
  | cons c cs ih => simp [Condition.renameAll, ih]

@[simp] theorem Scan.projection_rename (s : Scan) :
    (s.rename ρ).projection = s.projection.map (Prod.map id (Expr.rename ρ)) := by
  cases s
  rfl

/-- Bindings under the new names of their placeholders. -/
def Bindings.rename (ρ : Renaming) (b : Bindings) : Bindings :=
  b.map (Prod.map (Placeholder.rename ρ) (Expr.rename ρ))

/-- A placeholder's expression is found under its new name. -/
theorem Bindings.lookup_rename (b : Bindings) (key : Placeholder) :
    (b.rename ρ).lookup (key.rename ρ) = (b.lookup key).map (Expr.rename ρ) :=
  lookup_map Placeholder.rename_injective (Expr.rename ρ) b key

/-- Substitution commutes with renaming. -/
theorem Expr.substitute_rename (b : Bindings) (e : Expr) :
    (e.rename ρ).substitute (b.rename ρ) = (e.substitute b).rename ρ := by
  cases e with
  | column source field => rfl
  | int value => rfl
  | param key =>
    simp only [Expr.rename, Expr.substitute, Bindings.lookup_rename]
    cases b.lookup key <;> rfl

mutual

/-- It does so inside nested scans too. -/
theorem Condition.substitute_rename (b : Bindings) :
    (c : Condition) → (c.rename ρ).substitute (b.rename ρ) = (c.substitute b).rename ρ
  | .eq left right => by
    simp only [Condition.rename, Condition.substitute, Expr.substitute_rename]
  | .exists scan => by
    simp only [Condition.rename, Condition.substitute]
    rw [scan.substitute_rename b]

/-- Placeholders may be renamed before or after they are replaced. -/
theorem Scan.substitute_rename (b : Bindings) :
    (s : Scan) → (s.rename ρ).substitute (b.rename ρ) = (s.substitute b).rename ρ
  | ⟨sources, conditions, projection⟩ => by
    simp only [Scan.rename, Scan.substitute, Scan.mk.injEq, true_and]
    refine ⟨Condition.substituteAll_rename b conditions, ?_⟩
    rw [List.map_map, List.map_map]
    exact List.map_congr_left fun entry _ ↦ Prod.ext rfl (entry.2.substitute_rename b)

theorem Condition.substituteAll_rename (b : Bindings) :
    (cs : List Condition) → Condition.substituteAll (b.rename ρ) (Condition.renameAll ρ cs) =
      Condition.renameAll ρ (Condition.substituteAll b cs)
  | [] => rfl
  | c :: cs => by
    simp only [Condition.renameAll, Condition.substituteAll]
    rw [c.substitute_rename b, Condition.substituteAll_rename b cs]

end

/-! ### Order and text -/

/-- The placeholders of an expression are those under their new names. -/
theorem Expr.placeholders_rename (e : Expr) :
    (e.rename ρ).placeholders = e.placeholders.map (Placeholder.rename ρ) := by
  cases e <;> rfl

mutual

/-- Placeholders are met in the same order in the text. -/
theorem Condition.textual_rename :
    (c : Condition) → (c.rename ρ).textual = c.textual.map (Placeholder.rename ρ)
  | .eq left right => by
    simp only [Condition.rename, Condition.textual, Expr.placeholders_rename, List.map_append]
  | .exists scan => by
    simp only [Condition.rename, Condition.textual]
    exact scan.textual_rename

theorem Scan.textual_rename :
    (s : Scan) → (s.rename ρ).textual = s.textual.map (Placeholder.rename ρ)
  | ⟨sources, conditions, projection⟩ => by
    simp only [Scan.rename, Scan.textual]
    exact Condition.textualOf_rename conditions

theorem Condition.textualOf_rename :
    (cs : List Condition) → Condition.textualOf (Condition.renameAll ρ cs) =
      (Condition.textualOf cs).map (Placeholder.rename ρ)
  | [] => rfl
  | c :: cs => by
    simp only [Condition.renameAll, Condition.textualOf, List.map_append]
    rw [c.textual_rename, Condition.textualOf_rename cs]

end

/-- A placeholder is written as its place in the order, in which its new name stands at the same
place. -/
theorem Expr.sql_rename (order : List Placeholder) (e : Expr) :
    (e.rename ρ).sql (order.map (Placeholder.rename ρ)) = e.sql order := by
  cases e with
  | column source field => rfl
  | int value => rfl
  | param key =>
    -- A placeholder shows in the text as its place in the order, which the new names share.
    unfold Expr.sql
    simp only [Expr.rename, idxOf_map Placeholder.rename_injective]

mutual

/-- Everything else in a condition is written without names. -/
theorem Condition.sql_rename (order : List Placeholder) :
    (c : Condition) → (c.rename ρ).sql (order.map (Placeholder.rename ρ)) = c.sql order
  | .eq left right => by simp only [Condition.rename, Condition.sql, Expr.sql_rename]
  | .exists scan => by
    simp only [Condition.rename, Condition.sql]
    rw [scan.existsSql_rename order]

/-- So the SQL of a nested scan is the same. -/
theorem Scan.existsSql_rename (order : List Placeholder) :
    (s : Scan) → (s.rename ρ).existsSql (order.map (Placeholder.rename ρ)) = s.existsSql order
  | ⟨sources, conditions, projection⟩ => by
    simp only [Scan.rename, Scan.existsSql]
    rw [Condition.sqlOf_rename order conditions]

theorem Condition.sqlOf_rename (order : List Placeholder) :
    (cs : List Condition) → Condition.sqlOf (order.map (Placeholder.rename ρ))
      (Condition.renameAll ρ cs) = Condition.sqlOf order cs
  | [] => rfl
  | c :: cs => by
    simp only [Condition.renameAll, Condition.sqlOf]
    rw [c.sql_rename order, Condition.sqlOf_rename order cs]

end

/-- And so is that of a scan with rows, whose columns have numbered labels. -/
theorem Scan.rowsSql_rename (order : List Placeholder) (s : Scan) :
    (s.rename ρ).rowsSql (order.map (Placeholder.rename ρ)) = s.rowsSql order := by
  obtain ⟨sources, conditions, projection⟩ := s
  simp only [Scan.rowsSql, Scan.rename, Condition.sqlOf_rename, List.isEmpty_map, List.map_map,
    Function.comp_def, Prod.map_fst, Prod.map_snd, id_eq, Expr.sql_rename]

/-! ### Size -/

theorem Expr.height_rename (e : Expr) : (e.rename ρ).height = e.height := by
  cases e <;> rfl

theorem Expr.depth_rename (e : Expr) : (e.rename ρ).depth = e.depth := by
  cases e <;> rfl

mutual

theorem Condition.height_rename : (c : Condition) → (c.rename ρ).height = c.height
  | .eq left right => by simp only [Condition.rename, Condition.height, Expr.height_rename]
  | .exists scan => by
    simp only [Condition.rename, Condition.height]
    rw [scan.height_rename]

theorem Scan.height_rename : (s : Scan) → (s.rename ρ).height = s.height
  | ⟨sources, conditions, projection⟩ => by
    simp only [Scan.rename, Scan.height]
    rw [Condition.chainHeight_rename 0 conditions]

theorem Condition.chainHeight_rename (h : Nat) : (cs : List Condition) →
    Condition.chainHeight h (Condition.renameAll ρ cs) = Condition.chainHeight h cs
  | [] => rfl
  | c :: cs => by
    simp only [Condition.renameAll, Condition.chainHeight]
    rw [c.height_rename, Condition.chainHeight_rename _ cs]

end

mutual

/-- Nesting has nothing to do with names. -/
theorem Condition.depth_rename : (c : Condition) → (c.rename ρ).depth = c.depth
  | .eq left right => by simp only [Condition.rename, Condition.depth, Expr.depth_rename]
  | .exists scan => by
    simp only [Condition.rename, Condition.depth]
    exact scan.depth_rename

theorem Scan.depth_rename : (s : Scan) → (s.rename ρ).depth = s.depth
  | ⟨sources, conditions, projection⟩ => by
    simp only [Scan.rename, Scan.depth, Condition.chainHeight_rename]
    rw [Condition.depthOf_rename conditions]

theorem Condition.depthOf_rename : (cs : List Condition) →
    Condition.depthOf (Condition.renameAll ρ cs) = Condition.depthOf cs
  | [] => rfl
  | c :: cs => by
    simp only [Condition.renameAll, Condition.depthOf]
    rw [c.depth_rename, Condition.depthOf_rename cs]

end

mutual

theorem Condition.width_rename : (c : Condition) → (c.rename ρ).width = c.width
  | .eq left right => rfl
  | .exists scan => by
    simp only [Condition.rename, Condition.width]
    exact scan.width_rename

/-- Neither has the number of sources. -/
theorem Scan.width_rename : (s : Scan) → (s.rename ρ).width = s.width
  | ⟨sources, conditions, projection⟩ => by
    simp only [Scan.rename, Scan.width]
    rw [Condition.widthOf_rename conditions]

theorem Condition.widthOf_rename : (cs : List Condition) →
    Condition.widthOf (Condition.renameAll ρ cs) = Condition.widthOf cs
  | [] => rfl
  | c :: cs => by
    simp only [Condition.renameAll, Condition.widthOf]
    rw [c.width_rename, Condition.widthOf_rename cs]

end

/-! ### Fragments -/

/-- What is asked, with columns under the new names of their variables. -/
def Shape.rename (ρ : Renaming) : Shape → Shape
  | .existence => .existence
  | .rows columns => .rows (columns.map ρ.var)

/-- A fragment under new names. -/
def Fragment.rename (ρ : Renaming) (f : Fragment) : Fragment := ⟨f.scan.rename ρ, f.shape.rename ρ⟩

namespace Fragment

/-- Placeholders are met in the same order under their new names. -/
theorem order_rename (f : Fragment) :
    (f.rename ρ).order = f.order.map (Placeholder.rename ρ) := by
  obtain ⟨scan, shape⟩ := f
  cases shape with
  | existence =>
    simp only [order, rename, Shape.rename, Scan.textual_rename,
      Distinct.ofList_map Placeholder.rename_injective]
  | rows columns =>
    simp only [order, rename, Shape.rename, Scan.projection_rename, List.flatMap_map, Prod.map_snd,
      Expr.placeholders_rename, Scan.textual_rename, ← List.map_flatMap, ← List.map_append,
      Distinct.ofList_map Placeholder.rename_injective]

/-- **SQL does not depend on names.** -/
theorem sql_rename (f : Fragment) : (f.rename ρ).sql = f.sql := by
  rw [sql, sql, order_rename]
  obtain ⟨scan, shape⟩ := f
  cases shape with
  | existence => simp only [rename, Shape.rename, Scan.existsSql_rename]
  | rows columns =>
    simp only [rename, Shape.rename, Scan.rowsSql_rename, Scan.projection_rename, List.map_map,
      Function.comp_def, Prod.map_fst, id_eq]

/-- What a store refuses, it refuses under any names. -/
theorem refusal?_rename (f : Fragment) : (f.rename ρ).refusal? = f.refusal? := by
  obtain ⟨scan, shape⟩ := f
  cases shape <;> simp only [refusal?, depth, rename, Shape.rename, Scan.height_rename,
    Scan.depth_rename, Scan.width_rename]

end Fragment

end HornQuery
