import Mathlib
import HornQuery.Proofs.Reordering.Outlines
import HornQuery.Proofs.Soundness

/-!
# Scopes on two stores with the same content

Two stores may hold the same symbols and facts in another order and under other numbers
(`Database.Recoded`). Two scopes say the same about them if they have the same outline and the solutions
of one are those of the other, in another order and with the numbers changed (`Scope.Recoded`). The
numbers of the scopes themselves, and with them all aliases, may be different.

Every way in which a scope grows keeps this relation: an equation (`Scope.Recoded.equate`), a variable
(`Scope.Recoded.idOf`), a fact table (`Scope.Recoded.addTable`) and a nested scan
(`Scope.Recoded.requireExists`). So scopes need only be compared with scopes, never alias by alias with
what is nested in them.
-/

namespace HornQuery

open Scope (Valid Grows tableAlias variableAlias rangeCondition)

/-! ### Lists in another order -/

section Shuffled

variable {α β γ δ : Type} {R : α → β → Prop} {S : γ → δ → Prop} {l : List α} {l' : List β}

/-- The entries of `l'` are related to those of `l`, one by one, but may come in another order. -/
def Shuffled (R : α → β → Prop) (l : List α) (l' : List β) : Prop :=
  Multiset.Rel R (l : Multiset α) (l' : Multiset β)

namespace Shuffled

theorem singleton {a : α} {b : β} (h : R a b) : Shuffled R [a] [b] :=
  .cons h .zero

theorem imp {R' : α → β → Prop} (h : Shuffled R l l') (himp : ∀ a b, R a b → R' a b) :
    Shuffled R' l l' :=
  Multiset.Rel.mono h fun a _ b _ hab ↦ himp a b hab

/-- Lists that are built from related entries are related up to order. -/
theorem flatMap {f : α → List γ} {g : β → List δ} (h : Shuffled R l l')
    (hfg : ∀ a b, R a b → Shuffled S (f a) (g b)) : Shuffled S (l.flatMap f) (l'.flatMap g) := by
  rw [Shuffled, ← Multiset.coe_bind, ← Multiset.coe_bind]
  exact Multiset.rel_bind (fun a b hab ↦ hfg a b hab) h

/-- Filtering by tests that agree on related entries keeps them related. -/
theorem filter {p : α → Bool} {q : β → Bool} (h : Shuffled R l l')
    (hpq : ∀ a b, R a b → p a = q b) : Shuffled R (l.filter p) (l'.filter q) := by
  have hfilter : ∀ {γ : Type} (p : γ → Bool) (l : List γ),
      l.filter p = l.flatMap fun a ↦ if p a then [a] else [] := by
    intro γ p l
    induction l with
    | nil => rfl
    | cons a l ih => cases hp : p a <;> simp [hp, ih]
  rw [hfilter, hfilter]
  refine h.flatMap fun a b hab ↦ ?_
  rw [hpq a b hab]
  split
  · exact .singleton hab
  · exact .zero

theorem map {f : α → γ} {g : β → δ} (h : Shuffled R l l') (hfg : ∀ a b, R a b → S (f a) (g b)) :
    Shuffled S (l.map f) (l'.map g) := by
  rw [Shuffled, ← Multiset.map_coe, ← Multiset.map_coe]
  exact Multiset.rel_map.mpr (h.mono fun a _ b _ hab ↦ hfg a b hab)

/-- If related entries have the same image, the images are the same up to order. -/
theorem map_perm {f : α → γ} {g : β → γ} (h : Shuffled R l l') (hfg : ∀ a b, R a b → f a = g b) :
    (l.map f).Perm (l'.map g) := by
  have heq : Shuffled Eq (l.map f) (l'.map g) := h.map hfg
  exact Multiset.coe_eq_coe.mp (Multiset.rel_eq.mp heq)

/-- A list and a reordering of it, with each entry read in two ways. -/
theorem of_perm {l₁ l₂ : List γ} (h : l₁.Perm l₂) {f : γ → α} {g : γ → β}
    (hfg : ∀ a ∈ l₁, R (f a) (g a)) : Shuffled R (l₁.map f) (l₂.map g) := by
  rw [Shuffled, ← Multiset.map_coe, ← Multiset.map_coe, ← Multiset.coe_eq_coe.mpr h]
  exact Multiset.rel_map.mpr (Multiset.rel_refl_of_refl_on hfg)

/-- In particular one list is empty exactly if the other is. -/
theorem exists_mem_iff (h : Shuffled R l l') : (∃ a, a ∈ l) ↔ ∃ b, b ∈ l' := by
  constructor
  · rintro ⟨a, ha⟩
    obtain ⟨b, hb, -⟩ := Multiset.exists_mem_of_rel_of_mem h (Multiset.mem_coe.mpr ha)
    exact ⟨b, hb⟩
  · rintro ⟨b, hb⟩
    obtain ⟨a, ha, -⟩ := Multiset.exists_mem_of_rel_of_mem (Multiset.rel_flip.mpr h)
      (Multiset.mem_coe.mpr hb)
    exact ⟨a, ha⟩

end Shuffled

end Shuffled

/-! ### Stores with the same content -/

/-- Which numbers stand for the same symbol in two stores. -/
structure Recoding where
  /-- The numbers stand for the same symbol. -/
  rel : Int → Int → Prop
  /-- Different symbols have different numbers in both stores. -/
  unique : ∀ {k k' l l' : Int}, rel k k' → rel l l' → (k = l ↔ k' = l')

/-- All numbers stand for the same symbols in both stores. -/
def Recoding.same : Recoding := ⟨Eq, fun hk hl ↦ by rw [hk, hl]⟩

variable {ν : Recoding}

/-- Both cells are missing, or they hold numbers of the same symbol. -/
inductive Cell.Recoded (ν : Recoding) : Cell → Cell → Prop
  | null : Cell.Recoded ν .null .null
  | integer {k k' : Int} (h : ν.rel k k') : Cell.Recoded ν (.integer k) (.integer k')

/-- Cells are equal in one store exactly if they are in the other, because numbers stand for each
other one by one. -/
theorem Cell.Recoded.equals {a a' b b' : Cell} (ha : a.Recoded ν a') (hb : b.Recoded ν b') :
    a.equals b = a'.equals b' := by
  cases ha with
  | null => cases hb <;> rfl
  | integer ha =>
    cases hb with
    | null => rfl
    | integer hb => exact decide_eq_decide.mpr (ν.unique ha hb)

/-- The stores hold the same symbols and facts, perhaps in another order and under other numbers. -/
structure Database.Recoded (ν : Recoding) (db db' : Database) : Prop where
  symbols : Shuffled (fun r r' ↦ ν.rel r.id r'.id ∧ r'.symbol = r.symbol) db.symbols db'.symbols
  facts : Shuffled (fun r r' ↦ List.Forall₂ ν.rel (r.functor :: r.args) (r'.functor :: r'.args))
    db.facts db'.facts
  constantId? : ∀ text, Option.Rel ν.rel (db.constantId? text) (db'.constantId? text)

theorem Database.Recoded.refl (db : Database) : Database.Recoded .same db db where
  symbols := Multiset.rel_refl_of_refl_on fun _ _ ↦ ⟨rfl, rfl⟩
  facts := Multiset.rel_refl_of_refl_on fun _ _ ↦ List.forall₂_same.mpr fun _ _ ↦ rfl
  constantId? := fun text ↦ by
    cases db.constantId? text with
    | none => exact .none
    | some id => exact .some rfl

/-- The values of all placeholders are recoded. -/
def Env.ParamsRecoded (ν : Recoding) (env env' : Env) : Prop :=
  ∀ key, (env.param key).Recoded ν (env'.param key)

namespace Database.Recoded

variable {db db' : Database} (h : Database.Recoded ν db db')

include h

/-- The table of symbols has the same texts under other numbers. -/
theorem symbolTable_rows : Shuffled (fun row row' ↦ ∃ k k' text arity, ν.rel k k' ∧
      row = [.integer k, text, arity] ∧ row' = [.integer k', text, arity])
    db.symbolTable.rows db'.symbolTable.rows :=
  h.symbols.map fun r r' hr ↦
    ⟨r.id, r'.id, .text r.symbol.text, .integer r.symbol.arity, hr.1, rfl, by rw [hr.2]⟩

/-- A table of facts has the same rows, number by number, in some order. -/
theorem factTable_rows (arity : Nat) :
    Shuffled (List.Forall₂ (Cell.Recoded ν)) (db.factTable arity).rows (db'.factTable arity).rows := by
  have hfacts : Shuffled _ (db.factsOf arity) (db'.factsOf arity) := h.facts.filter fun r r' hr ↦ by
    have hlength : r.args.length = r'.args.length := by simpa using hr.length_eq
    rw [hlength]
  refine hfacts.map fun r r' hr ↦ ?_
  rw [List.forall₂_map_left_iff, List.forall₂_map_right_iff]
  exact hr.imp fun _ _ ↦ .integer

/-- The same texts for placeholders give values that stand for each other. -/
theorem startEnv (values : List (Placeholder × String)) :
    Env.ParamsRecoded ν (db.startEnv values) (db'.startEnv values) := by
  intro key
  simp only [Database.startEnv]
  cases values.lookup key with
  | none => exact .null
  | some text =>
    have hid := h.constantId? text
    simp only [Option.bind_some]
    generalize db.constantId? text = id, db'.constantId? text = id' at hid
    cases hid with
    | none => exact .null
    | some hk => exact .integer hk

end Database.Recoded

/-! ### Environments and expressions -/

/-- The environments have the same rows for the sources of two scopes, up to numbers, and so for the
placeholders. -/
structure Env.Recoded (ν : Recoding) (s s' : Scope) (e e' : Env) : Prop where
  table : ∀ i, tableAlias s.number i ∈ s.sources.map Source.name → ∀ field,
    (e.column (tableAlias s.number i) field).Recoded ν (e'.column (tableAlias s'.number i) field)
  id : ∀ i < s.vars.length, (e.column (variableAlias s.number i) "id").Recoded ν
    (e'.column (variableAlias s'.number i) "id")
  symbol : ∀ i < s.vars.length,
    e.column (variableAlias s.number i) "symbol" = e'.column (variableAlias s'.number i) "symbol"
  params : Env.ParamsRecoded ν e e'

/-- Without sources, the placeholders are all there is. -/
theorem Env.Recoded.empty {e e' : Env} (h : Env.ParamsRecoded ν e e') (number number' : Nat) :
    Env.Recoded ν ⟨number, 0, [], [], []⟩ ⟨number', 0, [], [], []⟩ e e' :=
  ⟨fun _ hi ↦ absurd hi List.not_mem_nil, fun i hi ↦ absurd hi (Nat.not_lt_zero i),
    fun i hi ↦ absurd hi (Nat.not_lt_zero i), h⟩

/-- What holds of the environments of larger scopes holds of those of smaller ones. -/
theorem Env.Recoded.mono {s s₁ s' s₁' : Scope} {e e' : Env} (h : Env.Recoded ν s₁ s₁' e e')
    (hs : Grows s s₁) (hs' : Grows s' s₁') : Env.Recoded ν s s' e e' := by
  have hlength := hs.vars_prefix.length_le
  refine ⟨fun i hi field ↦ ?_, fun i hi ↦ ?_, fun i hi ↦ ?_, h.params⟩
  · have hmem : tableAlias s₁.number i ∈ s₁.sources.map Source.name := by
      rw [hs.number_eq]
      obtain ⟨t, ht, hname⟩ := List.mem_map.mp hi
      exact List.mem_map.mpr ⟨t, hs.sources_mem t ht, hname⟩
    rw [← hs.number_eq, ← hs'.number_eq]
    exact h.table i hmem field
  · rw [← hs.number_eq, ← hs'.number_eq]
    exact h.id i (by omega)
  · rw [← hs.number_eq, ← hs'.number_eq]
    exact h.symbol i (by omega)

/-- The expressions mean the same in two scopes, up to numbers. -/
structure Expr.Recoded (ν : Recoding) (s s' : Scope) (x x' : Expr) : Prop where
  outline : x'.outline = x.outline
  wellScoped : x.WellScoped s.sources ∧ x'.WellScoped s'.sources
  value : ∀ e e', Env.Recoded ν s s' e e' → (x.value e).Recoded ν (x'.value e')

namespace Expr.Recoded

variable {s s₁ s' s₁' : Scope}

/-- Expressions that mean the same still do when the scopes have grown. -/
theorem mono {x x' : Expr} (h : Expr.Recoded ν s s' x x') (hs : Grows s s₁) (hs' : Grows s' s₁') :
    Expr.Recoded ν s₁ s₁' x x' :=
  ⟨h.outline, ⟨h.wellScoped.1.mono hs.sources_mem, h.wellScoped.2.mono hs'.sources_mem⟩,
    fun e e' he ↦ h.value e e' (he.mono hs hs')⟩

theorem int {k k' : Int} (h : ν.rel k k') : Expr.Recoded ν s s' (.int k) (.int k') :=
  ⟨rfl, ⟨trivial, trivial⟩, fun _ _ _ ↦ .integer h⟩

theorem param (key : Placeholder) : Expr.Recoded ν s s' (.param key) (.param key) :=
  ⟨rfl, ⟨trivial, trivial⟩, fun _ _ he ↦ he.params key⟩

/-- A column of a table means the same in both scopes, under the alias that each gives the table. -/
theorem tableColumn {arity i : Nat} {field : String} (hfield : field ∈ Schema.factColumns arity)
    (hs : ⟨Schema.factTable arity, tableAlias s.number i⟩ ∈ s.sources)
    (hs' : ⟨Schema.factTable arity, tableAlias s'.number i⟩ ∈ s'.sources) :
    Expr.Recoded ν s s' (.column (tableAlias s.number i) field)
      (.column (tableAlias s'.number i) field) :=
  ⟨rfl, ⟨⟨_, hs, rfl, Or.inr ⟨arity, rfl, hfield⟩⟩, ⟨_, hs', rfl, Or.inr ⟨arity, rfl, hfield⟩⟩⟩,
    fun _ _ he ↦ he.table i (List.mem_map.mpr ⟨_, hs, rfl⟩) field⟩

end Expr.Recoded

/-- The bindings are for the same placeholders, and bind them to expressions that mean the same. -/
def Bindings.Recoded (ν : Recoding) (s s' : Scope) : Bindings → Bindings → Prop :=
  List.Forall₂ fun entry entry' ↦ entry'.1 = entry.1 ∧ Expr.Recoded ν s s' entry.2 entry'.2

namespace Bindings.Recoded

variable {s s₁ s' s₁' : Scope} {b b' : Bindings}

theorem mono (h : Bindings.Recoded ν s s' b b') (hs : Grows s s₁) (hs' : Grows s' s₁') :
    Bindings.Recoded ν s₁ s₁' b b' :=
  List.Forall₂.imp (fun _ _ he ↦ ⟨he.1, he.2.mono hs hs'⟩) h

/-- A placeholder is bound in both or in none, to expressions that mean the same. -/
theorem lookup (h : Bindings.Recoded ν s s' b b') (key : Placeholder) :
    Option.Rel (Expr.Recoded ν s s') (b.lookup key) (b'.lookup key) := by
  induction h with
  | nil => exact .none
  | @cons entry entry' b b' he _ ih =>
    obtain ⟨k, x⟩ := entry
    obtain ⟨k', x'⟩ := entry'
    obtain ⟨rfl, hx⟩ := he
    simp only [List.lookup_cons]
    split
    · exact .some hx
    · exact ih

theorem outline (h : Bindings.Recoded ν s s' b b') : b'.outline = b.outline := by
  induction h with
  | nil => rfl
  | cons he _ ih =>
    exact congrArg₂ List.cons (Prod.ext he.1 he.2.outline) ih

theorem wellScoped (h : Bindings.Recoded ν s s' b b') :
    (∀ entry ∈ b, entry.2.WellScoped s.sources) ∧ ∀ entry ∈ b', entry.2.WellScoped s'.sources := by
  induction h with
  | nil => simp
  | cons he _ ih =>
    exact ⟨List.forall_mem_cons.mpr ⟨he.2.wellScoped.1, ih.1⟩,
      List.forall_mem_cons.mpr ⟨he.2.wellScoped.2, ih.2⟩⟩

/-- Both bindings may be extended by expressions that mean the same. -/
theorem append (h : Bindings.Recoded ν s s' b b') (key : Placeholder) {x x' : Expr}
    (hx : Expr.Recoded ν s s' x x') :
    Bindings.Recoded ν s s' (b ++ [(key, x)]) (b' ++ [(key, x')]) :=
  List.rel_append h (.cons ⟨rfl, hx⟩ .nil)

/-- Placeholders that are bound to expressions with the same meaning have the same values. -/
theorem rebind (h : Bindings.Recoded ν s s' b b') {e e' : Env} (he : Env.Recoded ν s s' e e') :
    Env.ParamsRecoded ν (e.rebind b) (e'.rebind b') := by
  intro key
  have hkey := h.lookup key
  simp only [Env.rebind]
  generalize b.lookup key = x, b'.lookup key = x' at hkey
  cases hkey with
  | none => exact he.params key
  | some hx => exact hx.value e e' he

end Bindings.Recoded

/-! ### Fragments and scopes -/

/-- The fragments have the same outline, and find the same in stores with the same content: whether
there is a combination, and, where rows are asked for, the same rows in some order. -/
structure Fragment.Recoded (ν : Recoding) (db db' : Database) (f f' : Fragment) : Prop where
  outline : f'.outline = f.outline
  holds : ∀ env env', Env.ParamsRecoded ν env env' → f.scan.holds db env = f'.scan.holds db' env'
  rows : ∀ columns, f.shape = .rows columns → ∀ env env', Env.ParamsRecoded ν env env' →
    (f.scan.rows db env).Perm (f'.scan.rows db' env')

/-- The scopes have the same outline and variables, and the same solutions in stores with the same
content, in some order. -/
structure Scope.Recoded (ν : Recoding) (db db' : Database) (s s' : Scope) : Prop where
  valid : s.Valid ∧ s'.Valid
  tables : s'.tables = s.tables
  vars : s'.vars = s.vars
  sources : s'.sources.map Source.outline = s.sources.map Source.outline
  conditions : s'.conditions.map Condition.outline = s.conditions.map Condition.outline
  solutions : ∀ env env', Env.ParamsRecoded ν env env' →
    Shuffled (Env.Recoded ν s s') (s.solutions db env) (s'.solutions db' env')

namespace Scope

/-- The names of the columns that a scope can give. -/
theorem columnsFor_map_fst (s : Scope) (names : List String) :
    (s.columnsFor names).map Prod.fst = names.filter fun name ↦ (s.vars.idxOf? name).isSome := by
  rw [columnsFor, List.map_filterMap, ← List.filterMap_eq_filter]
  refine List.filterMap_congr fun name _ ↦ ?_
  cases h : s.vars.idxOf? name <;> simp [Option.guard, h]

/-- The outline of a fragment follows from the outlines of its sources and conditions and from the
variables. -/
theorem outline_finish (s : Scope) (names : List String) :
    (s.finish names).outline =
      let columns := names.filter fun name ↦ (s.vars.idxOf? name).isSome
      ⟨⟨s.sources.map Source.outline, s.conditions.map Condition.outline,
        columns.zipIdx.map fun (_, i) ↦ (s!"c{i}", .column "" "symbol")⟩,
        if columns.isEmpty then .existence else .rows columns⟩ := by
  have hempty : ((s.columnsFor names).map Prod.fst).isEmpty = (s.columnsFor names).isEmpty :=
    List.isEmpty_map
  simp only [← columnsFor_map_fst, hempty, finish, Fragment.outline, Scan.outline,
    Condition.outlineAll_eq_map, List.zipIdx_map, List.map_map]
  rfl

/-- What a fragment projects from a solution of its scope. -/
theorem projection_finish_value (s : Scope) (names : List String) (e : Env) :
    (s.finish names).scan.projection.map (fun entry ↦ entry.2.value e) =
      names.filterMap fun name ↦ (s.vars.idxOf? name).map fun i ↦
        e.column (variableAlias s.number i) "symbol" := by
  have hcolumns : (s.finish names).scan.projection.map (fun entry ↦ entry.2.value e) =
      ((s.columnsFor names).zipIdx.map Prod.fst).map fun column ↦ e.column column.2 "symbol" := by
    simp only [finish, List.map_map]
    rfl
  rw [hcolumns, List.zipIdx_map_fst, columnsFor, List.map_filterMap]
  refine List.filterMap_congr fun name _ ↦ ?_
  rw [Option.map_map]
  rfl

end Scope

namespace Scope.Recoded

variable {db db' : Database} {s s' : Scope}

/-- Before anything is added, scopes of any number say the same. -/
theorem empty (number number' : Nat) :
    Scope.Recoded ν db db' ⟨number, 0, [], [], []⟩ ⟨number', 0, [], [], []⟩ := by
  refine ⟨⟨.empty number, .empty number'⟩, rfl, rfl, rfl, rfl, fun env env' henv ↦ ?_⟩
  rw [solutions_empty, solutions_empty]
  exact .singleton (.empty henv number number')

/-- A condition that has the same outline and is true of the same solutions may be required. -/
theorem require (h : Scope.Recoded ν db db' s s') {c c' : Condition}
    (hvalid : (s.require c).Valid ∧ (s'.require c').Valid) (houtline : c'.outline = c.outline)
    (hholds : ∀ e e', Env.Recoded ν s s' e e' → c.holds db e = c'.holds db' e') :
    Scope.Recoded ν db db' (s.require c) (s'.require c') := by
  refine ⟨hvalid, h.tables, h.vars, h.sources, ?_, fun env env' henv ↦ ?_⟩
  · simp only [Scope.require, List.map_append, h.conditions, List.map_singleton, houtline]
  · rw [solutions_require, solutions_require]
    exact ((h.solutions env env' henv).filter hholds).imp fun e e' he ↦
      ⟨he.table, he.id, he.symbol, he.params⟩

/-- Both scopes may equate expressions that mean the same: their solutions are then filtered
alike. -/
theorem equate (h : Scope.Recoded ν db db' s s') {x x' y y' : Expr} (hx : Expr.Recoded ν s s' x x')
    (hy : Expr.Recoded ν s s' y y') :
    Scope.Recoded ν db db' (s.equate x y) (s'.equate x' y') := by
  have hvalid := And.intro (h.valid.1.equate hx.wellScoped.1 hy.wellScoped.1)
    (h.valid.2.equate hx.wellScoped.2 hy.wellScoped.2)
  refine h.require hvalid ?_ fun e e' he ↦ (hx.value e e' he).equals (hy.value e e' he)
  simp only [Condition.outline, hx.outline, hy.outline]

/-- A nested scan is true of the same solutions, since it depends on the values of its placeholders. -/
theorem requireExists (h : Scope.Recoded ν db db' s s') {f f' : Fragment}
    (hf : Fragment.Recoded ν db db' f f')
    (hscan : f.scan.WellScoped [] ∧ ∀ name ∈ f.scan.declared, Scope.Earlier s.number name)
    (hscan' : f'.scan.WellScoped [] ∧ ∀ name ∈ f'.scan.declared, Scope.Earlier s'.number name)
    {b b' : Bindings} (hb : Bindings.Recoded ν s s' b b') :
    Scope.Recoded ν db db' (s.require (.exists (f.scan.substitute b)))
      (s'.require (.exists (f'.scan.substitute b'))) := by
  have hnested : ∀ {s : Scope} {f : Fragment} {b : Bindings}, s.Valid →
      (f.scan.WellScoped [] ∧ ∀ name ∈ f.scan.declared, Scope.Earlier s.number name) →
      (∀ entry ∈ b, entry.2.WellScoped s.sources) →
      (s.require (.exists (f.scan.substitute b))).Valid := by
    intro s f b hs hscan hb
    refine hs.require ?_ fun name hname ↦ ?_
    · refine Scan.WellScoped.substitute (by simp) hb f.scan hscan.1 fun t ht ↦ Or.inr fun hname ↦ ?_
      exact (hs.owns ht).not_earlier (hscan.2 t.name hname)
    · rw [Condition.declared, Scan.declared_substitute] at hname
      exact hscan.2 name hname
  refine h.require ⟨hnested h.valid.1 hscan hb.wellScoped.1,
    hnested h.valid.2 hscan' hb.wellScoped.2⟩ ?_ fun e e' he ↦ ?_
  · have hscans : f'.scan.outline = f.scan.outline := congrArg Fragment.scan hf.outline
    simp only [Condition.outline, Scan.outline_substitute, hscans, hb.outline]
  · have havoid := Compiler.avoid_declared h.valid.1 hb.wellScoped.1 hscan.2
    have havoid' := Compiler.avoid_declared h.valid.2 hb.wellScoped.2 hscan'.2
    simp only [Condition.holds]
    rw [Scan.holds_substitute _ havoid, Scan.holds_substitute _ havoid']
    exact hf.holds _ _ (hb.rebind he)

/-! ### Variables and fact tables -/

/-- A row for a new variable, drawn in both. -/
theorem bindVariable (h : Scope.Recoded ν db db' s s') {e e' : Env} (he : Env.Recoded ν s s' e e')
    (name : String) {k k' : Int} (hk : ν.rel k k') (text arity : Cell) :
    Env.Recoded ν (s.addVariable name) (s'.addVariable name)
      (e.bind (variableAlias s.number s.vars.length) Schema.symbolColumns [.integer k, text, arity])
      (e'.bind (variableAlias s'.number s'.vars.length) Schema.symbolColumns
        [.integer k', text, arity]) := by
  have hlength : (s.addVariable name).vars.length = s.vars.length + 1 := List.length_append
  obtain ⟨hid, hsymbol, -⟩ := e.bind_symbol (variableAlias s.number s.vars.length) (.integer k)
    arity text
  obtain ⟨hid', hsymbol', -⟩ := e'.bind_symbol (variableAlias s'.number s'.vars.length) (.integer k')
    arity text
  rw [h.vars] at hid' hsymbol' ⊢
  -- The row of a variable that was there before is left alone, as its alias is another one.
  have hold : ∀ {s : Scope} {e : Env} {row : List Cell} {i m : Nat}, i < m → ∀ field,
      (e.bind (variableAlias s.number m) Schema.symbolColumns row).column
        (variableAlias s.number i) field = e.column (variableAlias s.number i) field := by
    intro s e row i m hi field
    have hne : variableAlias s.number i ≠ variableAlias s.number m :=
      fun heq ↦ Nat.ne_of_lt hi (Scope.variableAlias_inj.mp heq).2
    simp [Env.bind, hne]
  refine ⟨fun i hi field ↦ ?_, fun i hi ↦ ?_, fun i hi ↦ ?_, he.params⟩
  · have hmem : tableAlias s.number i ∈ s.sources.map Source.name := by
      simpa [Scope.addVariable] using hi
    simpa [Env.bind, Scope.addVariable] using he.table i hmem field
  · rw [hlength] at hi
    rcases Nat.lt_succ_iff_lt_or_eq.mp hi with hi | rfl
    · show Cell.Recoded ν (Env.column _ (variableAlias s.number i) _)
        (Env.column _ (variableAlias s'.number i) _)
      rw [hold hi, hold hi]
      exact he.id i hi
    · show Cell.Recoded ν (Env.column _ (variableAlias s.number _) _)
        (Env.column _ (variableAlias s'.number _) _)
      rw [hid, hid']
      exact .integer hk
  · rw [hlength] at hi
    rcases Nat.lt_succ_iff_lt_or_eq.mp hi with hi | rfl
    · show Env.column _ (variableAlias s.number i) _ = Env.column _ (variableAlias s'.number i) _
      rw [hold hi, hold hi]
      exact he.symbol i hi
    · show Env.column _ (variableAlias s.number _) _ = Env.column _ (variableAlias s'.number _) _
      rw [hsymbol, hsymbol']

/-- A new variable draws from the table of symbols, which has the same texts in both stores. -/
theorem addVariable (hdb : Database.Recoded ν db db') (h : Scope.Recoded ν db db' s s')
    (name : String) :
    Scope.Recoded ν db db' (s.addVariable name) (s'.addVariable name) := by
  refine ⟨⟨h.valid.1.addVariable name, h.valid.2.addVariable name⟩, h.tables, ?_, ?_, ?_,
    fun env env' henv ↦ ?_⟩
  · simp only [Scope.addVariable, h.vars]
  · simp only [Scope.addVariable, List.map_append, h.sources, List.map_singleton, Source.outline]
  · simp only [Scope.addVariable, List.map_append, h.conditions, List.map_singleton,
      rangeCondition, Condition.outline, Expr.outline]
  · rw [solutions_addVariable h.valid.1, solutions_addVariable h.valid.2]
    refine (h.solutions env env' henv).flatMap fun e e' he ↦ ?_
    have hrows : Shuffled (fun x x' ↦ Env.Recoded ν (s.addVariable name) (s'.addVariable name) x x' ∧
          x.column (variableAlias s.number s.vars.length) "arity" =
            x'.column (variableAlias s'.number s'.vars.length) "arity")
        (db.symbolTable.rows.map
          (e.bind (variableAlias s.number s.vars.length) Schema.symbolColumns))
        (db'.symbolTable.rows.map
          (e'.bind (variableAlias s'.number s'.vars.length) Schema.symbolColumns)) := by
      refine hdb.symbolTable_rows.map ?_
      rintro row row' ⟨k, k', text, arity, hk, rfl, rfl⟩
      refine ⟨h.bindVariable he name hk text arity, ?_⟩
      rw [(e.bind_symbol _ _ _ _).2.2, (e'.bind_symbol _ _ _ _).2.2]
    refine (hrows.filter fun x x' hx ↦ ?_).imp fun x x' hx ↦ hx.1
    simp only [rangeCondition, Condition.holds, Expr.value, hx.2]

/-- A variable has the same value in both scopes, whether it was there before or not. -/
theorem idOf (hdb : Database.Recoded ν db db') (h : Scope.Recoded ν db db' s s') (name : String) :
    Scope.Recoded ν db db' (s.idOf name).2 (s'.idOf name).2 ∧
      Expr.Recoded ν (s.idOf name).2 (s'.idOf name).2 (s.idOf name).1 (s'.idOf name).1 := by
  have hscoped := (h.valid.1.idOf name).2
  have hscoped' := (h.valid.2.idOf name).2
  obtain ⟨i, hi, heq⟩ | ⟨hnot, heq⟩ := s.idOf_cases name
  · have heq' : s'.idOf name = (.column (variableAlias s'.number i) "id", s') := by
      simp only [Scope.idOf, h.vars, hi]
    rw [heq] at hscoped ⊢
    rw [heq'] at hscoped' ⊢
    refine ⟨h, rfl, ⟨hscoped, hscoped'⟩, fun e e' he ↦ he.id i ?_⟩
    exact (List.idxOf?_eq_some_iff.mp hi).1
  · have heq' : s'.idOf name =
        (.column (variableAlias s'.number s'.vars.length) "id", s'.addVariable name) := by
      obtain ⟨i, hi, -⟩ | ⟨-, heq'⟩ := s'.idOf_cases name
      · rw [h.vars, List.idxOf?_eq_none_iff.mpr hnot] at hi
        cases hi
      · exact heq'
    rw [heq] at hscoped ⊢
    rw [heq'] at hscoped' ⊢
    refine ⟨h.addVariable hdb name, rfl, ⟨hscoped, hscoped'⟩, fun e e' he ↦ ?_⟩
    have hid := he.id s.vars.length (by simp [Scope.addVariable])
    rw [h.vars]
    exact hid

/-- Cells at the same place of related rows stand for each other, and where one is missing both
are. -/
theorem lookup_zip {columns : List String} {row row' : List Cell}
    (h : List.Forall₂ (Cell.Recoded ν) row row') (field : String) :
    (((columns.zip row).lookup field).getD .null).Recoded ν
      (((columns.zip row').lookup field).getD .null) := by
  induction h generalizing columns with
  | nil => simpa using .null
  | @cons a b row row' hab _ ih =>
    cases columns with
    | nil => exact .null
    | cons column columns =>
      simp only [List.zip_cons_cons, List.lookup_cons]
      split
      · exact hab
      · exact ih

/-- A new table draws from the facts of one arity, which are the same in both stores. -/
theorem addTable (hdb : Database.Recoded ν db db') (h : Scope.Recoded ν db db' s s') {arity : Nat}
    (harity : arity ≤ Schema.maxArity) :
    Scope.Recoded ν db db' (s.addTable arity).2 (s'.addTable arity).2 := by
  refine ⟨⟨h.valid.1.addTable arity, h.valid.2.addTable arity⟩, ?_, h.vars, ?_, h.conditions,
    fun env env' henv ↦ ?_⟩
  · simp only [Scope.addTable, h.tables]
  · simp only [Scope.addTable, List.map_append, h.sources, List.map_singleton, Source.outline]
  · rw [solutions_addTable h.valid.1 harity, solutions_addTable h.valid.2 harity]
    refine (h.solutions env env' henv).flatMap fun e e' he ↦
      (hdb.factTable_rows arity).map fun row row' hrow ↦ ?_
    refine ⟨fun i hi field ↦ ?_, fun i hi ↦ ?_, fun i hi ↦ ?_, he.params⟩
    · simp only [Scope.addTable, h.tables]
      by_cases heq : i = s.tables
      · simp only [heq, Env.bind, if_true]
        exact lookup_zip hrow field
      · have hne : ∀ n, tableAlias n i ≠ tableAlias n s.tables :=
          fun n halias ↦ heq (Scope.tableAlias_inj.mp halias).2
        have hmem : tableAlias s.number i ∈ s.sources.map Source.name := by
          simpa [Scope.addTable, heq] using hi
        simpa [Env.bind, hne] using he.table i hmem field
    · simpa [Env.bind, Scope.addTable] using he.id i hi
    · simpa [Env.bind, Scope.addTable] using he.symbol i hi

/-! ### Fragments -/

/-- Scopes that say the same become fragments that find the same. -/
theorem finish (h : Scope.Recoded ν db db' s s') (names : List String) :
    Fragment.Recoded ν db db' (s.finish names) (s'.finish names) := by
  refine ⟨?_, fun env env' henv ↦ ?_, fun columns _ env env' henv ↦ ?_⟩
  · rw [outline_finish, outline_finish, h.sources, h.conditions, h.vars]
  · rw [Bool.eq_iff_iff, finish_holds_iff, finish_holds_iff]
    exact (h.solutions env env' henv).exists_mem_iff
  · refine (h.solutions env env' henv).map_perm fun e e' he ↦ ?_
    rw [projection_finish_value, projection_finish_value, h.vars]
    refine List.filterMap_congr fun name _ ↦ ?_
    cases hi : s.vars.idxOf? name with
    | none => rfl
    | some i => exact congrArg some (he.symbol i (List.idxOf?_eq_some_iff.mp hi).1)

end Scope.Recoded

end HornQuery
