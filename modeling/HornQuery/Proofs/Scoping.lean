import Mathlib
import HornQuery.Proofs.Compilation
import HornQuery.Proofs.Names

/-!
# Aliases and columns of compiled scans

A scan is well scoped if its blocks can be told apart by their aliases: within a block no alias is
declared twice, no block declares an alias of a block around it, every column names an alias that its
own block or one around it declares, and the table behind that alias has the column. Then no alias is
captured when a scan is nested in another, and no column dangles.

Everything that a compiler returns or caches is well scoped, whatever it has been asked to do before
(`Compiler.wellScoped_after`). The reason is the numbering of scopes: a scope has a number of its own,
its aliases carry that number, and the scans nested in it come from scopes with smaller numbers
(`Scope.Valid`).
-/

namespace HornQuery

open Scope (Owns tableAlias variableAlias)

/-! ### Well scoped scans -/

/-- The table that a source stands for has a column of this name. -/
def Source.HasColumn (s : Source) (column : String) : Prop :=
  s.table = Schema.symbolTable ∧ column ∈ Schema.symbolColumns ∨
    ∃ arity, s.table = Schema.factTable arity ∧ column ∈ Schema.factColumns arity

/-- A column belongs to one of the visible sources. -/
def Expr.WellScoped (visible : List Source) : Expr → Prop
  | .column source field => ∃ s ∈ visible, s.name = source ∧ s.HasColumn field
  | .int _ => True
  | .param _ => True

mutual

/-- A condition is well scoped inside blocks that declare the sources `outer`. -/
def Condition.WellScoped (outer : List Source) : Condition → Prop
  | .eq left right => left.WellScoped outer ∧ right.WellScoped outer
  | .exists scan => scan.WellScoped outer

/-- A block is well scoped inside blocks that declare the sources `outer`: its aliases are distinct
from each other and from those around it, and its columns belong to what is visible in it. -/
def Scan.WellScoped (outer : List Source) : Scan → Prop
  | ⟨sources, conditions, projection⟩ =>
    (sources.map Source.name).Nodup ∧
      (∀ s ∈ sources, ∀ t ∈ outer, s.name ≠ t.name) ∧
      Condition.AllWellScoped (outer ++ sources) conditions ∧
      ∀ entry ∈ projection, entry.2.WellScoped (outer ++ sources)

/-- All conditions are well scoped. -/
def Condition.AllWellScoped (outer : List Source) : List Condition → Prop
  | [] => True
  | c :: cs => c.WellScoped outer ∧ Condition.AllWellScoped outer cs

end

theorem Condition.allWellScoped_iff {outer : List Source} {cs : List Condition} :
    Condition.AllWellScoped outer cs ↔ ∀ c ∈ cs, c.WellScoped outer := by
  induction cs with
  | nil => simp [Condition.AllWellScoped]
  | cons c cs ih => simp [Condition.AllWellScoped, ih]

/-- A scan is well scoped if its aliases are new and all that it refers to is visible in it. -/
theorem Scan.wellScoped_iff {outer sources : List Source} {conditions : List Condition}
    {projection : List (String × Expr)} :
    Scan.WellScoped outer ⟨sources, conditions, projection⟩ ↔
      (sources.map Source.name).Nodup ∧ (∀ s ∈ sources, ∀ t ∈ outer, s.name ≠ t.name) ∧
        (∀ c ∈ conditions, c.WellScoped (outer ++ sources)) ∧
        ∀ entry ∈ projection, entry.2.WellScoped (outer ++ sources) := by
  rw [Scan.WellScoped, Condition.allWellScoped_iff]

theorem Expr.wellScoped_int (visible : List Source) (value : Int) :
    (Expr.int value).WellScoped visible := trivial

/-- More may be visible than is needed. -/
theorem Expr.WellScoped.mono {visible visible' : List Source} {e : Expr}
    (h : e.WellScoped visible) (hsub : ∀ s ∈ visible, s ∈ visible') : e.WellScoped visible' := by
  cases e with
  | column source field =>
    obtain ⟨s, hs, hname, hfield⟩ := h
    exact ⟨s, hsub s hs, hname, hfield⟩
  | int value => trivial
  | param key => trivial

/-! ### Declared aliases -/

mutual

/-- The aliases that the scan nested in a condition declares, at any depth. -/
def Condition.declared : Condition → List String
  | .eq _ _ => []
  | .exists scan => scan.declared

/-- The aliases that a scan declares, at any depth. -/
def Scan.declared : Scan → List String
  | ⟨sources, conditions, _⟩ => sources.map Source.name ++ Condition.declaredIn conditions

/-- The aliases that the scans nested in conditions declare, at any depth. -/
def Condition.declaredIn : List Condition → List String
  | [] => []
  | c :: cs => c.declared ++ Condition.declaredIn cs

end

/-- What conditions declare, one of them declares. -/
theorem Condition.mem_declaredIn {cs : List Condition} {name : String} :
    name ∈ Condition.declaredIn cs ↔ ∃ c ∈ cs, name ∈ c.declared := by
  induction cs with
  | nil => simp [Condition.declaredIn]
  | cons c cs ih => simp [Condition.declaredIn, ih]

/-- A scan declares the aliases of its own sources and those of the scans nested in it. -/
theorem Scan.mem_declared {sources : List Source} {conditions : List Condition}
    {projection : List (String × Expr)} {name : String} :
    name ∈ Scan.declared ⟨sources, conditions, projection⟩ ↔
      (∃ s ∈ sources, s.name = name) ∨ ∃ c ∈ conditions, name ∈ c.declared := by
  rw [Scan.declared, List.mem_append, List.mem_map, Condition.mem_declaredIn]

mutual

/-- Substitution declares nothing. -/
theorem Condition.declared_substitute (b : Bindings) :
    (c : Condition) → (c.substitute b).declared = c.declared
  | .eq left right => by simp only [Condition.substitute, Condition.declared]
  | .exists scan => by
    simp only [Condition.substitute, Condition.declared]
    exact scan.declared_substitute b

/-- Substitution declares nothing and removes nothing. -/
theorem Scan.declared_substitute (b : Bindings) :
    (s : Scan) → (s.substitute b).declared = s.declared
  | ⟨sources, conditions, _⟩ => by
    simp only [Scan.substitute, Scan.declared]
    rw [Condition.declaredIn_substituteAll b conditions]

theorem Condition.declaredIn_substituteAll (b : Bindings) :
    (cs : List Condition) →
      Condition.declaredIn (Condition.substituteAll b cs) = Condition.declaredIn cs
  | [] => rfl
  | c :: cs => by
    simp only [Condition.substituteAll, Condition.declaredIn]
    rw [c.declared_substitute b, Condition.declaredIn_substituteAll b cs]

end

/-! ### Nesting and substitution -/

/-- A bound expression has to be well scoped where it is put. -/
theorem Expr.WellScoped.substitute {outer outer' : List Source} {b : Bindings} {e : Expr}
    (h : e.WellScoped outer) (hsub : ∀ s ∈ outer, s ∈ outer')
    (hb : ∀ entry ∈ b, entry.2.WellScoped outer') : (e.substitute b).WellScoped outer' := by
  cases e with
  | column source field => exact h.mono hsub
  | int value => trivial
  | param key =>
    show ((b.lookup key).getD (.param key)).WellScoped outer'
    cases hlookup : b.lookup key with
    | none => trivial
    | some e => exact hb (key, e) (mem_of_lookup_eq_some hlookup)

mutual

/-- A condition stays well scoped where more sources are visible and placeholders are replaced by
expressions over them, as long as it declares none of the added aliases. -/
theorem Condition.WellScoped.substitute {b : Bindings} {outer outer' : List Source}
    (hsub : ∀ s ∈ outer, s ∈ outer') (hb : ∀ entry ∈ b, entry.2.WellScoped outer') :
    (c : Condition) → c.WellScoped outer →
      (∀ t ∈ outer', t ∈ outer ∨ t.name ∉ c.declared) → (c.substitute b).WellScoped outer'
  | .eq left right, h, _ => by
    rw [Condition.WellScoped] at h
    rw [Condition.substitute, Condition.WellScoped]
    exact ⟨h.1.substitute hsub hb, h.2.substitute hsub hb⟩
  | .exists scan, h, hfresh => by
    rw [Condition.WellScoped] at h
    rw [Condition.substitute, Condition.WellScoped]
    exact Scan.WellScoped.substitute hsub hb scan h fun t ht ↦ by
      simpa only [Condition.declared] using hfresh t ht

/-- A scan may be moved into other surroundings if its aliases are new there and bound expressions
fit. This is where capture is excluded: nothing around it may have the name of an alias that it
declares. -/
theorem Scan.WellScoped.substitute {b : Bindings} {outer outer' : List Source}
    (hsub : ∀ s ∈ outer, s ∈ outer') (hb : ∀ entry ∈ b, entry.2.WellScoped outer') :
    (s : Scan) → s.WellScoped outer →
      (∀ t ∈ outer', t ∈ outer ∨ t.name ∉ s.declared) → (s.substitute b).WellScoped outer'
  | ⟨sources, conditions, projection⟩, h, hfresh => by
    obtain ⟨hnodup, hdisjoint, hconditions, hprojection⟩ := Scan.WellScoped.eq_1 .. ▸ h
    have hsub' : ∀ s ∈ outer ++ sources, s ∈ outer' ++ sources := by
      intro s hs
      rcases List.mem_append.mp hs with hs | hs
      · exact List.mem_append_left _ (hsub s hs)
      · exact List.mem_append_right _ hs
    have hb' : ∀ entry ∈ b, entry.2.WellScoped (outer' ++ sources) :=
      fun entry hentry ↦ (hb entry hentry).mono fun s hs ↦ List.mem_append_left _ hs
    rw [Scan.substitute, Scan.WellScoped]
    refine ⟨hnodup, fun s hs t ht ↦ ?_, ?_, ?_⟩
    · -- A source that is new around the scan has none of the names in it.
      rcases hfresh t ht with ht | ht
      · exact hdisjoint s hs t ht
      · intro heq
        exact ht (Scan.mem_declared.mpr (Or.inl ⟨s, hs, heq⟩))
    · -- The scan's own sources stand around its conditions, too.
      refine Condition.AllWellScoped.substitute hsub' hb' conditions hconditions fun t ht ↦ ?_
      rcases List.mem_append.mp ht with ht | ht
      · rcases hfresh t ht with ht | ht
        · exact Or.inl (List.mem_append_left _ ht)
        · refine Or.inr fun hmem ↦ ht ?_
          rw [Scan.declared]
          exact List.mem_append_right _ hmem
      · exact Or.inl (List.mem_append_right _ ht)
    · intro entry hentry
      obtain ⟨⟨label, e⟩, hmem, rfl⟩ := List.mem_map.mp hentry
      exact (hprojection (label, e) hmem).substitute hsub' hb'

theorem Condition.AllWellScoped.substitute {b : Bindings} {outer outer' : List Source}
    (hsub : ∀ s ∈ outer, s ∈ outer') (hb : ∀ entry ∈ b, entry.2.WellScoped outer') :
    (cs : List Condition) → Condition.AllWellScoped outer cs →
      (∀ t ∈ outer', t ∈ outer ∨ t.name ∉ Condition.declaredIn cs) →
      Condition.AllWellScoped outer' (Condition.substituteAll b cs)
  | [], _, _ => trivial
  | c :: cs, h, hfresh => by
    rw [Condition.AllWellScoped] at h
    rw [Condition.substituteAll, Condition.AllWellScoped]
    simp only [Condition.declaredIn, List.mem_append, not_or] at hfresh
    exact ⟨Condition.WellScoped.substitute hsub hb c h.1 fun t ht ↦ (hfresh t ht).imp_right And.left,
      Condition.AllWellScoped.substitute hsub hb cs h.2 fun t ht ↦
        (hfresh t ht).imp_right And.right⟩

end

theorem Expr.substitute_nil (e : Expr) : e.substitute [] = e := by
  cases e <;> rfl

mutual

/-- Without bindings nothing is replaced. -/
theorem Condition.substitute_nil : (c : Condition) → c.substitute [] = c
  | .eq left right => by
    rw [Condition.substitute, left.substitute_nil, right.substitute_nil]
  | .exists scan => by rw [Condition.substitute, scan.substitute_nil]

/-- Substituting nothing changes nothing. -/
theorem Scan.substitute_nil : (s : Scan) → s.substitute [] = s
  | ⟨sources, conditions, projection⟩ => by
    rw [Scan.substitute, Condition.substituteAll_nil conditions]
    simp [Expr.substitute_nil]

theorem Condition.substituteAll_nil :
    (cs : List Condition) → Condition.substituteAll [] cs = cs
  | [] => rfl
  | c :: cs => by
    rw [Condition.substituteAll, c.substitute_nil, Condition.substituteAll_nil cs]

end

/-- A condition stays well scoped where more sources are visible. -/
theorem Condition.WellScoped.mono {outer outer' : List Source} {c : Condition}
    (h : c.WellScoped outer) (hsub : ∀ s ∈ outer, s ∈ outer')
    (hfresh : ∀ t ∈ outer', t ∈ outer ∨ t.name ∉ c.declared) : c.WellScoped outer' := by
  have := Condition.WellScoped.substitute (b := []) hsub (by simp) c h hfresh
  rwa [c.substitute_nil] at this

/-! ### Scopes -/

namespace Scope

/-- An alias of a scope that was opened before the one with this number. -/
def Earlier (number : Nat) (name : String) : Prop :=
  ∃ m < number, Owns m name

/-- What was opened before a scope was opened before all later ones. -/
theorem Earlier.mono {m n : Nat} {name : String} (h : Earlier m name) (hle : m ≤ n) :
    Earlier n name := by
  obtain ⟨k, hk, hname⟩ := h
  exact ⟨k, by omega, hname⟩

/-- An alias of a scope is no alias of an earlier one. -/
theorem Owns.not_earlier {number : Nat} {name : String} (h : Owns number name) :
    ¬ Earlier number name := by
  rintro ⟨m, hm, hname⟩
  have := hname.unique h
  omega

/-- What holds of every scope while goals are added to it: its aliases carry its number and an index
that is in use, every variable has a source, and its conditions are well scoped and nest only scans
from earlier scopes. -/
structure Valid (s : Scope) : Prop where
  /-- No alias is declared twice. -/
  nodup : (s.sources.map Source.name).Nodup
  /-- A source is a fact table or a variable. -/
  source_cases : ∀ t ∈ s.sources,
    (∃ arity, ∃ i < s.tables, t = ⟨Schema.factTable arity, tableAlias s.number i⟩) ∨
      ∃ i < s.vars.length, t = ⟨Schema.symbolTable, variableAlias s.number i⟩
  /-- Every variable has a source. -/
  variable_mem : ∀ i < s.vars.length, ⟨Schema.symbolTable, variableAlias s.number i⟩ ∈ s.sources
  /-- The conditions are well scoped. -/
  conditions : ∀ c ∈ s.conditions, c.WellScoped s.sources
  /-- Nested scans come from earlier scopes. -/
  earlier : ∀ c ∈ s.conditions, ∀ name ∈ c.declared, Earlier s.number name

/-- The condition that the variable with the given index ranges over constants. -/
def rangeCondition (number index : Nat) : Condition :=
  .eq (.column (variableAlias number index) "arity") (.int 0)

/-- A scope that came about by adding to another. -/
structure Grows (s s' : Scope) : Prop where
  number_eq : s'.number = s.number
  sources_mem : ∀ t ∈ s.sources, t ∈ s'.sources
  vars_prefix : s.vars <+: s'.vars
  vars_nodup : s.vars.Nodup → s'.vars.Nodup
  conditions_mem : ∀ c ∈ s.conditions, c ∈ s'.conditions
  /-- New variables range over constants. -/
  ranged : ∀ i, s.vars.length ≤ i → i < s'.vars.length →
    rangeCondition s'.number i ∈ s'.conditions

theorem Grows.refl (s : Scope) : Grows s s :=
  ⟨rfl, fun _ h ↦ h, List.prefix_rfl, id, fun _ h ↦ h, fun i hle hlt ↦ by omega⟩

/-- Growth goes on from where it stands. -/
theorem Grows.trans {s₁ s₂ s₃ : Scope} (h : Grows s₁ s₂) (h' : Grows s₂ s₃) : Grows s₁ s₃ where
  number_eq := h'.number_eq.trans h.number_eq
  sources_mem t ht := h'.sources_mem t (h.sources_mem t ht)
  vars_prefix := h.vars_prefix.trans h'.vars_prefix
  vars_nodup hs := h'.vars_nodup (h.vars_nodup hs)
  conditions_mem c hc := h'.conditions_mem c (h.conditions_mem c hc)
  ranged i hle hlt := by
    by_cases hi : i < s₂.vars.length
    · rw [h'.number_eq]
      exact h'.conditions_mem _ (h.ranged i hle hi)
    · exact h'.ranged i (by omega) hlt

theorem grows_require (s : Scope) (c : Condition) : Grows s (s.require c) :=
  ⟨rfl, fun _ h ↦ h, List.prefix_rfl, id, fun _ h ↦ List.mem_append_left _ h,
    fun _ hle hlt ↦ absurd hlt (Nat.not_lt.mpr hle)⟩

theorem grows_equate (s : Scope) (left right : Expr) : Grows s (s.equate left right) :=
  s.grows_require _

theorem grows_addTable (s : Scope) (arity : Nat) : Grows s (s.addTable arity).2 :=
  ⟨rfl, fun _ h ↦ List.mem_append_left _ h, List.prefix_rfl, id, fun _ h ↦ h,
    fun _ hle hlt ↦ absurd hlt (Nat.not_lt.mpr hle)⟩

/-- The scope with a source and a condition for a variable that has none. -/
def addVariable (s : Scope) (name : String) : Scope :=
  { s with
    vars := s.vars ++ [name]
    sources := s.sources ++ [⟨Schema.symbolTable, variableAlias s.number s.vars.length⟩]
    conditions := s.conditions ++ [rangeCondition s.number s.vars.length] }

/-- The number of a variable's value is that of its source, which is added for a new variable. -/
theorem idOf_cases (s : Scope) (name : String) :
    (∃ i, s.vars.idxOf? name = some i ∧ s.idOf name = (.column (variableAlias s.number i) "id", s)) ∨
      (name ∉ s.vars ∧
        s.idOf name =
          (.column (variableAlias s.number s.vars.length) "id", s.addVariable name)) := by
  cases hidx : s.vars.idxOf? name with
  | some i => exact Or.inl ⟨i, rfl, by simp [idOf, hidx]⟩
  | none =>
    refine Or.inr ⟨List.idxOf?_eq_none_iff.mp hidx, ?_⟩
    simp [idOf, hidx, addVariable, rangeCondition]

/-- A new variable comes last, with a condition that it is a constant. -/
theorem grows_addVariable (s : Scope) {name : String} (hname : name ∉ s.vars) :
    Grows s (s.addVariable name) where
  number_eq := rfl
  sources_mem _ h := List.mem_append_left _ h
  vars_prefix := List.prefix_append _ _
  vars_nodup hs := List.nodup_append.mpr
    ⟨hs, List.nodup_singleton _, fun x hx y hy heq ↦ hname (List.mem_singleton.mp hy ▸ heq ▸ hx)⟩
  conditions_mem _ h := List.mem_append_left _ h
  ranged i hle hlt := by
    have hlt : i < s.vars.length + 1 := by simpa [addVariable] using hlt
    obtain rfl : i = s.vars.length := by omega
    exact List.mem_append_right _ (List.mem_singleton.mpr rfl)

/-- Looking a variable up may add it. -/
theorem grows_idOf (s : Scope) (name : String) : Grows s (s.idOf name).2 := by
  obtain ⟨i, -, h⟩ | ⟨hname, h⟩ := s.idOf_cases name <;> rw [h]
  · exact .refl s
  · exact s.grows_addVariable hname

namespace Valid

variable {s : Scope}

/-- An empty scope is valid. -/
theorem empty (number : Nat) : Valid ⟨number, 0, [], [], []⟩ where
  nodup := List.nodup_nil
  source_cases := by simp
  variable_mem := by simp
  conditions := by simp
  earlier := by simp

/-- All aliases in a scope carry its number. -/
theorem owns (h : s.Valid) {t : Source} (ht : t ∈ s.sources) : Owns s.number t.name := by
  obtain ⟨arity, i, -, rfl⟩ | ⟨i, -, rfl⟩ := h.source_cases t ht
  · exact owns_tableAlias s.number i
  · exact owns_variableAlias s.number i

/-- A condition may be added if it refers to sources of the scope and nests earlier scans only. -/
theorem require (h : s.Valid) {c : Condition} (hc : c.WellScoped s.sources)
    (hearlier : ∀ name ∈ c.declared, Earlier s.number name) : (s.require c).Valid where
  nodup := h.nodup
  source_cases := h.source_cases
  variable_mem := h.variable_mem
  conditions c' hc' := by
    rcases List.mem_append.mp hc' with hc' | hc'
    · exact h.conditions c' hc'
    · rw [List.mem_singleton.mp hc']
      exact hc
  earlier c' hc' := by
    rcases List.mem_append.mp hc' with hc' | hc'
    · exact h.earlier c' hc'
    · rw [List.mem_singleton.mp hc']
      exact hearlier

theorem equate (h : s.Valid) {left right : Expr} (hleft : left.WellScoped s.sources)
    (hright : right.WellScoped s.sources) : (s.equate left right).Valid := by
  refine h.require ?_ ?_
  · rw [Condition.WellScoped]
    exact ⟨hleft, hright⟩
  · simp [Condition.declared]

/-- Conditions stay well scoped when a source with an alias of the scope is added. -/
theorem conditions_append (h : s.Valid) {t : Source} (ht : Owns s.number t.name) :
    ∀ c ∈ s.conditions, c.WellScoped (s.sources ++ [t]) := by
  intro c hc
  refine (h.conditions c hc).mono (fun _ ↦ List.mem_append_left _) fun t' ht' ↦ ?_
  rcases List.mem_append.mp ht' with ht' | ht'
  · exact Or.inl ht'
  · rw [List.mem_singleton.mp ht']
    exact Or.inr fun hmem ↦ ht.not_earlier (h.earlier c hc _ hmem)

/-- A new table takes the next index, so its alias is new. -/
theorem addTable (h : s.Valid) (arity : Nat) : (s.addTable arity).2.Valid where
  nodup := by
    show ((s.sources ++ [(⟨Schema.factTable arity, tableAlias s.number s.tables⟩ : Source)]).map
      Source.name).Nodup
    rw [List.map_append]
    refine List.Nodup.append h.nodup (List.nodup_singleton _) ?_
    intro name hname hnew
    rw [List.map_singleton, List.mem_singleton] at hnew
    obtain ⟨t, ht, rfl⟩ := List.mem_map.mp hname
    obtain ⟨_, i, hi, rfl⟩ | ⟨i, hi, rfl⟩ := h.source_cases t ht
    · have := (tableAlias_inj.mp hnew).2
      omega
    · exact variableAlias_ne_tableAlias _ _ _ _ hnew
  source_cases t ht := by
    rcases List.mem_append.mp ht with ht | ht
    · obtain ⟨a, i, hi, rfl⟩ | hvar := h.source_cases t ht
      · exact Or.inl ⟨a, i, Nat.lt_succ_of_lt hi, rfl⟩
      · exact Or.inr hvar
    · exact Or.inl ⟨arity, s.tables, Nat.lt_succ_self _, List.mem_singleton.mp ht⟩
  variable_mem i hi := List.mem_append_left _ (h.variable_mem i hi)
  conditions := h.conditions_append (owns_tableAlias s.number s.tables)
  earlier := h.earlier

/-- So does a new variable. -/
theorem addVariable (h : s.Valid) (name : String) : (s.addVariable name).Valid where
  nodup := by
    show ((s.sources ++
      [(⟨Schema.symbolTable, variableAlias s.number s.vars.length⟩ : Source)]).map
        Source.name).Nodup
    rw [List.map_append]
    refine List.Nodup.append h.nodup (List.nodup_singleton _) ?_
    -- The new alias counts one further than those of the variables so far.
    intro other hother hnew
    rw [List.map_singleton, List.mem_singleton] at hnew
    obtain ⟨t, ht, rfl⟩ := List.mem_map.mp hother
    obtain ⟨_, i, hi, rfl⟩ | ⟨i, hi, rfl⟩ := h.source_cases t ht
    · exact tableAlias_ne_variableAlias _ _ _ _ hnew
    · have := (variableAlias_inj.mp hnew).2
      omega
  source_cases t ht := by
    rcases List.mem_append.mp ht with ht | ht
    · obtain htable | ⟨i, hi, rfl⟩ := h.source_cases t ht
      · exact Or.inl htable
      · exact Or.inr ⟨i, by simp [Scope.addVariable]; omega, rfl⟩
    · exact Or.inr ⟨s.vars.length, by simp [Scope.addVariable], List.mem_singleton.mp ht⟩
  variable_mem i hi := by
    have hi : i < s.vars.length + 1 := by simpa [Scope.addVariable] using hi
    rcases Nat.lt_succ_iff_lt_or_eq.mp hi with hi | rfl
    · exact List.mem_append_left _ (h.variable_mem i hi)
    · exact List.mem_append_right _ (List.mem_singleton.mpr rfl)
  conditions c hc := by
    rcases List.mem_append.mp hc with hc | hc
    · exact h.conditions_append (owns_variableAlias s.number s.vars.length) c hc
    · rw [List.mem_singleton.mp hc, rangeCondition, Condition.WellScoped]
      refine ⟨⟨_, List.mem_append_right _ (List.mem_singleton.mpr rfl), rfl, ?_⟩, trivial⟩
      exact Or.inl ⟨rfl, by decide⟩
  earlier c hc := by
    rcases List.mem_append.mp hc with hc | hc
    · exact h.earlier c hc
    · rw [List.mem_singleton.mp hc]
      simp [rangeCondition, Condition.declared]

/-- A column of a variable's source belongs to it. -/
theorem variable_wellScoped (h : s.Valid) {i : Nat} (hi : i < s.vars.length) {field : String}
    (hfield : field ∈ Schema.symbolColumns) :
    (Expr.column (variableAlias s.number i) field).WellScoped s.sources :=
  ⟨_, h.variable_mem i hi, rfl, Or.inl ⟨rfl, hfield⟩⟩

/-- The column of a variable is visible, whether it was there before or has just been added. -/
theorem idOf (h : s.Valid) (name : String) :
    (s.idOf name).2.Valid ∧ (s.idOf name).1.WellScoped (s.idOf name).2.sources := by
  obtain ⟨i, hidx, heq⟩ | ⟨-, heq⟩ := s.idOf_cases name <;> rw [heq]
  · have hi : i < s.vars.length := (List.findIdx?_eq_some_iff_getElem.mp hidx).1
    exact ⟨h, h.variable_wellScoped hi (by decide)⟩
  · have hv := h.addVariable name
    exact ⟨hv, hv.variable_wellScoped (i := s.vars.length) (by simp [Scope.addVariable]) (by decide)⟩

end Valid

end Scope

/-! ### Adding goals -/

/-- A table of facts has a column for each position up to its arity. -/
theorem Schema.argColumn_mem_factColumns {position arity : Nat} (hpos : 1 ≤ position)
    (hle : position ≤ arity) : Schema.argColumn position ∈ Schema.factColumns arity := by
  refine List.mem_cons_of_mem _ (List.mem_map.mpr ⟨position - 1, ?_, ?_⟩)
  · rw [List.mem_range]
    omega
  · rw [Nat.sub_add_cancel hpos]

namespace Compiler

open Scope (Valid Grows Earlier)

variable {c : Compiler} {rule : Option Rule} {s s' : Scope}

/-- Compiling an argument only ever adds to a scope. -/
theorem argument_grows {t : Term} {value : Expr} (h : c.argument rule s t = .ok (value, s')) :
    Grows s s' := by
  obtain ⟨_, _, -, -, -, -, rfl⟩ | ⟨name, -, -, hid⟩ | ⟨_, -, -, rfl⟩ | ⟨_, _, -, -, -, rfl⟩ :=
    argument_cases h
  · exact .refl _
  · have := s.grows_idOf name
    rwa [hid] at this
  · exact .refl _
  · exact .refl _

theorem matchColumns_grows {source : String} {position : Nat} {ts : List Term}
    (h : c.matchColumns rule source position ts s = .ok s') : Grows s s' := by
  induction ts generalizing position s with
  | nil =>
    obtain rfl : s = s' := by simpa [matchColumns] using h
    exact .refl s
  | cons t ts ih =>
    obtain ⟨value, s₁, harg, hrest⟩ := matchColumns_cons h
    exact (argument_grows harg).trans ((s₁.grows_equate _ _).trans (ih hrest))

theorem addFacts_grows {g : Goal} (h : c.addFacts rule s g = .ok s') : Grows s s' := by
  obtain ⟨id, -, hcolumns⟩ := addFacts_eq_ok h
  exact ((s.grows_addTable _).trans (Scope.grows_equate _ _ _)).trans (matchColumns_grows hcolumns)

theorem matchHead_grows {key : Symbol} {pairs : List (Term × Term)} {b b' : Bindings}
    (h : c.matchHead rule key pairs b s = .ok (b', s')) : Grows s s' := by
  induction pairs generalizing b s with
  | nil =>
    obtain ⟨-, rfl⟩ : b = b' ∧ s = s' := by simpa [matchHead] using h
    exact .refl s
  | cons pair rest ih =>
    obtain ⟨head, arg⟩ := pair
    obtain ⟨value, s₁, harg, hrest⟩ := matchHead_cons h
    refine (argument_grows harg).trans ?_
    obtain ⟨_, _, -, -, hrest⟩ | ⟨_, -, -, hrest⟩ | ⟨_, _, -, -, hrest⟩ | ⟨_, -, hrest⟩ := hrest
    · exact (s₁.grows_equate _ _).trans (ih hrest)
    · exact ih hrest
    · exact (s₁.grows_equate _ _).trans (ih hrest)
    · exact ih hrest

/-- So does adding a goal, by way of a table or of a nested scan. -/
theorem addGoal_grows {g : Goal} (h : c.addGoal rule s g = .ok s') : Grows s s' := by
  obtain ⟨fragment, -, hrule⟩ | ⟨-, -, -, -, hfacts⟩ := addGoal_cases h
  · obtain ⟨_, b, s₁, -, hhead, rfl⟩ := addRule_eq_ok hrule
    exact (matchHead_grows hhead).trans (s₁.grows_require _)
  · exact addFacts_grows hfacts

/-- And so do all goals, one after the other. -/
theorem addGoals_grows {goals : List Goal} (h : c.addGoals rule goals s = .ok s') : Grows s s' := by
  induction goals generalizing s with
  | nil =>
    obtain rfl : s = s' := by simpa [addGoals] using h
    exact .refl s
  | cons g gs ih =>
    obtain ⟨s₁, hgoal, hrest⟩ := addGoals_cons h
    exact (addGoal_grows hgoal).trans (ih hrest)

/-- The value of an argument refers to what is visible afterwards. -/
theorem argument_valid {t : Term} {value : Expr} (hs : s.Valid)
    (h : c.argument rule s t = .ok (value, s')) : s'.Valid ∧ value.WellScoped s'.sources := by
  obtain ⟨_, _, -, -, -, rfl, rfl⟩ | ⟨name, -, -, hid⟩ | ⟨_, -, rfl, rfl⟩ | ⟨_, _, -, -, rfl, rfl⟩ :=
    argument_cases h
  · exact ⟨hs, trivial⟩
  · have := hs.idOf name
    rwa [hid] at this
  · exact ⟨hs, trivial⟩
  · exact ⟨hs, trivial⟩

/-- Matching the columns of a fact table from a place on needs as many columns as there are terms. -/
theorem matchColumns_valid {source : String} {arity position : Nat} {ts : List Term} (hs : s.Valid)
    (hsource : ⟨Schema.factTable arity, source⟩ ∈ s.sources) (hpos : 1 ≤ position)
    (hlen : position + ts.length ≤ arity + 1)
    (h : c.matchColumns rule source position ts s = .ok s') : s'.Valid := by
  induction ts generalizing position s with
  | nil =>
    obtain rfl : s = s' := by simpa [matchColumns] using h
    exact hs
  | cons t ts ih =>
    obtain ⟨value, s₁, harg, hrest⟩ := matchColumns_cons h
    obtain ⟨hs₁, hvalue⟩ := argument_valid hs harg
    have hsource₁ := (argument_grows harg).sources_mem _ hsource
    rw [List.length_cons] at hlen
    have hcolumn : (Expr.column source (Schema.argColumn position)).WellScoped s₁.sources :=
      ⟨_, hsource₁, rfl, Or.inr ⟨arity, rfl, Schema.argColumn_mem_factColumns hpos (by omega)⟩⟩
    exact ih (hs₁.equate hcolumn hvalue) hsource₁ (by omega) (by omega) hrest

/-- The columns that are matched belong to the table that was added. -/
theorem addFacts_valid {g : Goal} (hs : s.Valid) (h : c.addFacts rule s g = .ok s') : s'.Valid := by
  obtain ⟨id, -, hcolumns⟩ := addFacts_eq_ok h
  have hsource : ⟨Schema.factTable g.args.length, tableAlias s.number s.tables⟩ ∈
      (s.addTable g.args.length).2.sources :=
    List.mem_append_right _ (List.mem_singleton.mpr rfl)
  have hfunctor : (Expr.column (tableAlias s.number s.tables) Schema.functorColumn).WellScoped
      (s.addTable g.args.length).2.sources :=
    ⟨_, hsource, rfl, Or.inr ⟨g.args.length, rfl, List.mem_cons_self⟩⟩
  exact matchColumns_valid ((hs.addTable g.args.length).equate hfunctor (Expr.wellScoped_int _ id))
    hsource le_rfl (by omega) hcolumns

/-- What head variables are bound to is visible in the scope. -/
theorem matchHead_valid {key : Symbol} {pairs : List (Term × Term)} {b b' : Bindings}
    (hs : s.Valid) (hb : ∀ entry ∈ b, entry.2.WellScoped s.sources)
    (h : c.matchHead rule key pairs b s = .ok (b', s')) :
    s'.Valid ∧ ∀ entry ∈ b', entry.2.WellScoped s'.sources := by
  induction pairs generalizing b s with
  | nil =>
    obtain ⟨rfl, rfl⟩ : b = b' ∧ s = s' := by simpa [matchHead] using h
    exact ⟨hs, hb⟩
  | cons pair rest ih =>
    obtain ⟨head, arg⟩ := pair
    obtain ⟨value, s₁, harg, hrest⟩ := matchHead_cons h
    obtain ⟨hs₁, hvalue⟩ := argument_valid hs harg
    have hb₁ : ∀ entry ∈ b, entry.2.WellScoped s₁.sources :=
      fun entry hentry ↦ (hb entry hentry).mono (argument_grows harg).sources_mem
    obtain ⟨name, previous, -, hlookup, hrest⟩ | ⟨name, -, -, hrest⟩ | ⟨_, id, -, -, hrest⟩ |
      ⟨_, -, hrest⟩ := hrest
    · exact ih (hs₁.equate (hb₁ _ (mem_of_lookup_eq_some hlookup)) hvalue) hb₁ hrest
    · refine ih hs₁ (fun entry hentry ↦ ?_) hrest
      rcases List.mem_append.mp hentry with hentry | hentry
      · exact hb₁ entry hentry
      · rw [List.mem_singleton.mp hentry]
        exact hvalue
    · exact ih (hs₁.equate hvalue (Expr.wellScoped_int _ id)) hb₁ hrest
    · exact ih hs₁ hb₁ hrest

/-- Every fragment is well scoped by itself and declares aliases of scopes before `number` only. -/
def CacheBefore (c : Compiler) (number : Nat) : Prop :=
  ∀ entry ∈ c.fragments, entry.2.scan.WellScoped [] ∧
    ∀ name ∈ entry.2.scan.declared, Earlier number name

theorem CacheBefore.fragment {number : Nat} (hc : c.CacheBefore number) {key : Symbol}
    {fragment : Fragment} (h : c.fragment? key = some fragment) :
    fragment.scan.WellScoped [] ∧ ∀ name ∈ fragment.scan.declared, Earlier number name :=
  hc (key, fragment) (mem_of_lookup_eq_some h)

/-- A nested scan comes from an earlier scope, so its aliases differ from those around it. -/
theorem addGoal_valid {g : Goal} (hc : c.CacheBefore s.number) (hs : s.Valid)
    (h : c.addGoal rule s g = .ok s') : s'.Valid := by
  obtain ⟨fragment, hfragment, hrule⟩ | ⟨-, -, -, -, hfacts⟩ := addGoal_cases h
  · obtain ⟨_, b, s₁, -, hhead, rfl⟩ := addRule_eq_ok hrule
    obtain ⟨hs₁, hb⟩ := matchHead_valid hs (by simp) hhead
    obtain ⟨hscoped, hearlier⟩ := hc.fragment hfragment
    rw [← (matchHead_grows hhead).number_eq] at hearlier
    refine hs₁.require ?_ ?_
    · rw [Condition.WellScoped]
      refine Scan.WellScoped.substitute (by simp) hb _ hscoped fun t ht ↦ Or.inr fun hmem ↦ ?_
      exact (hs₁.owns ht).not_earlier (hearlier _ hmem)
    · intro name hname
      rw [Condition.declared, Scan.declared_substitute] at hname
      exact hearlier name hname
  · exact addFacts_valid hs hfacts

/-- A scope stays valid while goals are added, as long as the cache is from before. -/
theorem addGoals_valid {goals : List Goal} (hc : c.CacheBefore s.number) (hs : s.Valid)
    (h : c.addGoals rule goals s = .ok s') : s'.Valid := by
  induction goals generalizing s with
  | nil =>
    obtain rfl : s = s' := by simpa [addGoals] using h
    exact hs
  | cons g gs ih =>
    obtain ⟨s₁, hgoal, hrest⟩ := addGoals_cons h
    refine ih ?_ (addGoal_valid hc hs hgoal) hrest
    rwa [(addGoal_grows hgoal).number_eq]

/-! ### Everything a compiler returns -/

/-- What a compiler keeps is well scoped and comes from the scopes it has opened. -/
def Scoped (c : Compiler) : Prop := c.CacheBefore (c.scopes + 1)

/-- A scan is well scoped by itself, and its aliases come from scopes up to `number`. -/
def ScopedUpTo (number : Nat) (scan : Scan) : Prop :=
  scan.WellScoped [] ∧ ∀ name ∈ scan.declared, Earlier (number + 1) name

/-- A scan from scopes up to one number is one from scopes up to every larger number. -/
theorem ScopedUpTo.mono {m n : Nat} {scan : Scan} (h : ScopedUpTo m scan) (hle : m ≤ n) :
    ScopedUpTo n scan :=
  ⟨h.1, fun name hname ↦ (h.2 name hname).mono (by omega)⟩

theorem Scoped.fragment (h : c.Scoped) {key : Symbol} {fragment : Fragment}
    (hfragment : c.fragment? key = some fragment) : ScopedUpTo c.scopes fragment.scan :=
  CacheBefore.fragment h hfragment

/-- Opening a scope makes the scopes of the cache earlier than the current one. -/
theorem Scoped.openScope (h : c.Scoped) : c.openScope.2.Scoped := fun entry hentry ↦
  ScopedUpTo.mono (h entry hentry) (Nat.le_succ _)

end Compiler

/-- A finished scope asks for columns of its own sources. -/
theorem Scope.Valid.finish {s : Scope} (h : s.Valid) (names : List String) :
    Compiler.ScopedUpTo s.number (s.finish names).scan := by
  constructor
  · refine Scan.wellScoped_iff.mpr ⟨h.nodup, by simp, h.conditions, fun entry hentry ↦ ?_⟩
    obtain ⟨⟨⟨name, source⟩, i⟩, hmem, rfl⟩ := List.mem_map.mp hentry
    have hcolumn := List.fst_mem_of_mem_zipIdx hmem
    obtain ⟨_, -, hname⟩ := List.mem_filterMap.mp hcolumn
    obtain ⟨j, hj, heq⟩ := Option.map_eq_some_iff.mp hname
    obtain ⟨-, rfl⟩ := Prod.mk.inj heq
    exact h.variable_wellScoped (List.findIdx?_eq_some_iff_getElem.mp hj).1 (by decide)
  · intro name hname
    obtain ⟨t, ht, rfl⟩ | ⟨c, hc, hname⟩ := Scan.mem_declared.mp hname
    · exact ⟨s.number, Nat.lt_succ_self _, h.owns ht⟩
    · exact (h.earlier c hc name hname).mono (Nat.le_succ _)

namespace Compiler

variable {c : Compiler}

/-- What is compiled from goals is well scoped, and from scopes up to the one just opened. -/
theorem compileGoals_scoped (hc : c.Scoped) {rule : Option Rule} {goals : List Goal}
    {names : List String} {fragment : Fragment}
    (h : (c.compileGoals rule goals names).2 = .ok fragment) :
    ScopedUpTo (c.scopes + 1) fragment.scan := by
  obtain ⟨s, hgoals, rfl⟩ := compileGoals_eq_ok h
  have hcache : c.openScope.2.CacheBefore c.openScope.1.number := hc
  have hvalid : s.Valid := addGoals_valid hcache (Scope.Valid.empty _) hgoals
  have hnumber : s.number = c.scopes + 1 := (addGoals_grows hgoals).number_eq
  have hfinish := hvalid.finish names
  rwa [hnumber] at hfinish

/-- A rule comes from the cache, or is compiled in a scope of its own and then cached. -/
theorem scoped_compileRule (hc : c.Scoped) (r : Rule) :
    (c.compileRule r).1.Scoped ∧
      ∀ fragment, (c.compileRule r).2 = .ok fragment → fragment.scan.WellScoped [] := by
  obtain ⟨cached, hcached, h⟩ | ⟨-, s, hgoals, h⟩ | ⟨-, e, -, h⟩ := c.compileRule_cases r <;> rw [h]
  · refine ⟨hc, fun fragment hfragment ↦ ?_⟩
    obtain rfl := Except.ok.inj hfragment
    exact (hc.fragment hcached).1
  · have hfinish : (c.compileGoals (some r) (c.policy.select r.body) (c.ruleNames r)).2 =
        .ok (s.finish (c.ruleNames r)) := by
      simp only [compileGoals, hgoals]
      rfl
    have hnew : ScopedUpTo (c.scopes + 1) (s.finish (c.ruleNames r)).scan :=
      compileGoals_scoped hc hfinish
    refine ⟨fun entry hentry ↦ ?_, fun fragment hfragment ↦ ?_⟩
    · rcases List.mem_append.mp hentry with hentry | hentry
      · exact hc.openScope entry hentry
      · rw [List.mem_singleton.mp hentry]
        exact hnew
    · obtain rfl := Except.ok.inj hfragment
      exact hnew.1
  · refine ⟨hc.openScope, fun fragment hfragment ↦ ?_⟩
    cases hfragment

/-- Resolution keeps a scoped cache. -/
theorem scoped_resolve (hc : c.Scoped) (maxPasses : Nat) : (c.resolve maxPasses).compiler.Scoped :=
  resolve_induction (P := Scoped) (fun _ r _ h ↦ (scoped_compileRule h r).1) (fun _ _ _ h ↦ h) hc
    maxPasses

/-- Where a head meets parameters, it is bound to placeholders for these only. -/
theorem HeadMatch.external_foldlM {key : Symbol} {pairs : List (Term × Term)} {m m' : HeadMatch}
    {Q : String → Prop} (hm : ∀ entry ∈ m.external, ∃ x, entry.2 = .param (.external x) ∧ Q x)
    (hpairs : ∀ pair ∈ pairs, ∀ x, pair.2 = .param x → Q x)
    (h : pairs.foldlM (HeadMatch.step? key) m = some m') :
    ∀ entry ∈ m'.external, ∃ x, entry.2 = .param (.external x) ∧ Q x := by
  induction pairs generalizing m with
  | nil =>
    obtain rfl : m = m' := by simpa using h
    exact hm
  | cons pair rest ih =>
    rw [List.foldlM_cons] at h
    obtain ⟨m₁, hstep, hrest⟩ := Option.bind_eq_some_iff.mp h
    obtain ⟨hpair, hpairs⟩ := List.forall_mem_cons.mp hpairs
    refine ih ?_ hpairs hrest
    obtain ⟨_, _, _, -, -, -, rfl⟩ | ⟨_, _, -, -, -, rfl⟩ | ⟨_, outer, rfl, -, -, rfl⟩ |
      ⟨_, _, -, rfl⟩ := HeadMatch.step?_cases hstep
    · exact hm
    · exact hm
    · intro entry hentry
      rcases List.mem_append.mp hentry with hentry | hentry
      · exact hm entry hentry
      · rw [List.mem_singleton.mp hentry]
        exact ⟨outer, rfl, hpair outer rfl⟩
    · exact hm

theorem HeadMatch.external_isParam {key : Symbol} {pairs : List (Term × Term)} {m : HeadMatch}
    (h : pairs.foldlM (HeadMatch.step? key) {} = some m) :
    ∀ entry ∈ m.external, ∃ x, entry.2 = .param (.external x) := fun entry hentry ↦ by
  obtain ⟨x, hx, -⟩ := HeadMatch.external_foldlM (Q := fun _ ↦ True) (by simp) (by simp) h entry hentry
  exact ⟨x, hx⟩

/-- What is substituted into a cached scan are placeholders, so nothing can be captured. -/
theorem reuse_wellScoped (hc : c.Scoped) {g : Goal} {compiled : CompiledQuery}
    (h : c.reuse g = some compiled) : compiled.fragment.scan.WellScoped [] := by
  obtain ⟨r, m, fragment, -, hm, hfragment, rfl⟩ := reuse_eq_some h
  refine Scan.WellScoped.substitute (by simp) (fun entry hentry ↦ ?_) _ (hc.fragment hfragment).1
    (by simp)
  obtain ⟨name, hname⟩ := HeadMatch.external_isParam hm entry hentry
  rw [hname]
  trivial

/-- Whatever a compiler is asked for, what it returns is well scoped and what it keeps stays so. -/
theorem invariant_scoped :
    Invariant (fun _ ↦ True) Scoped fun fragment ↦ fragment.scan.WellScoped [] where
  resolve _ maxPasses hc := scoped_resolve hc maxPasses
  compileRule _ r _ hc := (scoped_compileRule hc r).1
  markFailed _ _ _ _ hc := hc
  openScope _ hc := hc.openScope
  rule _ r fragment _ hc := (scoped_compileRule hc r).2 fragment
  goals _ _ _ _ hc h := (compileGoals_scoped hc h).1
  reuse _ _ _ hc := reuse_wellScoped hc

/-- **No capture, no dangling column.** Whatever program, symbols and policy a compiler starts with,
and whatever it is asked for in which order, with failures in between: every fragment it returns and
every fragment it keeps is well scoped. -/
theorem wellScoped_after (program : Program) (symbols : SymbolTable) (policy : BodyPolicy)
    (ops : List Operation) :
    (∀ fragment ∈ ((Compiler.fresh program symbols policy).performAll ops).2,
        fragment.scan.WellScoped []) ∧
      ∀ entry ∈ ((Compiler.fresh program symbols policy).performAll ops).1.fragments,
        entry.2.scan.WellScoped [] := by
  have hempty : (Compiler.fresh program symbols policy).Scoped := fun entry hentry ↦
    absurd hentry List.not_mem_nil
  obtain ⟨hafter, hreturned⟩ := invariant_scoped.performAll (fun _ _ ↦ trivial) hempty
  exact ⟨hreturned, fun entry hentry ↦ (hafter entry hentry).1⟩

end Compiler

end HornQuery
