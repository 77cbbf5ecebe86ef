import Mathlib
import HornQuery.Fragment
import HornQuery.Proofs.Scoping
import HornQuery.Scan.Join

/-!
# What the truth of a scan depends on

Two facts about evaluation, on which every argument about nested scans rests.

A well scoped condition depends on the rows drawn for the sources around it and on the values of its
own placeholders, and on nothing else (`Condition.holds_congr`, `Scan.holds_congr`). So a scan may be
nested anywhere, and drawing one more row for a new source changes no condition that was there before
(`Condition.holdAll_bind`).

Replacing placeholders in a scan is the same as evaluating the scan where they have the values of their
replacements (`Scan.holds_substitute`). The replacements are evaluated outside of the scan, so this
needs that the scan declares no alias that one of them names.
-/

namespace HornQuery

variable {db : Database} {env env' : Env}

/-! ### Agreement -/

/-- The environments have the same rows for `sources` and the same values for `keys`. -/
structure Env.Coincide (sources : List Source) (keys : List Placeholder) (env env' : Env) : Prop where
  column : ∀ s ∈ sources, env.column s.name = env'.column s.name
  param : ∀ key ∈ keys, env.param key = env'.param key

namespace Env.Coincide

variable {sources sources' : List Source} {keys keys' : List Placeholder}

/-- Environments that coincide on more coincide on less. -/
theorem mono (h : Coincide sources keys env env') (hsources : ∀ s ∈ sources', s ∈ sources)
    (hkeys : ∀ key ∈ keys', key ∈ keys) : Coincide sources' keys' env env' :=
  ⟨fun s hs ↦ h.column s (hsources s hs), fun key hkey ↦ h.param key (hkeys key hkey)⟩

/-- Drawing the same row extends agreement to its source. -/
theorem bind (h : Coincide sources keys env env') (s : Source) (columns : List String)
    (row : List Cell) :
    Coincide (sources ++ [s]) keys (env.bind s.name columns row) (env'.bind s.name columns row) := by
  refine ⟨fun t ht ↦ ?_, h.param⟩
  funext field
  simp only [Env.bind]
  split
  · rfl
  · rename_i hne
    rcases List.mem_append.mp ht with ht | ht
    · exact congrFun (h.column t ht) field
    · exact absurd (congrArg Source.name (List.mem_singleton.mp ht)) hne

end Env.Coincide

/-- Whether some way to draw rows passes a test does not depend on what the test cannot see. -/
theorem Database.any_draws_congr {visible sources : List Source} {keys : List Placeholder}
    {f f' : Env → Bool} (h : Env.Coincide visible keys env env')
    (hf : ∀ e e', Env.Coincide (visible ++ sources) keys e e' → f e = f' e') :
    (db.draws sources env).any f = (db.draws sources env').any f' := by
  induction sources generalizing visible env env' with
  | nil =>
    have hstart : f env = f' env' := hf env env' (by simpa using h)
    simp [Database.draws, hstart]
  | cons s rest ih =>
    simp only [Database.draws, List.any_flatMap]
    refine congrArg _ (funext fun row ↦ ?_)
    exact ih (h.bind s _ row) fun e e' he ↦ hf e e' (by simpa using he)

/-- A well scoped expression has the same value wherever its sources and placeholders do. -/
theorem Expr.value_coincide {visible : List Source} {e : Expr} (hscoped : e.WellScoped visible)
    (h : Env.Coincide visible e.placeholders env env') : e.value env = e.value env' := by
  cases e with
  | column source field =>
    obtain ⟨s, hs, rfl, -⟩ := hscoped
    exact congrFun (h.column s hs) field
  | int value => rfl
  | param key => exact h.param key List.mem_cons_self

mutual

/-- A condition depends on the rows around it and on its own placeholders. -/
theorem Condition.holds_congr {visible : List Source} {env env' : Env} :
    (c : Condition) → c.WellScoped visible → Env.Coincide visible c.textual env env' →
      c.holds db env = c.holds db env'
  | .eq left right => by
    rintro ⟨hleft, hright⟩ h
    have hl : left.value env = left.value env' :=
      Expr.value_coincide hleft (h.mono (fun _ ↦ id) fun _ ↦ List.mem_append_left _)
    have hr : right.value env = right.value env' :=
      Expr.value_coincide hright (h.mono (fun _ ↦ id) fun _ ↦ List.mem_append_right _)
    simp only [Condition.holds, hl, hr]
  | .exists scan => fun hscoped h ↦ by
    simp only [Condition.holds]
    exact scan.holds_congr hscoped h

/-- A scan reads nothing but what is visible and its own placeholders. Its own rows are drawn anew
in both environments. -/
theorem Scan.holds_congr {visible : List Source} {env env' : Env} :
    (s : Scan) → s.WellScoped visible → Env.Coincide visible s.textual env env' →
      s.holds db env = s.holds db env'
  | ⟨sources, conditions, _⟩ => by
    rintro ⟨-, -, hconditions, -⟩ h
    simp only [Scan.holds]
    exact Database.any_draws_congr h fun e e' he ↦
      Condition.holdAll_congr conditions hconditions he

theorem Condition.holdAll_congr {visible : List Source} {env env' : Env} :
    (cs : List Condition) → Condition.AllWellScoped visible cs →
      Env.Coincide visible (Condition.textualOf cs) env env' →
      Condition.holdAll db env cs = Condition.holdAll db env' cs
  | [] => fun _ _ ↦ rfl
  | c :: cs => by
    rintro ⟨hc, hcs⟩ h
    simp only [Condition.holdAll]
    rw [c.holds_congr hc (h.mono (fun _ ↦ id) fun _ ↦ List.mem_append_left _),
      Condition.holdAll_congr cs hcs (h.mono (fun _ ↦ id) fun _ ↦ List.mem_append_right _)]

end

/-- What is read off the ways to draw rows that pass a test does not depend on what neither the test
nor the reading can see. -/
theorem Database.map_filter_draws_congr {α : Type} {visible sources : List Source}
    {keys : List Placeholder} {f f' : Env → Bool} {g g' : Env → α}
    (h : Env.Coincide visible keys env env')
    (hfg : ∀ e e', Env.Coincide (visible ++ sources) keys e e' → f e = f' e' ∧ g e = g' e') :
    ((db.draws sources env).filter f).map g = ((db.draws sources env').filter f').map g' := by
  induction sources generalizing visible env env' with
  | nil =>
    obtain ⟨hf, hg⟩ := hfg env env' (by simpa using h)
    simp only [Database.draws, List.filter_cons, List.filter_nil, hf]
    split <;> simp [hg]
  | cons s rest ih =>
    simp only [Database.draws, List.filter_flatMap, List.map_flatMap]
    refine congrArg (fun k ↦ List.flatMap k _) (funext fun row ↦ ?_)
    exact ih (h.bind s _ row) fun e e' he ↦ hfg e e' (by simpa using he)

/-- The rows of a scan depend on the values of its placeholders. -/
theorem Scan.rows_congr {scan : Scan} (hscoped : scan.WellScoped [])
    (hprojection : ∀ entry ∈ scan.projection, entry.2.placeholders = [])
    (h : Env.Coincide [] scan.textual env env') : scan.rows db env = scan.rows db env' := by
  obtain ⟨sources, conditions, projection⟩ := scan
  obtain ⟨-, -, hconditions, hcolumns⟩ := Scan.wellScoped_iff.mp hscoped
  refine Database.map_filter_draws_congr h fun e e' he ↦ ⟨?_, ?_⟩
  · exact Condition.holdAll_congr _ (Condition.allWellScoped_iff.mpr hconditions) he
  · refine List.map_congr_left fun entry hentry ↦ ?_
    refine Expr.value_coincide (hcolumns entry hentry) (he.mono (fun _ ↦ id) ?_)
    rw [hprojection entry hentry]
    simp

/-! ### Conditions and rows, one more at a time -/

@[simp] theorem Condition.holdAll_append (cs ds : List Condition) :
    Condition.holdAll db env (cs ++ ds) =
      (Condition.holdAll db env cs && Condition.holdAll db env ds) := by
  induction cs with
  | nil => rfl
  | cons c cs ih => simp [Condition.holdAll, ih, Bool.and_assoc]

@[simp] theorem Condition.holdAll_singleton (c : Condition) :
    Condition.holdAll db env [c] = c.holds db env := by
  simp [Condition.holdAll]

/-- Conditions hold together if each of them does. -/
theorem Condition.holdAll_eq_true {cs : List Condition} :
    Condition.holdAll db env cs = true ↔ ∀ c ∈ cs, c.holds db env = true := by
  induction cs with
  | nil => simp [Condition.holdAll]
  | cons c cs ih => simp [Condition.holdAll, ih]

/-- A row for a new source changes no condition that was there before. -/
theorem Condition.holdAll_bind {visible : List Source} {cs : List Condition} {name : String}
    (hcs : ∀ c ∈ cs, c.WellScoped visible) (hname : ∀ s ∈ visible, s.name ≠ name)
    (columns : List String) (row : List Cell) :
    Condition.holdAll db (env.bind name columns row) cs = Condition.holdAll db env cs := by
  refine Condition.holdAll_congr cs (Condition.allWellScoped_iff.mpr hcs)
    ⟨fun s hs ↦ ?_, fun _ _ ↦ rfl⟩
  funext field
  simp [Env.bind, hname s hs]

/-- Rows are drawn from source after source. -/
theorem Database.draws_append (db : Database) (sources sources' : List Source) (env : Env) :
    db.draws (sources ++ sources') env = (db.draws sources env).flatMap (db.draws sources') := by
  induction sources generalizing env with
  | nil => simp [Database.draws]
  | cons s rest ih => simp [Database.draws, List.flatMap_assoc, ih]

/-- Drawing rows changes no placeholder. -/
theorem Database.param_of_mem_draws {sources : List Source} {e : Env}
    (he : e ∈ db.draws sources env) : e.param = env.param := by
  have hagrees : env.AgreesOn e [] := db.agreesOn_of_mem_draws (by simp) he
  exact hagrees.2.symm

/-- In a combination, each source has one of its rows. -/
theorem Database.exists_row_of_mem_draws {sources : List Source}
    (hnodup : (sources.map Source.name).Nodup) {e : Env} (he : e ∈ db.draws sources env)
    {s : Source} (hs : s ∈ sources) :
    ∃ row ∈ (db.sourceTable s).rows, ∀ field,
      e.column s.name field = (((db.sourceTable s).columns.zip row).lookup field).getD .null := by
  induction sources generalizing env with
  | nil => cases hs
  | cons t rest ih =>
    obtain ⟨hnot, hrest⟩ := List.nodup_cons.mp hnodup
    obtain ⟨row, hrow, he⟩ := List.mem_flatMap.mp he
    rcases List.mem_cons.mp hs with rfl | hs
    · refine ⟨row, hrow, fun field ↦ ?_⟩
      -- Later sources have other names, so they leave this row alone.
      have hagrees : Env.AgreesOn _ e [s.name] :=
        db.agreesOn_of_mem_draws (fun t ht heq ↦ hnot (List.mem_map.mpr
          ⟨t, ht, List.mem_singleton.mp heq⟩)) he
      rw [← hagrees.1 s.name List.mem_cons_self]
      simp [Env.bind]
    · exact ih hrest he hs

/-! ### Substitution -/

/-- The environment in which placeholders have the values of the expressions bound to them. -/
def Env.rebind (env : Env) (b : Bindings) : Env :=
  { env with
    param := fun key ↦
      match b.lookup key with
      | some e => e.value env
      | none => env.param key }

theorem Env.rebind_param_of_lookup {b : Bindings} {key : Placeholder} {e : Expr}
    (h : b.lookup key = some e) : (env.rebind b).param key = e.value env := by
  simp [Env.rebind, h]

/-- No expression bound in `b` names one of the aliases. -/
def Bindings.Avoid (b : Bindings) (aliases : List String) : Prop :=
  ∀ entry ∈ b, ∀ source field, entry.2 = .column source field → source ∉ aliases

/-- What avoids many aliases avoids fewer. -/
theorem Bindings.Avoid.mono {b : Bindings} {aliases aliases' : List String} (h : b.Avoid aliases)
    (hsub : ∀ name ∈ aliases', name ∈ aliases) : b.Avoid aliases' :=
  fun entry hentry source field heq hmem ↦ h entry hentry source field heq (hsub source hmem)

/-- For an expression, substituting is rebinding, without any condition. -/
theorem Expr.value_substitute (env : Env) (b : Bindings) (e : Expr) :
    (e.substitute b).value env = e.value (env.rebind b) := by
  cases e with
  | column source field => rfl
  | int value => rfl
  | param key => cases h : b.lookup key <;> simp [Expr.substitute, Expr.value, Env.rebind, h]

/-- A row for a source that no bound expression names may be drawn before or after rebinding. -/
theorem Env.bind_rebind {b : Bindings} {name : String} (h : b.Avoid [name])
    (columns : List String) (row : List Cell) :
    (env.bind name columns row).rebind b = (env.rebind b).bind name columns row := by
  have hvalue : ∀ key e, b.lookup key = some e →
      e.value (env.bind name columns row) = e.value env := by
    intro key e he
    cases e with
    | column source field =>
      have hne : source ≠ name := by
        simpa using h _ (mem_of_lookup_eq_some he) source field rfl
      simp [Expr.value, Env.bind, hne]
    | int value => rfl
    | param key => rfl
  simp only [Env.rebind, Env.bind, Env.mk.injEq, true_and]
  funext key
  cases he : b.lookup key with
  | none => rfl
  | some e => exact hvalue key e he

/-- Rebinding may come before or after rows are drawn, if no bound expression names a source that is
drawn from. -/
theorem Database.draws_rebind (db : Database) {b : Bindings} {sources : List Source}
    (h : b.Avoid (sources.map Source.name)) (env : Env) :
    db.draws sources (env.rebind b) = (db.draws sources env).map (·.rebind b) := by
  induction sources generalizing env with
  | nil => simp [Database.draws]
  | cons s rest ih =>
    have hfirst : b.Avoid [s.name] := h.mono (by simp)
    have hrest : b.Avoid (rest.map Source.name) := h.mono fun _ ↦ List.mem_cons_of_mem _
    simp only [Database.draws, List.map_flatMap]
    refine congrArg (fun f ↦ List.flatMap f _) (funext fun row ↦ ?_)
    rw [← Env.bind_rebind hfirst, ih hrest]

mutual

/-- A condition with placeholders replaced is true exactly if the condition is where they have the
values of their replacements. -/
theorem Condition.holds_substitute {b : Bindings} {env : Env} :
    (c : Condition) → b.Avoid c.declared → (c.substitute b).holds db env = c.holds db (env.rebind b)
  | .eq left right => fun _ ↦ by
    simp only [Condition.substitute, Condition.holds, Expr.value_substitute]
  | .exists scan => fun h ↦ by
    simp only [Condition.substitute, Condition.holds]
    exact scan.holds_substitute h

/-- For a scan, substituting is rebinding if no bound expression names an alias that the scan
declares. -/
theorem Scan.holds_substitute {b : Bindings} {env : Env} :
    (s : Scan) → b.Avoid s.declared → (s.substitute b).holds db env = s.holds db (env.rebind b)
  | ⟨sources, conditions, _⟩ => fun h ↦ by
    have hsources : b.Avoid (sources.map Source.name) := h.mono fun _ ↦ List.mem_append_left _
    have hconditions : b.Avoid (Condition.declaredIn conditions) :=
      h.mono fun _ ↦ List.mem_append_right _
    simp only [Scan.substitute, Scan.holds]
    rw [db.draws_rebind hsources, List.any_map]
    refine congrArg _ (funext fun e ↦ ?_)
    exact Condition.holdAll_substituteAll conditions hconditions

theorem Condition.holdAll_substituteAll {b : Bindings} {env : Env} :
    (cs : List Condition) → b.Avoid (Condition.declaredIn cs) →
      Condition.holdAll db env (Condition.substituteAll b cs) =
        Condition.holdAll db (env.rebind b) cs
  | [] => fun _ ↦ rfl
  | c :: cs => fun h ↦ by
    simp only [Condition.substituteAll, Condition.holdAll]
    rw [c.holds_substitute (h.mono fun _ ↦ List.mem_append_left _),
      Condition.holdAll_substituteAll cs (h.mono fun _ ↦ List.mem_append_right _)]

end

end HornQuery
