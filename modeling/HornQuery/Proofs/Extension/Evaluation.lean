import Mathlib
import HornQuery.Proofs.Extension.Compilation
import HornQuery.Proofs.Pinning

/-!
# Evaluation on a wider database

A wider program has more constants, and a variable is drawn from all of them. A parameter may be
configured as a text that is no constant of the narrower program and is one of the wider. Neither is to
be seen in an answer if the program is safe: what is drawn beyond the constants of the narrower program
makes some goal false.

So every scan finds the same in both databases (`Compiler.steady_resolve`,
`Compiler.solutions_widened`), and it finds nothing where a placeholder has a value beyond those constants,
be it a number or none (`Scan.holds_of_agreeOnConstants`). Together, a query of the narrower program is
executed alike on both (`Compiler.execute_widened`).
-/

namespace HornQuery

open Scope (Valid Grows tableAlias variableAlias rangeCondition)

/-! ### The wider database -/

/-- A test that only constants pass leaves no combination with a row that stands for none. -/
theorem Program.filter_draws_eq_nil {p : Program} {db : Database} {name : String}
    {sources : List Source} (hnot : name ∉ sources.map Source.name) {test : Env → Bool} {env : Env}
    {id : Int} {text arity : Cell} (hid : ¬ p.IsConstant (.integer id))
    (htest : ∀ e ∈ db.draws sources (env.bind name Schema.symbolColumns [.integer id, text, arity]),
      test e = true → p.IsConstant (e.column name "id")) :
    (db.draws sources (env.bind name Schema.symbolColumns [.integer id, text, arity])).filter test =
      [] := by
  refine List.filter_eq_nil_iff.mpr fun e he hpass ↦ hid ?_
  -- Later sources have other names, so they leave this row alone.
  have hagrees : Env.AgreesOn _ e [name] :=
    db.agreesOn_of_mem_draws (fun t ht heq ↦ hnot (List.mem_map.mpr
      ⟨t, ht, List.mem_singleton.mp heq⟩)) he
  have hconstant := htest e he hpass
  rwa [← hagrees.1 name List.mem_cons_self, (env.bind_symbol name (.integer id) arity text).1]
    at hconstant

namespace Program.Widened

variable {p p' : Program} (h : p.Widened p')

include h

/-- The facts of both programs have the same numbers. -/
theorem facts_database (hp : p.Closed) : p'.database.facts = p.database.facts := by
  simp only [database, h.facts]
  refine List.map_congr_left fun f hf ↦ ?_
  obtain ⟨hsymbol, hargs⟩ := hp.facts f hf
  rw [Fact.numbers, Fact.numbers, h.get? hsymbol]
  congr 1
  refine List.map_congr_left fun a ha ↦ ?_
  rw [SymbolTable.constant?, SymbolTable.constant?, h.get? (hargs a ha)]

/-- The rows that the symbol table has in addition have numbers of their own. -/
theorem exists_rows : ∃ added,
    p'.database.symbolTable.rows = p.database.symbolTable.rows ++ added ∧
      ∀ row ∈ added, ∃ id text arity, row = [.integer id, text, arity] ∧
        ¬ p.IsConstant (.integer id) := by
  obtain ⟨added, hadded⟩ := h.extends_symbolTable
  refine ⟨_, by rw [symbolTable_rows, symbolTable_rows, ← hadded, List.map_append], fun row hrow ↦ ?_⟩
  obtain ⟨⟨s, number⟩, hmem, rfl⟩ := List.mem_map.mp hrow
  refine ⟨_, _, _, rfl, fun hconstant ↦ ?_⟩
  obtain ⟨text, id, hid, heq⟩ := hconstant.exists_constant?
  obtain rfl := Cell.integer.inj heq
  -- The constant and the added symbol would share a number, hence be one symbol with two entries.
  have hsame : s = .constant text := p'.symbolTable_numbered.get?_inj
    (SymbolTable.get?_eq_some_iff_mem.mpr (hadded ▸ List.mem_append_right _ hmem))
    (h.extends_symbolTable.get? hid)
  have hnodup := p'.symbolTable.nodup
  rw [← hadded, List.map_append, List.nodup_append] at hnodup
  exact hnodup.2.2 _ (SymbolTable.mem_of_get? hid) _ (List.mem_map_of_mem hmem) hsame.symm

/-- Only the symbol table differs. -/
theorem sourceTable (hp : p.Closed) {t : Source} (ht : t.table ≠ Schema.symbolTable) :
    p'.database.sourceTable t = p.database.sourceTable t := by
  have htable : p'.database.factTable = p.database.factTable := by
    funext arity
    rw [Database.factTable, Database.factTable, Database.factsOf, Database.factsOf,
      h.facts_database hp]
  rw [Database.sourceTable, Database.sourceTable, Database.table?, Database.table?, if_neg ht,
    if_neg ht, htable]

/-- A test that only constants of the narrower program pass leaves the same combinations. -/
theorem filter_draws (hp : p.Closed) {sources : List Source}
    (hnodup : (sources.map Source.name).Nodup) {test : Env → Bool} (env : Env)
    (htest : ∀ e ∈ p'.database.draws sources env, test e = true → ∀ t ∈ sources,
      t.table = Schema.symbolTable → p.IsConstant (e.column t.name "id")) :
    (p'.database.draws sources env).filter test = (p.database.draws sources env).filter test := by
  induction sources generalizing env with
  | nil => rfl
  | cons t rest ih =>
    obtain ⟨hnot, hrest⟩ := List.nodup_cons.mp hnodup
    -- For each row that both databases have, the other sources decide.
    have hrow : ∀ columns, ∀ row ∈ (p'.database.sourceTable t).rows,
        (p'.database.sourceTable t).columns = columns →
        (p'.database.draws rest (env.bind t.name columns row)).filter test =
          (p.database.draws rest (env.bind t.name columns row)).filter test := by
      rintro columns row hmem rfl
      exact ih hrest _ fun e he hpass t' ht' ↦ htest e (List.mem_flatMap.mpr ⟨row, hmem, he⟩) hpass t'
        (List.mem_cons_of_mem _ ht')
    simp only [Database.draws, List.filter_flatMap]
    by_cases ht : t.table = Schema.symbolTable
    · obtain ⟨table, name⟩ := t
      obtain rfl : table = Schema.symbolTable := ht
      obtain ⟨added, hadded, hnew⟩ := h.exists_rows
      simp only [Database.sourceTable_symbol] at hrow ⊢
      rw [hadded, List.flatMap_append]
      have hnone : added.flatMap (fun row ↦ (p'.database.draws rest
          (env.bind name p'.database.symbolTable.columns row)).filter test) = [] := by
        refine List.flatMap_eq_nil_iff.mpr fun row hmem ↦ ?_
        obtain ⟨id, text, arity, rfl, hforeign⟩ := hnew row hmem
        refine filter_draws_eq_nil hnot hforeign fun e he hpass ↦ ?_
        refine htest e (List.mem_flatMap.mpr ⟨_, ?_, he⟩) hpass _ List.mem_cons_self rfl
        rw [Database.sourceTable_symbol, hadded]
        exact List.mem_append_right _ hmem
      rw [hnone, List.append_nil]
      refine List.flatMap_congr fun row hmem ↦ hrow _ row ?_ rfl
      rw [hadded]
      exact List.mem_append_left _ hmem
    · have htable := h.sourceTable hp ht
      rw [htable] at hrow ⊢
      exact List.flatMap_congr fun row hmem ↦ hrow _ row hmem rfl

end Program.Widened

/-! ### The same truth in both databases -/

/-- The condition is true in one database exactly if it is in the other. -/
def Condition.Steady (p p' : Program) (x : Condition) : Prop :=
  ∀ env, x.holds p'.database env = x.holds p.database env

/-- Steady conditions hold together in both databases, or in none. -/
theorem Condition.holdAll_steady {p p' : Program} {cs : List Condition}
    (h : ∀ x ∈ cs, x.Steady p p') (env : Env) :
    Condition.holdAll p'.database env cs = Condition.holdAll p.database env cs := by
  rw [Bool.eq_iff_iff, Condition.holdAll_eq_true, Condition.holdAll_eq_true]
  exact forall₂_congr fun x hx ↦ by rw [h x hx env]

namespace Compiler

variable {c : Compiler} {p p' : Program} {policy : BodyPolicy} {rule : Option Rule} {s s' : Scope}
  {goals : List Goal}

/-- Every scan of the cache finds something in one database exactly if it does in the other. -/
def Steady (c : Compiler) (p p' : Program) : Prop :=
  ∀ entry ∈ c.fragments, ∀ env, entry.2.scan.holds p'.database env = entry.2.scan.holds p.database env

/-- Goals on facts compare cells, and goals on rules ask for steady scans of the cache. -/
theorem addGoal_steady (hc : c.Steady p p') (hcache : c.CacheBefore s.number) (hs : s.Valid)
    (hsteady : s.Conditions (Condition.Steady p p')) {g : Goal} (h : c.addGoal rule s g = .ok s') :
    s'.Conditions (Condition.Steady p p') := by
  have heq : ∀ left right, Condition.Steady p p' (.eq left right) := fun _ _ _ ↦ rfl
  obtain ⟨fragment, hfragment, hadd⟩ | ⟨-, -, -, -, hadd⟩ := addGoal_cases h
  · obtain ⟨r, b, s₁, -, hmatch, rfl⟩ := addRule_eq_ok hadd
    refine (matchHead_conditions heq hsteady hmatch).require fun env ↦ ?_
    have havoid := matchHead_avoid hs (hcache.fragment hfragment).2 hmatch
    rw [Condition.holds, Condition.holds, Scan.holds_substitute _ havoid,
      Scan.holds_substitute _ havoid]
    exact hc _ (mem_of_lookup_eq_some hfragment) _
  · obtain ⟨id, -, hcolumns⟩ := addFacts_eq_ok hadd
    refine matchColumns_conditions heq (Scope.Conditions.require ?_ (heq _ _)) hcolumns
    exact hsteady

/-- So all the conditions of a scope are steady. -/
theorem addGoals_steady (hc : c.Steady p p') (hcache : c.CacheBefore s.number) (hs : s.Valid)
    (hsteady : s.Conditions (Condition.Steady p p')) (h : c.addGoals rule goals s = .ok s') :
    s'.Conditions (Condition.Steady p p') := by
  induction goals generalizing s with
  | nil =>
    obtain rfl : s = s' := by simpa [addGoals] using h
    exact hsteady
  | cons g gs ih =>
    obtain ⟨s₁, hgoal, hrest⟩ := addGoals_cons h
    refine ih ?_ (addGoal_valid hcache hs hgoal) (addGoal_steady hc hcache hs hsteady hgoal) hrest
    rwa [(addGoal_grows hgoal).number_eq]

/-- **Goals have the same solutions in both databases.** -/
theorem solutions_widened (hp : p.Closed) (h : p.Widened p') (hpins : c.Pinning p policy)
    (hscoped : c.Scoped) (hc : c.Steady p p')
    (hgoals : c.openScope.2.addGoals rule goals c.openScope.1 = .ok s) (env : Env) :
    s.solutions p'.database env = s.solutions p.database env := by
  obtain ⟨hvalid, hnodup, -, hvars⟩ := opened hscoped hgoals
  have hopen : c.openScope.2.Steady p p' := hc
  have hcache : c.openScope.2.CacheBefore c.openScope.1.number := hscoped
  have hsteady := addGoals_steady hopen hcache (Scope.Valid.empty _)
    (fun x hx ↦ absurd hx List.not_mem_nil) hgoals
  simp only [Scope.solutions, Condition.holdAll_steady hsteady]
  refine h.filter_draws hp hvalid.nodup env fun e he hholds t ht htable ↦ ?_
  obtain ⟨_, _, -, rfl⟩ | ⟨i, hi, rfl⟩ := hvalid.source_cases t ht
  · exact absurd htable (Schema.factTable_ne_symbolTable _)
  · -- The variable occurs in a goal, and the goal is true.
    obtain ⟨⟨g, hg, hx⟩, hfree⟩ := (hvars _).mp (List.getElem_mem hi)
    obtain ⟨j, hj, hconstant⟩ :=
      (opened_pins hp hpins hscoped hgoals (h.facts_database hp) he hholds g hg _ hx).2 hfree
    obtain ⟨hj, heq⟩ := List.getElem?_eq_some_iff.mp hj
    rwa [hnodup.getElem_inj_iff.mp heq] at hconstant

/-- A finished scope with the same solutions finds the same. -/
theorem holds_finish_widened (h : ∀ env, s.solutions p'.database env = s.solutions p.database env)
    (names : List String) (env : Env) :
    (s.finish names).scan.holds p'.database env = (s.finish names).scan.holds p.database env := by
  rw [Bool.eq_iff_iff, Scope.finish_holds_iff, Scope.finish_holds_iff, h]

/-! ### Resolution -/

/-- A rule that is compiled into a steady cache has a steady scan. The cache pins its heads, so
values beyond the constants are out of the question. -/
theorem steady_compileRule (hp : p.Closed) (h : p.Widened p') (hsafe : p.Safe policy) {r : Rule}
    (hr : r ∈ c.program.rules) (hc : (c.Pinning p policy ∧ c.Scoped) ∧ c.Steady p p') :
    ((c.compileRule r).1.Pinning p policy ∧ (c.compileRule r).1.Scoped) ∧
      (c.compileRule r).1.Steady p p' := by
  obtain ⟨⟨hpins, hscoped⟩, hc⟩ := hc
  refine ⟨pinning_compileRule hp hsafe hr ⟨hpins, hscoped⟩, ?_⟩
  obtain ⟨_, -, heq⟩ | ⟨-, s, hgoals, heq⟩ | ⟨-, _, -, heq⟩ := c.compileRule_cases r <;> rw [heq]
  · exact hc
  · intro entry hentry
    rcases List.mem_append.mp hentry with hentry | hentry
    · exact hc entry hentry
    · rw [List.mem_singleton.mp hentry]
      exact holds_finish_widened (solutions_widened hp h hpins hscoped hc hgoals) _
  · exact hc

/-- **The cached rules of a safe program find the same in both databases.** -/
theorem steady_resolve (hp : p.Closed) (h : p.Widened p') (hsafe : p.Safe policy) (maxPasses : Nat) :
    ((p.compiler policy).resolve maxPasses).compiler.Steady p p' :=
  (resolve_induction (P := fun c ↦ (c.Pinning p policy ∧ c.Scoped) ∧ c.Steady p p')
    (fun _ _ hr hc ↦ steady_compileRule hp h hsafe hr hc)
    (fun c key reason hc ↦
      ⟨⟨hc.1.1.of_sameTask (c.sameTask_markFailed key reason) rfl, hc.1.2⟩, hc.2⟩)
    ⟨⟨⟨worksOn_compiler p _, fun _ hentry ↦ absurd hentry List.not_mem_nil⟩,
      fun _ hentry ↦ absurd hentry List.not_mem_nil⟩,
      fun _ hentry ↦ absurd hentry List.not_mem_nil⟩ maxPasses).2

end Compiler

/-! ### Values beyond the constants -/

/-- The placeholders have the same values, except where neither value is a constant of the program. -/
def Env.AgreeOnConstants (p : Program) (env env' : Env) : Prop :=
  ∀ key, env.param key = env'.param key ∨
    ¬ p.IsConstant (env.param key) ∧ ¬ p.IsConstant (env'.param key)

/-- The scan finds something only where all its placeholders are constants of the program. -/
def Scan.Exacting (scan : Scan) (p : Program) : Prop :=
  ∀ env, scan.holds p.database env = true → ∀ key ∈ scan.textual, p.IsConstant (env.param key)

section Values

variable {p : Program} {env env' : Env} {scan : Scan}

/-- Where two environments do not have the same values for the placeholders of an exacting scan, it
finds nothing in either. -/
theorem Env.AgreeOnConstants.coincide_or (h : env.AgreeOnConstants p env') (hexact : scan.Exacting p) :
    Env.Coincide [] scan.textual env env' ∨
      scan.holds p.database env = false ∧ scan.holds p.database env' = false := by
  by_cases hsame : ∀ key ∈ scan.textual, env.param key = env'.param key
  · exact Or.inl ⟨fun s hs ↦ absurd hs List.not_mem_nil, hsame⟩
  · push Not at hsame
    obtain ⟨key, hkey, hne⟩ := hsame
    obtain ⟨hnot, hnot'⟩ := (h key).resolve_left hne
    exact Or.inr ⟨Bool.eq_false_iff.mpr fun hholds ↦ hnot (hexact env hholds key hkey),
      Bool.eq_false_iff.mpr fun hholds ↦ hnot' (hexact env' hholds key hkey)⟩

/-- An exacting scan only tells constants apart. -/
theorem Scan.holds_of_agreeOnConstants (hscoped : scan.WellScoped []) (hexact : scan.Exacting p)
    (h : env.AgreeOnConstants p env') :
    scan.holds p.database env = scan.holds p.database env' := by
  obtain hcoincide | ⟨hfalse, hfalse'⟩ := h.coincide_or hexact
  · exact scan.holds_congr hscoped hcoincide
  · rw [hfalse, hfalse']

theorem Scan.rows_eq_nil {db : Database} (h : scan.holds db env = false) : scan.rows db env = [] := by
  obtain ⟨sources, conditions, projection⟩ := scan
  rw [Scan.holds, List.any_eq_false] at h
  rw [Scan.rows, Scan.solutions, List.filter_eq_nil_iff.mpr h, List.map_nil]

/-- If in addition no placeholder is projected, its rows are the same as well. -/
theorem Scan.rows_of_agreeOnConstants (hscoped : scan.WellScoped []) (hexact : scan.Exacting p)
    (hprojection : ∀ entry ∈ scan.projection, entry.2.placeholders = [])
    (h : env.AgreeOnConstants p env') :
    scan.rows p.database env = scan.rows p.database env' := by
  obtain hcoincide | ⟨hfalse, hfalse'⟩ := h.coincide_or hexact
  · exact Scan.rows_congr hscoped hprojection hcoincide
  · rw [Scan.rows_eq_nil hfalse, Scan.rows_eq_nil hfalse']

/-- Handing parameters on keeps the agreement. -/
theorem Env.AgreeOnConstants.rebind (h : env.AgreeOnConstants p env') {b : Bindings}
    (hb : ∀ entry ∈ b, ∃ x, entry.2 = .param (.external x)) :
    (env.rebind b).AgreeOnConstants p (env'.rebind b) := by
  intro key
  cases hlookup : b.lookup key with
  | none => simpa [Env.rebind, hlookup] using h key
  | some value =>
    obtain ⟨x, hx⟩ := hb _ (mem_of_lookup_eq_some hlookup)
    obtain rfl : value = .param (.external x) := hx
    rw [Env.rebind_param_of_lookup hlookup, Env.rebind_param_of_lookup hlookup]
    exact h (.external x)

/-- A text has the same number in both programs, or none that is a number of the narrower one. -/
theorem Program.Widened.agreeOnConstants_startEnv {p' : Program} (h : p.Widened p')
    (values : List (Placeholder × String)) :
    (p'.database.startEnv values).AgreeOnConstants p (p.database.startEnv values) := by
  intro key
  simp only [Database.startEnv, p.constantId?_database, p'.constantId?_database]
  cases hvalue : values.lookup key with
  | none => exact Or.inl rfl
  | some text =>
    by_cases htext : .constant text ∈ p.symbols
    · refine Or.inl ?_
      rw [Option.bind_some, Option.bind_some, SymbolTable.constant?, SymbolTable.constant?,
        h.get? htext]
    · have hnone : p.symbolTable.constant? text = none :=
        SymbolTable.get?_eq_none_iff.mpr fun hmem ↦ htext (Program.mem_symbolTable.mp hmem)
      simp only [Option.bind_some, hnone]
      refine Or.inr ⟨?_, Program.not_isConstant_null⟩
      cases hid : p'.symbolTable.constant? text with
      | none => exact Program.not_isConstant_null
      | some id =>
        intro hconstant
        obtain ⟨other, id', hother, heq⟩ := hconstant.exists_constant?
        obtain rfl := Cell.integer.inj heq
        have hmem := Program.mem_symbolTable.mp (SymbolTable.mem_of_get? hother)
        rw [SymbolTable.constant?, ← h.get? hmem] at hother
        exact htext (p'.symbolTable_numbered.get?_inj hid hother ▸ hmem)

end Values

/-! ### Executions -/

/-- A fragment is executed alike where its scan finds the same. -/
theorem Database.execute_congr {db db' : Database} {f : Fragment} {values : List (Placeholder × String)}
    (hholds : f.shape = .existence →
      f.scan.holds db' (db'.startEnv values) = f.scan.holds db (db.startEnv values))
    (hrows : f.shape ≠ .existence →
      f.scan.rows db' (db'.startEnv values) = f.scan.rows db (db.startEnv values)) :
    db'.execute f values = db.execute f values := by
  rw [Database.execute_eq, Database.execute_eq]
  cases hshape : f.shape with
  | existence => simp only [hholds hshape]
  | rows columns => simp only [hrows (by simp [hshape])]

namespace Compiler

variable {c : Compiler} {p p' : Program} {policy : BodyPolicy} {s : Scope} {goals : List Goal}

/-- The cached scan of a safe rule finds something only where all its placeholders are constants. -/
theorem exacting_fragment (hc : c.Reliable p policy) (hpins : c.Pinning p policy) {key : Symbol}
    {fragment : Fragment} (hfragment : c.fragment? key = some fragment) {r : Rule}
    (hr : p.rule? key = some r) : fragment.scan.Exacting p := by
  intro env hholds k hk
  have hmem := mem_of_lookup_eq_some hfragment
  obtain ⟨x, hx, rfl⟩ := hc.selfContained _ hmem r (hc.program ▸ hr) k hk
  exact hpins.heads _ hmem r hr env hholds x hx

/-- The goals of a query are true only where all their parameters are constants. -/
theorem exacting_finish (hc : c.Reliable p policy) (hpins : c.Pinning p policy)
    (hgoals : c.openScope.2.addGoals none goals c.openScope.1 = .ok s) (names : List String) :
    (s.finish names).scan.Exacting p := by
  intro env hholds
  obtain ⟨e, he⟩ := (s.finish_holds_iff names).mp hholds
  obtain ⟨hdraw, hconditions⟩ := List.mem_filter.mp he
  have hopen : c.openScope.2.SelfContained := hc.selfContained
  have hargs := opened_pins hc.closed hpins hc.wellScoped hgoals rfl hdraw hconditions
  rw [← Scope.param_of_mem_solutions he]
  refine addGoals_needs hopen (fun _ h ↦ absurd h List.not_mem_nil) (fun g hg t ht key hkey ↦ ?_) hgoals
  cases t with
  | var x => exact absurd hkey List.not_mem_nil
  | const text => exact absurd hkey List.not_mem_nil
  | param x =>
    rw [List.mem_singleton.mp hkey]
    exact hargs g hg _ ht

/-- A query that is answered from the cache is executed alike on both databases. -/
theorem execute_reuse_widened (hc : c.Reliable p policy) (hpins : c.Pinning p policy)
    (hsteady : c.Steady p p') (h : p.Widened p') {g : Goal} {compiled : CompiledQuery}
    (hreuse : c.reuse g = some compiled) (values : List (Placeholder × String)) :
    p'.database.execute compiled.fragment values = p.database.execute compiled.fragment values := by
  obtain ⟨r, m, fragment, hr, hm, hfragment, rfl⟩ := reuse_eq_some hreuse
  rw [hc.program] at hr
  have hexternal := HeadMatch.external_isParam hm
  have havoid := HeadMatch.external_avoid hm fragment.scan.declared
  refine Database.execute_congr (fun _ ↦ ?_) fun hshape ↦ absurd rfl hshape
  rw [Scan.holds_substitute _ havoid, Scan.holds_substitute _ havoid,
    hsteady _ (mem_of_lookup_eq_some hfragment)]
  exact Scan.holds_of_agreeOnConstants (hc.wellScoped.fragment hfragment).1
    (exacting_fragment hc hpins hfragment hr) ((h.agreeOnConstants_startEnv values).rebind hexternal)

/-- A query with a scope of its own is executed alike on both databases. -/
theorem execute_finish_widened (hc : c.Reliable p policy) (hpins : c.Pinning p policy)
    (hsteady : c.Steady p p') (h : p.Widened p')
    (hgoals : c.openScope.2.addGoals none goals c.openScope.1 = .ok s) (names : List String)
    (values : List (Placeholder × String)) :
    p'.database.execute (s.finish names) values = p.database.execute (s.finish names) values := by
  have hsolutions := solutions_widened hc.closed h hpins hc.wellScoped hsteady hgoals
  have hscoped : (s.finish names).scan.WellScoped [] :=
    ((opened hc.wellScoped hgoals).1.finish names).1
  have hexact := exacting_finish hc hpins hgoals names
  have hagree := h.agreeOnConstants_startEnv values
  refine Database.execute_congr (fun _ ↦ ?_) fun _ ↦ ?_
  · rw [holds_finish_widened hsolutions]
    exact Scan.holds_of_agreeOnConstants hscoped hexact hagree
  · have hrows : (s.finish names).scan.rows p'.database (p'.database.startEnv values) =
        (s.finish names).scan.rows p.database (p'.database.startEnv values) :=
      congrArg _ (hsolutions _)
    rw [hrows]
    exact Scan.rows_of_agreeOnConstants hscoped hexact Scope.placeholders_projection_finish hagree

/-- **A query of a safe program is executed alike on a wider database.** -/
theorem execute_widened (hc : c.Reliable p policy) (hpins : c.Pinning p policy)
    (hsteady : c.Steady p p') (h : p.Widened p') {q : Query} {compiled : CompiledQuery}
    (hcompiled : (c.compileQuery q).2 = .ok compiled) (config : Config) (text : String) :
    compiled.execute config ⟨some p'.database⟩ text = compiled.execute config ⟨some p.database⟩ text := by
  have hexecute : ∀ values, p'.database.execute compiled.fragment values =
      p.database.execute compiled.fragment values := by
    intro values
    obtain ⟨cached, hreuse, heq⟩ | ⟨-, heq⟩ := c.compileQuery_cases q <;> rw [heq] at hcompiled
    · obtain rfl := Except.ok.inj hcompiled
      obtain ⟨g, -, -, -, hg⟩ := reuse?_eq_some hreuse
      exact execute_reuse_widened hc hpins hsteady h hg values
    · obtain ⟨fragment, hfragment, rfl⟩ := except_map_eq_ok hcompiled
      obtain ⟨s, hgoals, rfl⟩ := compileGoals_eq_ok hfragment
      exact execute_finish_widened hc hpins hsteady h hgoals _ values
  simp only [CompiledQuery.execute, Store.query, hexecute]

/-- So the query has the same outcome. -/
theorem answer_widened (hc : c.Reliable p policy) (hpins : c.Pinning p policy)
    (hsteady : c.Steady p p') (h : p.Widened p') (config : Config) (q : Query) :
    (c.answer config ⟨some p'.database⟩ q).outcomes =
      (c.answer config ⟨some p.database⟩ q).outcomes := by
  rcases hcompiled : c.compileQuery q with ⟨d, e | compiled⟩
  · simp only [answer, hcompiled]
  · have hok : (c.compileQuery q).2 = .ok compiled := by rw [hcompiled]
    simp only [answer, hcompiled, execute_widened hc hpins hsteady h hok config q.text]

end Compiler

end HornQuery
