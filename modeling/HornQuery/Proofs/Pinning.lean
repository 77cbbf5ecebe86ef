import Mathlib
import HornQuery.Proofs.Ownership

/-!
# What a true goal pins down

A variable of a goal is drawn from all constants, and the value of a placeholder may be anything. But
where the goal is true, each of its arguments is a constant of the program. A goal on listed facts
compares every argument with a column of a fact. A goal on a rule compares an argument with a constant
of the head, or hands it over to a variable of the head, and the goals of the body pin that variable
down in turn, provided that it occurs there. A program in which each head variable does is safe
(`Program.Safe`).

So in a safe program a compiled rule finds something only where its head variables are constants of the
program (`Compiler.pinning_resolve`). Nothing is assumed about the symbols from which the variables of a
scope are drawn: they may include more than the constants of the program.
-/

namespace HornQuery

open Scope (Valid Grows tableAlias variableAlias rangeCondition)

/-! ### Cells of constants -/

/-- The cell stands for a constant of the program. -/
def Program.IsConstant (p : Program) (cell : Cell) : Prop :=
  ∃ text ∈ p.constants, cell = p.symbolTable.cell text

namespace Program

variable {p : Program}

theorem isConstant_of_constant? {text : String} {id : Int}
    (h : p.symbolTable.constant? text = some id) : p.IsConstant (.integer id) :=
  ⟨text, mem_constants.mpr (mem_symbolTable.mp (SymbolTable.mem_of_get? h)),
    (SymbolTable.cell_of_constant? h).symm⟩

theorem IsConstant.exists_constant? {cell : Cell} (h : p.IsConstant cell) :
    ∃ text id, p.symbolTable.constant? text = some id ∧ cell = .integer id := by
  obtain ⟨text, htext, rfl⟩ := h
  obtain ⟨id, hid⟩ := SymbolTable.exists_get? (mem_symbolTable.mpr (mem_constants.mp htext))
  exact ⟨text, id, hid, SymbolTable.cell_of_constant? hid⟩

theorem not_isConstant_null : ¬ p.IsConstant .null := by
  intro h
  obtain ⟨_, _, -, heq⟩ := h.exists_constant?
  cases heq

/-- What equals a constant is the constant. -/
theorem IsConstant.of_equals {cell cell' : Cell} (h : p.IsConstant cell)
    (heq : cell.equals cell' = true) : p.IsConstant cell' := by
  obtain ⟨_, id, -, rfl⟩ := h.exists_constant?
  cases cell' with
  | integer id' =>
    obtain rfl : id = id' := by simpa using heq
    exact h
  | null => cases heq
  | real x => cases heq
  | text s => cases heq

theorem IsConstant.of_equals_right {cell cell' : Cell} (h : p.IsConstant cell)
    (heq : cell'.equals cell = true) : p.IsConstant cell' := by
  obtain ⟨_, id, -, rfl⟩ := h.exists_constant?
  rwa [Cell.eq_of_equals_integer heq]

end Program

/-! ### Columns of facts -/

/-- Every argument column of a fact table among the sources is a constant of the program. -/
def Env.ReadsFacts (e : Env) (p : Program) (sources : List Source) : Prop :=
  ∀ arity name, ⟨Schema.factTable arity, name⟩ ∈ sources → ∀ i < arity,
    p.IsConstant (e.column name (Schema.argColumn (i + 1)))

theorem Env.ReadsFacts.mono {e : Env} {p : Program} {sources sources' : List Source}
    (h : e.ReadsFacts p sources') (hsub : ∀ t ∈ sources, t ∈ sources') : e.ReadsFacts p sources :=
  fun arity name hmem ↦ h arity name (hsub _ hmem)

/-- A table that has a row is one of the tables that exist. -/
theorem Database.le_maxArity_of_row {db : Database} {arity : Nat} {name : String} {row : List Cell}
    (h : row ∈ (db.sourceTable ⟨Schema.factTable arity, name⟩).rows) : arity ≤ Schema.maxArity := by
  by_contra hlarge
  have hfind : Schema.arities.find? (fun n ↦ Schema.factTable n = Schema.factTable arity) = none := by
    refine List.find?_eq_none.mpr fun n hn ↦ ?_
    have hn : n < Schema.maxArity + 1 := List.mem_range.mp hn
    simp only [Schema.factTable_inj, decide_eq_true_eq]
    omega
  rw [Database.sourceTable, Database.table?, if_neg (Schema.factTable_ne_symbolTable arity), hfind] at h
  exact absurd h List.not_mem_nil

/-- Whatever else is in a database with the facts of a program, its fact tables have constants of the
program in their argument columns. -/
theorem Program.readsFacts_of_mem_draws {p : Program} (hp : p.Closed) {db : Database}
    (hdb : db.facts = p.database.facts) {sources : List Source}
    (hnodup : (sources.map Source.name).Nodup) {env e : Env} (he : e ∈ db.draws sources env) :
    e.ReadsFacts p sources := by
  intro arity name hmem i hi
  obtain ⟨row, hrow, hcolumn⟩ := Database.exists_row_of_mem_draws hnodup he hmem
  have harity := Database.le_maxArity_of_row hrow
  rw [db.sourceTable_fact harity] at hrow hcolumn
  obtain ⟨numbers, hnumbers, rfl⟩ := List.mem_map.mp hrow
  obtain ⟨hfact, hlength⟩ := List.mem_filter.mp hnumbers
  rw [hdb] at hfact
  obtain ⟨f, hf, rfl⟩ := List.mem_map.mp hfact
  obtain ⟨hsymbol, hargs⟩ := hp.facts f hf
  have hknown : f.Known p.symbolTable.symbols :=
    ⟨mem_symbolTable.mpr hsymbol, fun a ha ↦ mem_symbolTable.mpr (hargs a ha)⟩
  obtain ⟨id, hid⟩ := SymbolTable.exists_get? hknown.1
  obtain rfl : f.args.length = arity := by simpa [Fact.numbers] using hlength
  rw [Fact.cells_numbers hknown hid] at hcolumn
  obtain ⟨-, hbound⟩ := e.bind_fact name (.integer id) (f.args.map p.symbolTable.cell)
  have hcell := hbound i (p.symbolTable.cell f.args[i]) (by simp [List.getElem?_eq_getElem hi])
  refine ⟨f.args[i], mem_constants.mpr (hargs _ (List.getElem_mem hi)), ?_⟩
  rw [hcolumn, ← hcell]
  simp [Env.bind, Database.factTable]

/-! ### Arguments -/

/-- The term is compiled to something that is a constant of the program in `e`. -/
def Scope.Pins (s : Scope) (p : Program) (rule : Option Rule) (e : Env) : Term → Prop
  | .var x =>
    (∀ r, rule = some r → r.isParam x = true → p.IsConstant (e.param (.rule r.key x))) ∧
      (FreeIn rule x → ∃ i, s.vars[i]? = some x ∧
        p.IsConstant (e.column (variableAlias s.number i) "id"))
  | .param x => p.IsConstant (e.param (.external x))
  | .const _ => True

/-- What is pinned down stays so while the scope grows. -/
theorem Scope.Pins.mono {s s' : Scope} {p : Program} {rule : Option Rule} {e : Env} {t : Term}
    (h : s.Pins p rule e t) (hgrows : Grows s s') : s'.Pins p rule e t := by
  cases t with
  | var x =>
    refine ⟨h.1, fun hfree ↦ ?_⟩
    obtain ⟨i, hi, hconstant⟩ := h.2 hfree
    obtain ⟨added, hadded⟩ := hgrows.vars_prefix
    refine ⟨i, ?_, hgrows.number_eq ▸ hconstant⟩
    rw [← hadded, List.getElem?_append_left (List.getElem?_eq_some_iff.mp hi).1, hi]
  | param x => exact h
  | const text => trivial

/-- Where the scan finds something, the variables in the head of its rule are constants. -/
def Scan.PinsHead (scan : Scan) (p : Program) (key : Symbol) : Prop :=
  ∀ r, p.rule? key = some r → ∀ env, scan.holds p.database env = true →
    ∀ x, .var x ∈ r.head → p.IsConstant (env.param (.rule key x))

/-- The compiler works on the program with the program's own numbers, and every scan of its cache pins
the head of its rule. -/
structure Compiler.Pinning (c : Compiler) (p : Program) (policy : BodyPolicy) : Prop
    extends c.WorksOn p policy where
  heads : ∀ entry ∈ c.fragments, entry.2.scan.PinsHead p entry.1

namespace Compiler

variable {c : Compiler} {p : Program} {policy : BodyPolicy} {rule : Option Rule} {s s' : Scope}
  {e : Env}

/-- Only the cache and the task matter. -/
theorem Pinning.of_sameTask {d : Compiler} (hc : c.Pinning p policy) (htask : SameTask c d)
    (hfragments : d.fragments = c.fragments) : d.Pinning p policy :=
  ⟨hc.toWorksOn.of_sameTask htask, hfragments ▸ hc.heads⟩

/-- An argument whose value is a constant is pinned down. -/
theorem argument_pins {t : Term} {value : Expr} (h : c.argument rule s t = .ok (value, s'))
    (hvalue : p.IsConstant (value.value e)) : s'.Pins p rule e t := by
  obtain ⟨r, x, rfl, rfl, hparam, rfl, rfl⟩ | ⟨x, rfl, hfree, hid⟩ | ⟨x, rfl, rfl, rfl⟩ |
    ⟨_, _, rfl, -, -, rfl⟩ := argument_cases h
  · refine ⟨fun r' hr' _ ↦ ?_, fun hfree ↦ ?_⟩
    · obtain rfl := Option.some.inj hr'
      exact hvalue
    · rw [hfree r rfl] at hparam
      cases hparam
  · refine ⟨fun r hr hparam ↦ ?_, fun _ ↦ ?_⟩
    · rw [hfree r hr] at hparam
      cases hparam
    · obtain ⟨i, hidx, heq⟩ | ⟨-, heq⟩ := s.idOf_cases x <;> rw [heq] at hid <;>
        obtain ⟨rfl, rfl⟩ := Prod.mk.inj hid
      · obtain ⟨hlt, hbeq, -⟩ := List.findIdx?_eq_some_iff_getElem.mp hidx
        exact ⟨i, by rw [List.getElem?_eq_getElem hlt, eq_of_beq hbeq], hvalue⟩
      · exact ⟨s.vars.length, List.getElem?_concat_length, hvalue⟩
  · exact hvalue
  · trivial

/-- The condition of an equation in a scope is true where all conditions are. -/
theorem equals_of_grows {db : Database} {left right : Expr} (hgrows : Grows (s.equate left right) s')
    (he : Condition.holdAll db e s'.conditions = true) :
    (left.value e).equals (right.value e) = true := by
  have hmem : Condition.eq left right ∈ s'.conditions :=
    hgrows.conditions_mem _ (List.mem_append_right _ List.mem_cons_self)
  have hholds := Condition.holdAll_eq_true.mp he _ hmem
  rwa [Condition.holds] at hholds

/-! ### Goals -/

/-- Columns of facts pin down what is compared with them. -/
theorem matchColumns_pins {source : String} {position : Nat} {ts : List Term}
    (hcolumns : ∀ i < ts.length, p.IsConstant (e.column source (Schema.argColumn (position + i))))
    (h : c.matchColumns rule source position ts s = .ok s')
    (he : Condition.holdAll p.database e s'.conditions = true) : ∀ t ∈ ts, s'.Pins p rule e t := by
  induction ts generalizing position s with
  | nil => exact fun t ht ↦ absurd ht List.not_mem_nil
  | cons t ts ih =>
    obtain ⟨value, s₁, harg, hrest⟩ := matchColumns_cons h
    have hgrows := matchColumns_grows hrest
    have hcolumn : p.IsConstant (e.column source (Schema.argColumn position)) :=
      hcolumns 0 (Nat.succ_pos _)
    refine List.forall_mem_cons.mpr ⟨?_, ih (fun i hi ↦ ?_) hrest⟩
    · exact (argument_pins harg (hcolumn.of_equals (equals_of_grows hgrows he))).mono
        ((s₁.grows_equate _ _).trans hgrows)
    · rw [show position + 1 + i = position + (i + 1) by omega]
      exact hcolumns (i + 1) (Nat.succ_lt_succ hi)

/-- A head variable that is bound stays bound to the same expression. -/
theorem matchHead_lookup {key : Symbol} {pairs : List (Term × Term)} {b b' : Bindings}
    (h : c.matchHead rule key pairs b s = .ok (b', s')) {k : Placeholder} {value : Expr}
    (hvalue : b.lookup k = some value) : b'.lookup k = some value := by
  induction pairs generalizing b s with
  | nil =>
    obtain ⟨rfl, -⟩ : b = b' ∧ s = s' := by simpa [matchHead] using h
    exact hvalue
  | cons pair rest ih =>
    obtain ⟨_, _, -, hrest⟩ := matchHead_cons h
    obtain ⟨_, _, -, -, hrest⟩ | ⟨_, -, -, hrest⟩ | ⟨_, _, -, -, hrest⟩ | ⟨_, -, hrest⟩ := hrest
    · exact ih hrest hvalue
    · refine ih hrest ?_
      rw [lookup_append_singleton, hvalue, Option.some_or]
    · exact ih hrest hvalue
    · exact ih hrest hvalue

/-- A head whose variables are bound to constants pins down the arguments that it is matched with. -/
theorem matchHead_pins (hsymbols : c.symbols = p.symbolTable) {key : Symbol}
    {pairs : List (Term × Term)} (hheads : ∀ pair ∈ pairs, pair.1.isParam = false) {b b' : Bindings}
    (hbound : ∀ x arg, (.var x, arg) ∈ pairs → ∀ value, b'.lookup (.rule key x) = some value →
      p.IsConstant (value.value e))
    (h : c.matchHead rule key pairs b s = .ok (b', s'))
    (he : Condition.holdAll p.database e s'.conditions = true) :
    ∀ pair ∈ pairs, s'.Pins p rule e pair.2 := by
  induction pairs generalizing b s with
  | nil => exact fun pair hpair ↦ absurd hpair List.not_mem_nil
  | cons pair rest ih =>
    obtain ⟨head, arg⟩ := pair
    obtain ⟨hhead, hheads'⟩ := List.forall_mem_cons.mp hheads
    obtain ⟨value, s₁, harg, hrest⟩ := matchHead_cons h
    have hbound' : ∀ x arg, (.var x, arg) ∈ rest → ∀ value, b'.lookup (.rule key x) = some value →
        p.IsConstant (value.value e) := fun x arg hmem ↦ hbound x arg (List.mem_cons_of_mem _ hmem)
    obtain ⟨x, previous, rfl, hlookup, hrest⟩ | ⟨x, rfl, hnone, hrest⟩ | ⟨text, id, rfl, hid, hrest⟩ |
      ⟨_, rfl, -⟩ := hrest
    · -- The variable has a value already, with which the argument has to agree.
      have hgrows := matchHead_grows hrest
      have hprevious := hbound x arg List.mem_cons_self _ (matchHead_lookup hrest hlookup)
      refine List.forall_mem_cons.mpr ⟨?_, ih hheads' hbound' hrest⟩
      exact (argument_pins harg (hprevious.of_equals (equals_of_grows hgrows he))).mono
        ((s₁.grows_equate _ _).trans hgrows)
    · -- The variable is bound here, and its value is a constant by assumption.
      have hvalue := hbound x arg List.mem_cons_self value (matchHead_lookup hrest (by
        rw [lookup_append_singleton, hnone, Option.none_or, if_pos rfl]))
      refine List.forall_mem_cons.mpr ⟨?_, ih hheads' hbound' hrest⟩
      exact (argument_pins harg hvalue).mono (matchHead_grows hrest)
    · have hgrows := matchHead_grows hrest
      have hconstant : p.IsConstant (.integer id) := Program.isConstant_of_constant? (hsymbols ▸ hid)
      refine List.forall_mem_cons.mpr ⟨?_, ih hheads' hbound' hrest⟩
      exact (argument_pins harg (hconstant.of_equals_right (equals_of_grows hgrows he))).mono
        ((s₁.grows_equate _ _).trans hgrows)
    · cases hhead

/-- **The arguments of a true goal are constants of the program.** -/
theorem addGoal_pins (hp : p.Closed) (hc : c.Pinning p policy) (hcache : c.CacheBefore s.number)
    (hs : s.Valid) {g : Goal} (h : c.addGoal rule s g = .ok s')
    (hfacts : e.ReadsFacts p s'.sources)
    (he : Condition.holdAll p.database e s'.conditions = true) :
    ∀ t ∈ g.args, s'.Pins p rule e t := by
  obtain ⟨fragment, hfragment, hadd⟩ | ⟨-, -, -, -, hadd⟩ := addGoal_cases h
  · obtain ⟨r, b, s₁, hr, hmatch, rfl⟩ := addRule_eq_ok hadd
    rw [hc.program] at hr
    have hlength := Program.length_of_rule? hr
    have havoid := matchHead_avoid hs (hcache.fragment hfragment).2 hmatch
    obtain ⟨hbefore, hnested⟩ : Condition.holdAll p.database e s₁.conditions = true ∧
        (Condition.exists (fragment.scan.substitute b)).holds p.database e = true := by
      rw [← Bool.and_eq_true, ← Condition.holdAll_singleton, ← Condition.holdAll_append]
      exact he
    -- The rule finds something where its head variables have the values of the arguments.
    rw [Condition.holds, Scan.holds_substitute _ havoid] at hnested
    have hhead := hc.heads _ (mem_of_lookup_eq_some hfragment) r hr _ hnested
    have hpins := matchHead_pins hc.symbols (fun pair hpair ↦
        (hp.rules r (Program.mem_of_rule? hr) _
          (List.mem_append_left _ (List.of_mem_zip hpair).1)).2)
      (fun x arg hmem value hvalue ↦ by
        rw [← Env.rebind_param_of_lookup hvalue]
        exact hhead x (List.of_mem_zip hmem).1) hmatch hbefore
    intro t ht
    obtain ⟨i, hi, rfl⟩ := List.mem_iff_getElem.mp ht
    have hpair : (r.head[i], g.args[i]) ∈ r.head.zip g.args :=
      List.mem_iff_getElem.mpr ⟨i, by rw [List.length_zip]; omega, List.getElem_zip⟩
    exact (hpins _ hpair).mono (s₁.grows_require _)
  · obtain ⟨id, -, hcolumns⟩ := addFacts_eq_ok hadd
    have hsource : ⟨Schema.factTable g.args.length, tableAlias s.number s.tables⟩ ∈ s'.sources :=
      (matchColumns_grows hcolumns).sources_mem _ (List.mem_append_right _ List.mem_cons_self)
    refine matchColumns_pins (fun i hi ↦ ?_) hcolumns he
    rw [Nat.add_comm]
    exact hfacts _ _ hsource i hi

/-- The arguments of goals that are true together are constants of the program. -/
theorem addGoals_pins (hp : p.Closed) (hc : c.Pinning p policy) (hcache : c.CacheBefore s.number)
    (hs : s.Valid) {goals : List Goal} (h : c.addGoals rule goals s = .ok s')
    (hfacts : e.ReadsFacts p s'.sources)
    (he : Condition.holdAll p.database e s'.conditions = true) :
    ∀ g ∈ goals, ∀ t ∈ g.args, s'.Pins p rule e t := by
  induction goals generalizing s with
  | nil => exact fun g hg ↦ absurd hg List.not_mem_nil
  | cons g gs ih =>
    obtain ⟨s₁, hgoal, hrest⟩ := addGoals_cons h
    have hgrows := addGoals_grows hrest
    have hfirst : Condition.holdAll p.database e s₁.conditions = true :=
      Condition.holdAll_eq_true.mpr fun x hx ↦
        Condition.holdAll_eq_true.mp he x (hgrows.conditions_mem x hx)
    refine List.forall_mem_cons.mpr ⟨fun t ht ↦ ?_, ih ?_ (addGoal_valid hcache hs hgoal) hrest⟩
    · exact (addGoal_pins hp hc hcache hs hgoal (hfacts.mono hgrows.sources_mem) hfirst t ht).mono
        hgrows
    · rwa [(addGoal_grows hgoal).number_eq]

/-- Goals in a scope of their own are pinned down wherever rows are drawn from the program's facts and
the goals are true. -/
theorem opened_pins (hp : p.Closed) (hc : c.Pinning p policy) (hscoped : c.Scoped) {goals : List Goal}
    (h : c.openScope.2.addGoals rule goals c.openScope.1 = .ok s) {db : Database}
    (hdb : db.facts = p.database.facts) {env : Env} (hdraw : e ∈ db.draws s.sources env)
    (he : Condition.holdAll p.database e s.conditions = true) :
    ∀ g ∈ goals, ∀ t ∈ g.args, s.Pins p rule e t := by
  have hopen : c.openScope.2.Pinning p policy := hc.of_sameTask ⟨rfl, rfl, rfl⟩ rfl
  have hcache : c.openScope.2.CacheBefore c.openScope.1.number := hscoped
  obtain ⟨hvalid, -⟩ := opened hscoped h
  exact addGoals_pins hp hopen hcache (Scope.Valid.empty _) h
    (p.readsFacts_of_mem_draws hp hdb hvalid.nodup hdraw) he

end Compiler

/-! ### Safe rules -/

/-- Every variable in the head of a rule occurs in a goal of its body that takes part. -/
def Program.Safe (p : Program) (policy : BodyPolicy) : Prop :=
  ∀ r ∈ p.rules, ∀ x, .var x ∈ r.head → ∃ g ∈ policy.select r.body, .var x ∈ g.args

namespace Compiler

variable {c : Compiler} {p : Program} {policy : BodyPolicy} {s : Scope}

/-- The compiled body of a safe rule pins its head. -/
theorem pinsHead_finish (hp : p.Closed) (hsafe : p.Safe policy) (hc : c.Pinning p policy)
    (hscoped : c.Scoped) {r : Rule} (hr : r ∈ p.rules)
    (h : c.openScope.2.addGoals (some r) (policy.select r.body) c.openScope.1 = .ok s)
    (names : List String) : (s.finish names).scan.PinsHead p r.key := by
  intro r' hr' env hholds x hx
  obtain rfl := Option.some.inj ((Program.rule?_of_mem hp hr).symm.trans hr')
  obtain ⟨e, he⟩ := (s.finish_holds_iff names).mp hholds
  obtain ⟨hdraw, hconditions⟩ := List.mem_filter.mp he
  obtain ⟨g, hg, hxg⟩ := hsafe r hr x hx
  rw [← Scope.param_of_mem_solutions he]
  exact (opened_pins hp hc hscoped h rfl hdraw hconditions g hg _ hxg).1 r rfl
    (Rule.isParam_iff.mpr hx)

theorem pinning_compileRule (hp : p.Closed) (hsafe : p.Safe policy) {r : Rule}
    (hr : r ∈ c.program.rules) (hc : c.Pinning p policy ∧ c.Scoped) :
    (c.compileRule r).1.Pinning p policy ∧ (c.compileRule r).1.Scoped := by
  obtain ⟨hc, hscoped⟩ := hc
  have htask := c.sameTask_compileRule r
  refine ⟨⟨hc.toWorksOn.of_sameTask htask, ?_⟩, (scoped_compileRule hscoped r).1⟩
  obtain ⟨_, -, h⟩ | ⟨-, s, hgoals, h⟩ | ⟨-, _, -, h⟩ := c.compileRule_cases r <;> rw [h]
  · exact hc.heads
  · intro entry hentry
    rcases List.mem_append.mp hentry with hentry | hentry
    · exact hc.heads entry hentry
    · rw [List.mem_singleton.mp hentry]
      rw [hc.program] at hr
      rw [hc.policy] at hgoals
      exact pinsHead_finish hp hsafe hc hscoped hr hgoals _
  · exact hc.heads

/-- **In a safe program every cached scan pins the head of its rule.** -/
theorem pinning_resolve (hp : p.Closed) (hsafe : p.Safe policy) (maxPasses : Nat) :
    ((p.compiler policy).resolve maxPasses).compiler.Pinning p policy :=
  (resolve_induction (P := fun c ↦ c.Pinning p policy ∧ c.Scoped)
    (fun _ _ hr hc ↦ pinning_compileRule hp hsafe hr hc)
    (fun c key reason hc ↦ ⟨hc.1.of_sameTask (c.sameTask_markFailed key reason) rfl, hc.2⟩)
    ⟨⟨worksOn_compiler p policy, fun _ hentry ↦ absurd hentry List.not_mem_nil⟩,
      fun _ hentry ↦ absurd hentry List.not_mem_nil⟩ maxPasses).1

end Compiler

end HornQuery
