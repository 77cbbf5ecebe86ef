import Mathlib
import HornQuery.Proofs.Reuse

/-!
# The answers of a run

A run answers each query with what the program says (`Program.run_answers`). What that means is said
without reference to tables or scans by `Program.Answers`: goals without variables are answered by yes
or no, according to their truth. Goals with variables are answered by rows, one column for each
variable. A row is a choice of constants for the variables, and each choice is there as often as it is
found, which is the product of the numbers of copies of the listed facts that it needs.

Goals in a scope of their own are counted by `Compiler.countP_solutions`, and a row can be read back
into an assignment by `Scope.exists_assignment`. Goals from the cache come down to the first case by
`Compiler.reuse_holds`. The queries of a run are compiled one after the other with the same rules,
and only the number of scopes goes up in between.
-/

namespace HornQuery

open Scope (Valid variableAlias rangeCondition)

/-! ### What an answer has to be -/

/-- The text of a parameter. -/
def Config.text (config : Config) (x : String) : String := (config.param? x).getD ""

/-- The answer is right for goals whose parameters have the texts `param`. -/
def Program.Answers (p : Program) (policy : BodyPolicy) (param : String → String)
    (goals : List Goal) : Answer → Prop
  | .yes => Goal.varsOf goals = [] ∧ ∀ g ∈ goals, p.Holds policy (Assignment.ground ⟨id, param⟩ g)
  | .no => Goal.varsOf goals = [] ∧ ¬ ∀ g ∈ goals, p.Holds policy (Assignment.ground ⟨id, param⟩ g)
  | .rows columns rows =>
    columns = Goal.varsOf goals ∧ columns ≠ [] ∧
      (∀ value : String → String, (∀ x ∈ columns, value x ∈ p.constants) →
        rows.count (columns.map value) = p.multiplicity policy ⟨value, param⟩ goals) ∧
      ∀ row ∈ rows, ∃ value : String → String, (∀ x ∈ columns, value x ∈ p.constants) ∧
        row = columns.map value
  | .error _ => False

/-- The variables of goals are those that stand as an argument of some goal. -/
theorem Goal.mem_varsOf {goals : List Goal} {x : String} :
    x ∈ Goal.varsOf goals ↔ ∃ g ∈ goals, .var x ∈ g.args := by
  simp only [Goal.varsOf, Goal.vars, Distinct.mem_ofList, List.mem_flatMap, Term.mem_vars]

/-! ### Rows of a scope -/

namespace Scope

variable {s : Scope} {names : List String}

/-- Every name that has a variable gets a column, the one of the variable's number. -/
theorem columnsFor_eq (h : ∀ x ∈ names, x ∈ s.vars) :
    s.columnsFor names = names.map fun x ↦ (x, variableAlias s.number (s.vars.idxOf x)) := by
  induction names with
  | nil => rfl
  | cons x names ih =>
    obtain ⟨hx, hnames⟩ := List.forall_mem_cons.mp h
    have hidx : s.vars.idxOf? x = some (s.vars.idxOf x) :=
      List.findIdx?_eq_some_of_exists ⟨x, hx, by simp⟩
    rw [columnsFor, List.filterMap_cons, hidx]
    simp only [Option.map_some, List.map_cons, List.cons.injEq, true_and]
    exact ih hnames

/-- Where all names have a source, one column is asked for each. -/
theorem finish_shape (h : ∀ x ∈ names, x ∈ s.vars) (hne : names ≠ []) :
    (s.finish names).shape = .rows names := by
  simp [finish, columnsFor_eq h, hne, Function.comp_def]

/-- What a finished scan projects for a name is the symbol column of the name's variable. -/
theorem projection_finish (h : ∀ x ∈ names, x ∈ s.vars) :
    (s.finish names).scan.projection.map Prod.snd =
      names.map fun x ↦ .column (variableAlias s.number (s.vars.idxOf x)) "symbol" := by
  have hlabels : (s.finish names).scan.projection.map Prod.snd =
      ((s.columnsFor names).zipIdx.map Prod.fst).map fun column ↦ .column column.2 "symbol" := by
    simp only [finish, List.map_map]
    rfl
  rw [hlabels, List.zipIdx_map_fst, columnsFor_eq h, List.map_map]
  rfl

/-- The rows are the texts that the variables are drawn as. -/
theorem rows_finish (h : ∀ x ∈ names, x ∈ s.vars) (db : Database) (env : Env) :
    (s.finish names).scan.rows db env = (s.solutions db env).map fun e ↦
      names.map fun x ↦ e.column (variableAlias s.number (s.vars.idxOf x)) "symbol" := by
  refine List.map_congr_left fun e _ ↦ ?_
  have hprojection := congrArg (List.map (Expr.value e)) (projection_finish h)
  rw [List.map_map, List.map_map] at hprojection
  exact hprojection

/-- The answer to goals with the variables `names`: whether the scope has a solution, or its rows. -/
def answer (s : Scope) (db : Database) (env : Env) (names : List String) : Answer :=
  if names = [] then if (s.finish []).scan.holds db env then .yes else .no
  else .rows names (((s.finish names).scan.rows db env).map fun row ↦ row.map Cell.display)

variable {p : Program} {env : Env} {e : Env}

/-- A solution that agrees with one assignment agrees with those that give the scope's variables the
same constants. -/
theorem agrees_iff_eq {a a' : Assignment} (ha : ∀ x ∈ s.vars, a.var x ∈ p.constants)
    (he : s.agrees p.symbolTable a e = true) :
    s.agrees p.symbolTable a' e = true ↔ ∀ x ∈ s.vars, a.var x = a'.var x := by
  have hcell : ∀ i x, s.vars[i]? = some x → ∀ text,
      (e.column (variableAlias s.number i) "id").equals (p.symbolTable.cell text) =
        decide (a.var x = text) := by
    intro i x hx text
    have hmem : .constant (a.var x) ∈ p.symbolTable.symbols :=
      Program.mem_symbolTable.mpr (Program.mem_constants.mp (ha x (List.mem_of_getElem? hx)))
    obtain ⟨id, hid⟩ := SymbolTable.exists_get? hmem
    have hdrawn := agrees_iff.mp he i x hx
    rw [SymbolTable.cell_of_constant? hid] at hdrawn
    rw [Cell.eq_of_equals_integer hdrawn, ← SymbolTable.cell_of_constant? hid,
      p.symbolTable_numbered.equals_cell hmem]
  rw [agrees_iff]
  constructor
  · intro h x hx
    obtain ⟨i, hi, rfl⟩ := List.mem_iff_getElem.mp hx
    have hget := List.getElem?_eq_getElem hi
    simpa [hcell i _ hget] using h i _ hget
  · intro h i x hx
    rw [hcell i x hx, decide_eq_true_iff]
    exact h x (List.mem_of_getElem? hx)

/-- A solution is a choice of constants for the variables: its row consists of their texts, and it
agrees with no other choice. -/
theorem exists_row (hs : s.Valid) (hnodup : s.vars.Nodup)
    (hrange : ∀ i < s.vars.length, rangeCondition s.number i ∈ s.conditions)
    (hnames : ∀ x, x ∈ names ↔ x ∈ s.vars) (he : e ∈ s.solutions p.database env)
    (param : String → String) :
    ∃ value : String → String, (∀ x ∈ names, value x ∈ p.constants) ∧
      (names.map fun x ↦ e.column (variableAlias s.number (s.vars.idxOf x)) "symbol").map
        Cell.display = names.map value ∧
      ∀ value', s.agrees p.symbolTable ⟨value', param⟩ e = true ↔
        names.map value = names.map value' := by
  obtain ⟨a, -, -, hconstants, hagrees, hread⟩ :=
    Scope.exists_assignment hs hnodup hrange he id param
  refine ⟨a.var, fun x hx ↦ hconstants x ((hnames x).mp hx), ?_, fun value' ↦ ?_⟩
  · rw [List.map_map]
    refine List.map_congr_left fun x hx ↦ ?_
    have hget : s.vars[s.vars.idxOf x]? = some x := List.getElem?_idxOf ((hnames x).mp hx)
    rw [Function.comp_apply, hread _ x hget]
    rfl
  · rw [agrees_iff_eq hconstants hagrees, List.map_inj_left]
    exact forall_congr' fun x ↦ by rw [hnames x]

end Scope

/-! ### Goals in a scope -/

section Goals

variable {p : Program} {policy : BodyPolicy} {config : Config} {c : Compiler} {goals : List Goal}
  {s : Scope}

/-- The constants of the goals and the texts of their parameters are constants of the program. -/
structure Config.Supplies (config : Config) (p : Program) (goals : List Goal) : Prop where
  consts : ∀ g ∈ goals, ∀ text, .const text ∈ g.args → text ∈ p.constants
  params : ∀ g ∈ goals, ∀ x, .param x ∈ g.args → ∃ text ∈ p.constants, config.param? x = some text

/-- Where the variables are constants too, every term fits the environment of the execution. -/
theorem Config.Supplies.fits (h : config.Supplies p goals) {value : String → String}
    (hvalue : ∀ x ∈ Goal.varsOf goals, value x ∈ p.constants) :
    ∀ g ∈ goals, ∀ t ∈ g.args,
      Assignment.Fits ⟨value, config.text⟩ p none (config.env p.database []) t := by
  intro g hg t ht
  cases t with
  | var x => exact ⟨hvalue x (Goal.mem_varsOf.mpr ⟨g, hg, ht⟩), fun r hr ↦ (nomatch hr)⟩
  | const text => exact h.consts g hg text ht
  | param x =>
    obtain ⟨text, htext, hx⟩ := h.params g hg x ht
    have heq : config.text x = text := by rw [Config.text, hx, Option.getD_some]
    refine ⟨?_, ?_⟩
    · show config.text x ∈ p.constants
      rwa [heq]
    · show (config.env p.database []).param (.external x) = p.symbolTable.cell (config.text x)
      have hkey : config.valueOf [] (.external x) = some text := hx
      rw [p.env_param hkey, heq]

/-- The compiler works on the program as it is in the store, and its cache can be relied on. -/
structure Compiler.Settled (c : Compiler) (p : Program) (policy : BodyPolicy) : Prop where
  faithful : c.Faithful p policy
  wellScoped : c.Scoped
  selfContained : c.SelfContained

namespace Compiler

/-- Resolving a well-formed program leaves a settled compiler, whatever happens to its rules. -/
theorem settled_resolve (hp : p.WellFormed) (policy : BodyPolicy) (maxPasses : Nat) :
    ((p.compiler policy).resolve maxPasses).compiler.Settled p policy := by
  obtain ⟨hfaithful, hscoped⟩ := faithful_resolve hp maxPasses
  exact ⟨hfaithful, hscoped, selfContained_resolve hp.closed p.symbolTable policy maxPasses⟩

theorem Settled.later (hc : c.Settled p policy) (scopes : Nat) : (c.later scopes).Settled p policy :=
  ⟨hc.faithful.later scopes, hc.wellScoped.later scopes, hc.selfContained⟩

/-- Goals without variables have a solution exactly if they are true. -/
theorem finish_holds_iff_holds (hc : c.Settled p policy) (hp : p.WellFormed)
    (hsupplies : config.Supplies p goals) (hvars : Goal.varsOf goals = [])
    (h : c.openScope.2.addGoals none goals c.openScope.1 = .ok s) (names : List String) :
    (s.finish names).scan.holds p.database (config.env p.database []) = true ↔
      ∀ g ∈ goals, p.Holds policy (Assignment.ground ⟨id, config.text⟩ g) := by
  obtain ⟨-, -, -, hscope⟩ := opened hc.wellScoped h
  have hnone : s.vars = [] := List.eq_nil_iff_forall_not_mem.mpr fun x hx ↦ by
    have hmem := Goal.mem_varsOf.mpr ((hscope x).mp hx).1
    rw [hvars] at hmem
    exact List.not_mem_nil hmem
  have hvalue : ∀ x ∈ Goal.varsOf goals, id x ∈ p.constants := by simp [hvars]
  rw [Scope.finish_holds_iff, ← Program.multiplicity_pos_iff,
    ← countP_solutions hc.faithful hc.wellScoped hp (hsupplies.fits hvalue) h,
    List.countP_pos_iff]
  simp [Scope.agrees, hnone]

/-- Goals with variables have the rows that they have to have. -/
theorem answers_rows (hc : c.Settled p policy) (hp : p.WellFormed)
    (hsupplies : config.Supplies p goals) (hvars : Goal.varsOf goals ≠ [])
    (h : c.openScope.2.addGoals none goals c.openScope.1 = .ok s) :
    p.Answers policy config.text goals (.rows (Goal.varsOf goals)
      (((s.finish (Goal.varsOf goals)).scan.rows p.database (config.env p.database [])).map
        fun row ↦ row.map Cell.display)) := by
  obtain ⟨hvalid, hnodup, hrange, hscope⟩ := opened hc.wellScoped h
  have hnames : ∀ x, x ∈ Goal.varsOf goals ↔ x ∈ s.vars := fun x ↦ by
    rw [hscope x, Goal.mem_varsOf]
    exact ⟨fun hx ↦ ⟨hx, fun r hr ↦ nomatch hr⟩, fun hx ↦ hx.1⟩
  have hrow := fun e (he : e ∈ s.solutions p.database (config.env p.database [])) ↦
    Scope.exists_row hvalid hnodup hrange hnames he config.text
  rw [Scope.rows_finish (fun x hx ↦ (hnames x).mp hx), List.map_map]
  refine ⟨rfl, hvars, fun value hvalue ↦ ?_, fun row hmem ↦ ?_⟩
  · rw [← countP_solutions hc.faithful hc.wellScoped hp (hsupplies.fits hvalue) h,
      List.count_eq_countP, List.countP_map]
    refine List.countP_congr fun e he ↦ ?_
    obtain ⟨value', -, hread, hagrees⟩ := hrow e he
    rw [Function.comp_apply, Function.comp_apply, hread, hagrees, beq_iff_eq]
  · obtain ⟨e, he, rfl⟩ := List.mem_map.mp hmem
    obtain ⟨value', hconstants, hread, -⟩ := hrow e he
    exact ⟨value', hconstants, hread⟩

/-! ### Queries -/

/-- Without variables the answer is yes if all goals hold as they stand, and no otherwise. -/
theorem answers_of_holds {holds : Bool} (hvars : Goal.varsOf goals = [])
    (h : holds = true ↔ ∀ g ∈ goals, p.Holds policy (Assignment.ground ⟨id, config.text⟩ g)) :
    p.Answers policy config.text goals (if holds then .yes else .no) := by
  cases holds with
  | true => exact ⟨hvars, h.mp rfl⟩
  | false => exact ⟨hvars, fun hall ↦ nomatch h.mpr hall⟩

/-- Goals that are compiled in a scope are answered as they have to be. -/
theorem answers_of_addGoals (hc : c.Settled p policy) (hp : p.WellFormed)
    (hsupplies : config.Supplies p goals)
    (h : c.openScope.2.addGoals none goals c.openScope.1 = .ok s) :
    p.Answers policy config.text goals
      (s.answer p.database (config.env p.database []) (Goal.varsOf goals)) := by
  rw [Scope.answer]
  by_cases hvars : Goal.varsOf goals = []
  · rw [if_pos hvars]
    exact answers_of_holds hvars (finish_holds_iff_holds hc hp hsupplies hvars h [])
  · rw [if_neg hvars]
    exact answers_rows hc hp hsupplies hvars h

section Scopes

variable {db : Database} {compiled : CompiledQuery} {text : String} {answer : Answer}

/-- Goals from the cache are answered as in a scope of their own. -/
theorem execute_reuse?_eq_answer (hself : c.SelfContained) (hscoped : c.Scoped)
    (hgoals : ∀ g ∈ goals, c.Knows g)
    (hparams : ∀ g ∈ goals, ∀ x, .param x ∈ g.args → ∃ text, config.param? x = some text)
    (hdb : ∀ text, db.constantId? text = c.symbols.constant? text)
    (h : c.reuse? goals = some compiled)
    (hanswer : (compiled.execute config ⟨some db⟩ text).answer = .ok answer) :
    ∃ s, c.openScope.2.addGoals none goals c.openScope.1 = .ok s ∧
      answer = s.answer db (config.env db []) (Goal.varsOf goals) := by
  obtain ⟨g, rfl, hclosed, -, hreuse⟩ := reuse?_eq_some h
  have hvars : Goal.varsOf [g] = [] := List.eq_nil_iff_forall_not_mem.mpr fun x hx ↦ by
    obtain ⟨g', hg', hx⟩ := Goal.mem_varsOf.mp hx
    rw [List.mem_singleton.mp hg'] at hx
    exact absurd (hclosed _ hx) (by simp [Term.isVar, Term.varName?])
  have hmem : g ∈ [g] := List.mem_singleton.mpr rfl
  obtain ⟨s, hs, hholds⟩ := reuse_holds hself hscoped (hgoals g hmem) hreuse hdb
  refine ⟨s, hs, ?_⟩
  rw [execute_reuse hself hscoped hreuse (hparams g hmem)] at hanswer
  rw [hvars, Scope.answer, if_pos rfl, hholds]
  cases hunsat : compiled.unsatisfiable with
  | true =>
    rw [hunsat] at hanswer
    exact (Except.ok.inj hanswer).symm
  | false =>
    rw [hunsat] at hanswer
    exact (Fragment.eq_of_unlessRefused hanswer).symm

/-- Goals that are compiled for themselves are executed on the solutions of the scope they were
compiled in. No placeholder is missing, because every parameter has a text. -/
theorem execute_compileGoals_eq_answer (hself : c.SelfContained) (hscoped : c.Scoped)
    (hparams : ∀ g ∈ goals, ∀ x, .param x ∈ g.args → ∃ text, config.param? x = some text)
    {fragment : Fragment} (h : (c.compileGoals none goals (Goal.varsOf goals)).2 = .ok fragment)
    (hanswer : (({ fragment } : CompiledQuery).execute config ⟨some db⟩ text).answer = .ok answer) :
    ∃ s, c.openScope.2.addGoals none goals c.openScope.1 = .ok s ∧
      answer = s.answer db (config.env db []) (Goal.varsOf goals) := by
  have hwell := (compileGoals_scoped hscoped h).1
  obtain ⟨s, hgoals, rfl⟩ := compileGoals_eq_ok h
  refine ⟨s, hgoals, ?_⟩
  have hkeys := goals_supplied hself hgoals hparams
  rw [Scope.answer]
  -- With variables rows are asked for, and without only whether there is a solution.
  by_cases hvars : Goal.varsOf goals = []
  · rw [if_pos hvars]
    rw [hvars] at hanswer hwell
    rw [CompiledQuery.execute_existence (q := { fragment := s.finish [] }) rfl rfl hwell hkeys]
      at hanswer
    exact (Fragment.eq_of_unlessRefused hanswer).symm
  · rw [if_neg hvars]
    obtain ⟨-, -, -, hscope⟩ := opened hscoped hgoals
    have hnames : ∀ x ∈ Goal.varsOf goals, x ∈ s.vars := fun x hx ↦
      (hscope x).mpr ⟨Goal.mem_varsOf.mp hx, fun r hr ↦ nomatch hr⟩
    rw [CompiledQuery.execute_rows (q := { fragment := s.finish (Goal.varsOf goals) }) rfl
      (Scope.finish_shape hnames hvars) hwell (fun entry hentry ↦ ?_) hkeys] at hanswer
    · exact (Fragment.eq_of_unlessRefused hanswer).symm
    · -- The projection has columns only, so no placeholder can be missing from it.
      have hcolumn := List.mem_map_of_mem (f := Prod.snd) hentry
      rw [Scope.projection_finish hnames] at hcolumn
      obtain ⟨x, -, hx⟩ := List.mem_map.mp hcolumn
      rw [← hx]
      rfl

/-- **A query whose parameters are configured is answered by its scope**, whether or not it is compiled
in one. -/
theorem execute_compileQuery_eq_answer (hself : c.SelfContained) (hscoped : c.Scoped) {q : Query}
    (hgoals : ∀ g ∈ c.policy.select q.goals, c.Knows g)
    (hparams : ∀ g ∈ c.policy.select q.goals, ∀ x, .param x ∈ g.args →
      ∃ text, config.param? x = some text)
    (hdb : ∀ text, db.constantId? text = c.symbols.constant? text)
    (h : (c.compileQuery q).2 = .ok compiled)
    (hanswer : (compiled.execute config ⟨some db⟩ text).answer = .ok answer) :
    ∃ s, c.openScope.2.addGoals none (c.policy.select q.goals) c.openScope.1 = .ok s ∧
      answer = s.answer db (config.env db []) (Goal.varsOf (c.policy.select q.goals)) := by
  obtain ⟨cached, hreuse, heq⟩ | ⟨-, heq⟩ := c.compileQuery_cases q <;> rw [heq] at h
  · obtain rfl := Except.ok.inj h
    exact execute_reuse?_eq_answer hself hscoped hgoals hparams hdb hreuse hanswer
  · obtain ⟨fragment, hfragment, rfl⟩ := except_map_eq_ok h
    exact execute_compileGoals_eq_answer hself hscoped hparams hfragment hanswer

end Scopes

/-- Whichever way a query was compiled, from the cache or from its goals, executing it answers
it. -/
theorem answers_compileQuery (hc : c.Settled p policy) (hp : p.WellFormed) {q : Query}
    (hsupplies : config.Supplies p (policy.select q.goals)) {compiled : CompiledQuery}
    (h : (c.compileQuery q).2 = .ok compiled) {text : String} {answer : Answer}
    (hanswer : (compiled.execute config ⟨some p.database⟩ text).answer = .ok answer) :
    p.Answers policy config.text (policy.select q.goals) answer := by
  have hgoals : ∀ g ∈ c.policy.select q.goals, c.Knows g := fun g hg ↦
    knows_of_closed hp.closed hc.faithful.program hc.faithful.symbols
      (hsupplies.consts g (hc.faithful.policy ▸ hg))
  have hparams : ∀ g ∈ c.policy.select q.goals, ∀ x, .param x ∈ g.args →
      ∃ text, config.param? x = some text := fun g hg x hx ↦ by
    obtain ⟨text, -, htext⟩ := hsupplies.params g (hc.faithful.policy ▸ hg) x hx
    exact ⟨text, htext⟩
  have hdb : ∀ text, p.database.constantId? text = c.symbols.constant? text := fun text ↦ by
    rw [p.constantId?_database, hc.faithful.symbols]
  obtain ⟨s, hs, rfl⟩ := execute_compileQuery_eq_answer hc.selfContained hc.wellScoped hgoals hparams
    hdb h hanswer
  rw [hc.faithful.policy] at hs ⊢
  exact answers_of_addGoals hc hp hsupplies hs

/-- Whether a query compiles does not depend on how many scopes were opened before. -/
theorem compileQuery_later {q : Query} (h : ∃ compiled, (c.compileQuery q).2 = .ok compiled)
    (scopes : Nat) : ∃ compiled, ((c.later scopes).compileQuery q).2 = .ok compiled := by
  have hsame : (c.later scopes).reuse? ((c.later scopes).policy.select q.goals) =
      c.reuse? (c.policy.select q.goals) := rfl
  obtain ⟨compiled, h⟩ := h
  obtain ⟨cached, hreuse, -⟩ | ⟨hreuse, heq⟩ := c.compileQuery_cases q <;>
    obtain ⟨cached', hreuse', heq'⟩ | ⟨hreuse', heq'⟩ := (c.later scopes).compileQuery_cases q
  · exact ⟨cached', by rw [heq']⟩
  · rw [hsame, hreuse] at hreuse'
    cases hreuse'
  · exact ⟨cached', by rw [heq']⟩
  · rw [heq] at h
    obtain ⟨fragment, hfragment, -⟩ := except_map_eq_ok h
    obtain ⟨s, hgoals, -⟩ := compileGoals_eq_ok hfragment
    have hadmits : ∀ g ∈ c.policy.select q.goals, c.openScope.2.Admits g :=
      addGoals_isOk_iff.mp ⟨s, hgoals⟩
    -- What is admitted before is admitted later, since the cache is the same.
    have hlater : ∀ g ∈ c.policy.select q.goals, (c.later scopes).openScope.2.Admits g := hadmits
    have hok : ∃ s', (c.later scopes).openScope.2.addGoals none (c.policy.select q.goals)
        (c.later scopes).openScope.1 = .ok s' := addGoals_isOk_iff.mpr hlater
    obtain ⟨s', hs'⟩ := hok
    have hfragment' : ((c.later scopes).compileGoals none (c.policy.select q.goals)
        (Goal.varsOf (c.policy.select q.goals))).2 =
          .ok (s'.finish (Goal.varsOf (c.policy.select q.goals))) := by
      simp only [compileGoals, hs']
      rfl
    have hpolicy : (c.later scopes).policy = c.policy := rfl
    rw [heq', hpolicy, hfragment']
    exact ⟨_, rfl⟩

/-! ### Lists of queries -/

/-- A query leaves the compiler as it is or opens one more scope. -/
theorem compileQuery_fst_later (scopes : Nat) (q : Query) :
    ∃ n, ((c.later scopes).compileQuery q).1 = c.later n := by
  obtain ⟨_, -, heq⟩ | ⟨-, heq⟩ := (c.later scopes).compileQuery_cases q <;> rw [heq]
  · exact ⟨scopes, rfl⟩
  · exact ⟨scopes + 1, rfl⟩

/-- A query is answered by an error if it does not compile, else by its execution. -/
theorem answer_cases (c : Compiler) (config : Config) (store : Store) (q : Query) :
    (c.answer config store q).compiler = (c.compileQuery q).1 ∧
      ((∃ e, (c.compileQuery q).2 = .error e ∧
          (c.answer config store q).outcomes = .ok [⟨q.text, none, .error e.message⟩]) ∨
        ∃ compiled sql, (c.compileQuery q).2 = .ok compiled ∧
          (c.answer config store q).outcomes =
            (compiled.execute config store q.text).answer.map fun answer ↦ [⟨q.text, sql, answer⟩]) := by
  rcases hcompile : c.compileQuery q with ⟨c', e | compiled⟩
  · simp only [answer, hcompile]
    exact ⟨trivial, Or.inl ⟨e, rfl, rfl⟩⟩
  · simp only [answer, hcompile]
    exact ⟨trivial, Or.inr ⟨compiled, _, rfl, rfl⟩⟩

/-- Queries are answered one by one, each by a compiler that has opened more scopes. What one of them
looks up is looked up. -/
theorem answerAll_answered {store : Store} {queries : List Query} {outcomes : List Outcome}
    (scopes : Nat)
    (h : ((c.later scopes).answerAll config store queries).outcomes = .ok outcomes) :
    List.Forall₂ (fun q outcome ↦
      ∃ n, ((c.later n).answer config store q).outcomes = .ok [outcome] ∧
        ((c.later n).answer config store q).used ⊆
          ((c.later scopes).answerAll config store queries).used) queries outcomes := by
  induction queries generalizing scopes outcomes with
  | nil =>
    obtain rfl : [] = outcomes := by simpa [answerAll] using h
    exact .nil
  | cons q queries ih =>
    obtain ⟨hcompiler, hanswer⟩ := (c.later scopes).answer_cases config store q
    obtain ⟨n, hn⟩ := c.compileQuery_fst_later scopes q
    cases hfirst : ((c.later scopes).answer config store q).outcomes with
    | error e => simp [answerAll, hfirst] at h
    | ok found =>
      -- A query has exactly one outcome, whether it compiles or not.
      have hsingle : ∃ outcome, found = [outcome] := by
        rw [hfirst] at hanswer
        obtain ⟨e, -, heq⟩ | ⟨compiled, sql, -, heq⟩ := hanswer
        · exact ⟨_, Except.ok.inj heq⟩
        · obtain ⟨answer, -, heq⟩ := except_map_eq_ok heq.symm
          exact ⟨_, heq.symm⟩
      obtain ⟨outcome, rfl⟩ := hsingle
      simp only [answerAll, hfirst] at h ⊢
      obtain ⟨rest, hrest, rfl⟩ := except_map_eq_ok h
      rw [hcompiler, hn] at hrest ⊢
      refine .cons ⟨scopes, hfirst, List.subset_append_left _ _⟩ ((ih n hrest).imp fun _ _ hlater ↦ ?_)
      obtain ⟨m, hm, hused⟩ := hlater
      exact ⟨m, hm, List.subset_append_of_subset_right _ hused⟩

/-- Queries are answered one after the other, each by the same compiler with some more scopes
opened. -/
theorem answerAll_outcomes {store : Store} {queries : List Query} {outcomes : List Outcome}
    (scopes : Nat)
    (h : ((c.later scopes).answerAll config store queries).outcomes = .ok outcomes) :
    List.Forall₂ (fun q outcome ↦
      ∃ n, ((c.later n).answer config store q).outcomes = .ok [outcome]) queries outcomes :=
  (answerAll_answered scopes h).imp fun _ _ ↦ .imp fun _ ↦ And.left

end Compiler

end Goals

/-! ### Runs -/

namespace Program

variable {p : Program} {config : Config} {store : Store} {report : Report}

/-- A run that succeeds has cleared the store. -/
theorem clear_of_run (h : (p.run config store).result = .ok report) :
    store.bootstrap.clear = .ok ⟨some {}⟩ := by
  cases hclear : store.bootstrap.clear with
  | error e => simp [run, hclear] at h
  | ok cleared => rw [Store.eq_of_clear_eq_ok hclear]

/-- A run that succeeds writes the program to an empty store and answers the queries with the rules
resolved. -/
theorem run_eq_ok (h : (p.run config store).result = .ok report) :
    ∃ symbols, (p.materialize ⟨some {}⟩).symbols = .ok symbols ∧
      (((Compiler.fresh p symbols config.bodyPolicy).resolve
        config.maxPasses).compiler.answerAll config (p.materialize ⟨some {}⟩).store
          p.queries).outcomes = .ok report.queries := by
  have hclear := clear_of_run h
  simp only [run, hclear] at h
  cases hsymbols : (p.materialize ⟨some {}⟩).symbols with
  | error e => simp [hsymbols] at h
  | ok symbols =>
    refine ⟨symbols, rfl, ?_⟩
    simp only [hsymbols, answers] at h
    split at h
    · cases h
    · split at h
      · cases h
      · rename_i houtcomes
        rw [houtcomes, ← Except.ok.inj h]

/-- A program that was read is well formed as soon as its facts fit into the tables. -/
theorem wellFormed_of_parse {source : String} {parsed : Parsed}
    (hparse : Program.parse source = .ok parsed)
    (harities : ∀ f ∈ parsed.program.facts, f.args.length ≤ Schema.maxArity) :
    parsed.program.WellFormed :=
  ⟨(collected_of_parse hparse).closed, fun _ hr hnil ↦ rule_name_of_parse hparse hr hnil, harities⟩

/-- **A run answers with what the program says.** Take a program read from a text whose run succeeds.
Then there is an outcome for each query, in order. If the parameters of the goals that take part are
configured as constants of the program, and the query compiles once the rules are resolved, its answer
is right. -/
theorem run_answers {source : String} {parsed : Parsed}
    (hparse : Program.parse source = .ok parsed)
    (hrun : (parsed.program.run config store).result = .ok report) :
    List.Forall₂ (fun q outcome ↦
        (∀ g ∈ config.bodyPolicy.select q.goals, ∀ x, .param x ∈ g.args →
          ∃ text ∈ parsed.program.constants, config.param? x = some text) →
        (∃ compiled, (((Compiler.mk parsed.program parsed.program.symbolTable config.bodyPolicy [] []
          0).resolve config.maxPasses).compiler.compileQuery q).2 = .ok compiled) →
        outcome.query = q.text ∧
          parsed.program.Answers config.bodyPolicy config.text (config.bodyPolicy.select q.goals)
            outcome.answer)
      parsed.program.queries report.queries := by
  obtain ⟨symbols, hsymbols, houtcomes⟩ := run_eq_ok hrun
  obtain ⟨rfl, hstore, harities⟩ := materialize_eq_ok hsymbols
  have hp := wellFormed_of_parse hparse harities
  rw [hstore] at houtcomes
  have hsettled := Compiler.settled_resolve hp config.bodyPolicy config.maxPasses
  have hall := Compiler.answerAll_outcomes 0 houtcomes
  refine ((List.forall₂_and_left _ _).mpr ⟨hp.closed.queries, hall⟩).imp ?_
  rintro q outcome ⟨hknown, n, hn⟩ hparams hcompiles
  have hsupplies : config.Supplies parsed.program (config.bodyPolicy.select q.goals) :=
    ⟨fun g hg text ht ↦ mem_constants.mpr
      (hknown g (BodyPolicy.mem_of_mem_select hg) _ ht text rfl), hparams⟩
  obtain ⟨compiled, hcompiled⟩ := Compiler.compileQuery_later hcompiles n
  obtain ⟨-, ⟨e, herror, -⟩ | ⟨compiled', sql, hcompiled', heq⟩⟩ :=
    Compiler.answer_cases (Compiler.later _ n) config ⟨some parsed.program.database⟩ q
  · rw [hcompiled] at herror
    cases herror
  · obtain ⟨answer, hanswer, hsame⟩ := except_map_eq_ok (heq.symm.trans hn)
    obtain rfl := List.singleton_inj.mp hsame
    exact ⟨rfl, Compiler.answers_compileQuery (hsettled.later n) hp hsupplies hcompiled' hanswer⟩

/-- The fact that is listed twice is found twice, and the goal without variables is true. -/
theorem run_answers_step :
    (∃ report, (stepProgram.run { params := [("to", "b")] } {}).result = .ok report ∧
        report.queries.map Outcome.answer = [.rows ["X"] [["a"], ["a"]], .yes]) ∧
      stepProgram.Answers .joinAll (Config.text { params := [("to", "b")] })
        [⟨"edge", [.var "X", .param "to"]⟩, ⟨"step", [.var "X", .const "b", .const "b"]⟩]
        (.rows ["X"] [["a"], ["a"]]) ∧
      stepProgram.Answers .joinAll (Config.text { params := [("to", "b")] }) [stepGoal] .yes := by
  have hrun : (stepProgram.run { params := [("to", "b")] } {}).result =
      .ok ⟨3, 2, ⟨1, [⟨"step/3", .compiled 1⟩]⟩,
        [⟨"edge(X, :to), step(X, b, b)", none, .rows ["X"] [["a"], ["a"]]⟩,
          ⟨"step(a, :to, b)", none, .yes⟩]⟩ := by decide +kernel
  have hparam : ∃ text ∈ stepProgram.constants,
      ({ params := [("to", "b")] } : Config).param? "to" = some text := ⟨"b", by decide, rfl⟩
  obtain ⟨hfirst, hrest⟩ := List.forall₂_cons.mp (run_answers parse_stepProgram hrun)
  obtain ⟨hsecond, -⟩ := List.forall₂_cons.mp hrest
  refine ⟨⟨_, hrun, rfl⟩, (hfirst ?_ ⟨_, rfl⟩).2, (hsecond ?_ ⟨_, rfl⟩).2⟩
  · intro g hg x hx
    obtain rfl : x = "to" := by
      rcases List.mem_cons.mp hg with rfl | hg
      · simpa using hx
      · rw [List.mem_singleton.mp hg] at hx
        simp at hx
    exact hparam
  · intro g hg x hx
    rw [List.mem_singleton.mp hg] at hx
    obtain rfl : x = "to" := by simpa [stepGoal] using hx
    exact hparam

end Program

end HornQuery
