import Mathlib
import HornQuery.Proofs.Diagnosis
import HornQuery.Proofs.Materialization
import HornQuery.Proofs.Ownership
import HornQuery.Proofs.Reordering.Compilation

/-!
# How a run can fail

A run fails if its source is not a program, if a fact is too wide for every table, if its rules cannot
be resolved, or if the store refuses one of its queries, and these are looked at in this order
(`Failure`). Nothing else ends a run (`Session.failures_accounted`).

The other errors stay inside. A symbol is never unknown, because a program lists what it mentions. A
rule fails only for a goal of a wrong arity, because passes compile no rule before its goals are ready.
And a query that does not compile, or has no value for a parameter, is answered with an error of its
own, whose wording is one of few (`Program.Complaint`).

Whether the store refuses a query depends on how large its blocks are and how deep they nest, and not on
the aliases in them. So it does not matter how many queries were compiled before
(`Compiler.refusal?_later`), and the store's refusal is the one of the first query that it would refuse
on its own.
-/

namespace HornQuery

/-! ### Blocks -/

/-- The scan has a block that draws from these sources: it is the scan itself, or nested in it. -/
inductive Scan.HasBlock : Scan → List Source → Prop
  | own (s : Scan) : HasBlock s s.sources
  | nested {s inner : Scan} {sources : List Source} (hmem : .exists inner ∈ s.conditions)
    (hinner : HasBlock inner sources) : HasBlock s sources

/-- One condition is at most as wide as all together. -/
theorem Condition.width_le_widthOf {c : Condition} {cs : List Condition} (h : c ∈ cs) :
    c.width ≤ Condition.widthOf cs := by
  induction h with
  | head cs => exact le_max_left _ _
  | tail _ _ ih => exact ih.trans (le_max_right _ _)

/-- No block of a scan has more sources than the scan is wide. -/
theorem Scan.HasBlock.length_le {s : Scan} {sources : List Source} (h : s.HasBlock sources) :
    sources.length ≤ s.width := by
  induction h with
  | own s =>
    obtain ⟨sources, conditions, projection⟩ := s
    exact le_max_left _ _
  | @nested s inner sources hmem _ ih =>
    obtain ⟨own, conditions, projection⟩ := s
    exact ih.trans ((Condition.width_le_widthOf hmem).trans (le_max_right _ _))

mutual

/-- A scan that is too wide has a block that is, its own or one of a scan nested in it. -/
theorem Scan.exists_block {n : Nat} :
    (s : Scan) → n < s.width → ∃ sources, s.HasBlock sources ∧ n < sources.length
  | ⟨sources, conditions, projection⟩ => fun h ↦ by
    rcases lt_max_iff.mp h with h | h
    · exact ⟨sources, .own _, h⟩
    · obtain ⟨inner, hmem, block, hblock, hlt⟩ := Condition.exists_block conditions h
      exact ⟨block, .nested hmem hblock, hlt⟩

theorem Condition.exists_block {n : Nat} :
    (cs : List Condition) → n < Condition.widthOf cs →
      ∃ inner, .exists inner ∈ cs ∧ ∃ sources, inner.HasBlock sources ∧ n < sources.length
  | [] => fun h ↦ absurd h (Nat.not_lt_zero n)
  | .eq _ _ :: cs => fun h ↦ by
    obtain ⟨inner, hmem, hblock⟩ := Condition.exists_block cs
      ((lt_max_iff.mp h).resolve_left (Nat.not_lt_zero n))
    exact ⟨inner, List.mem_cons_of_mem _ hmem, hblock⟩
  | .exists inner :: cs => fun h ↦ by
    rcases lt_max_iff.mp h with h | h
    · exact ⟨inner, List.mem_cons_self, Scan.exists_block inner h⟩
    · obtain ⟨inner', hmem, hblock⟩ := Condition.exists_block cs h
      exact ⟨inner', List.mem_cons_of_mem _ hmem, hblock⟩

end

/-- The width of a scan is that of its widest block. -/
theorem Scan.lt_width_iff {n : Nat} {s : Scan} :
    n < s.width ↔ ∃ sources, s.HasBlock sources ∧ n < sources.length :=
  ⟨s.exists_block, fun ⟨_, hblock, hlt⟩ ↦ hlt.trans_le hblock.length_le⟩

/-! ### Queries that the store refuses -/

/-- Placeholders can be bound if every one of them has a text. -/
theorem Config.bind_isOk_iff {config : Config} {bindings : List (Placeholder × String)}
    {keys : List Placeholder} :
    (∃ values, config.bind bindings keys = .ok values) ↔
      ∀ key ∈ keys, ∃ text, config.valueOf bindings key = some text := by
  constructor
  · rintro ⟨values, hvalues⟩
    induction keys generalizing values with
    | nil => simp
    | cons key keys ih =>
      cases hvalue : config.valueOf bindings key with
      | none => simp [Config.bind, hvalue] at hvalues
      | some text =>
        simp only [Config.bind, hvalue] at hvalues
        obtain ⟨rest, hrest, -⟩ := except_map_eq_ok hvalues
        exact List.forall_mem_cons.mpr ⟨⟨text, hvalue⟩, ih rest hrest⟩
  · intro h
    obtain ⟨values, hvalues, -⟩ := Config.exists_bind h
    exact ⟨values, hvalues⟩

/-- Why the store refuses a compiled query, if it gets to see it: constants that have to agree do, and
all placeholders have values. -/
def CompiledQuery.refusal? (q : CompiledQuery) (config : Config) : Option StorageError :=
  if q.unsatisfiable then none
  else if q.fragment.order.all fun key ↦ (config.valueOf q.bindings key).isSome then
    q.fragment.refusal?
  else none

/-- A query comes to be refused only if it is executed: it can be satisfied and all its placeholders
have texts. -/
theorem CompiledQuery.refusal?_eq_some_iff {q : CompiledQuery} {config : Config} {e : StorageError} :
    q.refusal? config = some e ↔ q.unsatisfiable = false ∧
      (∀ key ∈ q.fragment.order, ∃ text, config.valueOf q.bindings key = some text) ∧
      q.fragment.refusal? = some e := by
  simp [refusal?, Option.isSome_iff_exists]

/-- Executing a query fails only if the store refuses it. -/
theorem CompiledQuery.execute_eq_error_iff {q : CompiledQuery} {config : Config} {db : Database}
    {text : String} {e : Error} :
    (q.execute config ⟨some db⟩ text).answer = .error e ↔
      ∃ cause, q.refusal? config = some cause ∧ e = .storage cause := by
  simp only [refusal?_eq_some_iff, ← Config.bind_isOk_iff]
  unfold execute
  cases q.unsatisfiable with
  | true => simp
  | false =>
    simp only [Bool.false_eq_true, if_false, true_and]
    cases config.bind q.bindings q.fragment.order with
    | error e => simp
    | ok values =>
      simp only [Store.query, Database.execute_eq]
      cases q.fragment.refusal? with
      | some cause => simp [eq_comm]
      | none => cases q.fragment.shape <;> simp

/-- Queries of the same outline, with the same texts for placeholders, are refused alike. -/
theorem CompiledQuery.Recoded.refusal? {ν : Recoding} {db db' : Database} {q q' : CompiledQuery}
    (h : CompiledQuery.Recoded ν db db' q q') (config : Config) :
    q'.refusal? config = q.refusal? config := by
  rw [CompiledQuery.refusal?, CompiledQuery.refusal?, h.unsatisfiable, h.bindings,
    Fragment.order_eq_of_outline h.fragment.outline,
    Fragment.refusal?_eq_of_outline h.fragment.outline]

namespace Compiler

variable {c d : Compiler} {config : Config}

/-- Why the store refuses a query, if it compiles. -/
def refusal? (c : Compiler) (config : Config) (q : Query) : Option StorageError :=
  match (c.compileQuery q).2 with
  | .ok compiled => compiled.refusal? config
  | .error _ => none

/-- A query that does not compile is not refused, since it is never executed. -/
theorem refusal?_eq_some_iff {q : Query} {e : StorageError} :
    c.refusal? config q = some e ↔ ∃ compiled, (c.compileQuery q).2 = .ok compiled ∧
      compiled.refusal? config = some e := by
  unfold refusal?
  cases (c.compileQuery q).2 <;> simp

/-- In a working store, answering a query fails only if the store refuses the query. -/
theorem answer_eq_error_iff {db : Database} {q : Query} {e : Error} :
    (c.answer config ⟨some db⟩ q).outcomes = .error e ↔
      ∃ cause, c.refusal? config q = some cause ∧ e = .storage cause := by
  obtain ⟨-, ⟨_, hcompile, heq⟩ | ⟨compiled, sql, hcompile, heq⟩⟩ := c.answer_cases config ⟨some db⟩ q
  · simp [heq, refusal?, hcompile]
  · rw [heq, refusal?, hcompile]
    have hexecute := @CompiledQuery.execute_eq_error_iff compiled config db q.text e
    simp only
    rw [← hexecute]
    cases (compiled.execute config ⟨some db⟩ q.text).answer <;> simp [Except.map]

/-- The store gets to see the query, and a block of it has more sources than the store can join. -/
def Overloads (c : Compiler) (config : Config) (q : Query) : Prop :=
  ∃ compiled, (c.compileQuery q).2 = .ok compiled ∧ compiled.unsatisfiable = false ∧
    (∀ key ∈ compiled.fragment.order, ∃ text, config.valueOf compiled.bindings key = some text) ∧
    ∃ sources, compiled.fragment.scan.HasBlock sources ∧ maxSources < sources.length

/-- A query that does not nest too deep is refused only for the sources of a block. -/
theorem exists_refusal?_iff {q : Query}
    (hdepth : ∀ compiled, (c.compileQuery q).2 = .ok compiled → compiled.fragment.depth ≤ maxDepth) :
    (∃ cause, c.refusal? config q = some cause) ↔ c.Overloads config q := by
  have hwidth : ∀ compiled, (c.compileQuery q).2 = .ok compiled →
      ((∃ cause, compiled.fragment.refusal? = some cause) ↔
        ∃ sources, compiled.fragment.scan.HasBlock sources ∧ maxSources < sources.length) := by
    intro compiled hcompiled
    rw [← Scan.lt_width_iff, ← Option.ne_none_iff_exists', ne_eq, Fragment.refusal?_eq_none_iff]
    simp [hdepth compiled hcompiled]
  simp only [refusal?_eq_some_iff, CompiledQuery.refusal?_eq_some_iff, Overloads]
  constructor
  · rintro ⟨cause, compiled, hcompiled, hsat, hbound, hcause⟩
    exact ⟨compiled, hcompiled, hsat, hbound, (hwidth compiled hcompiled).mp ⟨cause, hcause⟩⟩
  · rintro ⟨compiled, hcompiled, hsat, hbound, hblock⟩
    obtain ⟨cause, hcause⟩ := (hwidth compiled hcompiled).mpr hblock
    exact ⟨cause, compiled, hcompiled, hsat, hbound, hcause⟩

/-- How many scopes were opened before does not matter to the store. -/
theorem refusal?_later (hd : Assembled c d)
    (harities : ∀ s, c.program.hasFacts s = true → s.arity ≤ Schema.maxArity) (scopes : Nat)
    (q : Query) : (d.later scopes).refusal? config q = d.refusal? config q := by
  have hlater := hd.later scopes
  have htwins : Twins .same {} {} c c := .refl {} harities
  have hqueries := (htwins.of_sameTask hd.task hlater.task).compileQuery (q := q)
    (fun g _ ↦ htwins.agreeOn hd hlater rfl rfl) hd.wellScoped hlater.wellScoped
  unfold refusal?
  generalize (d.compileQuery q).2 = x, ((d.later scopes).compileQuery q).2 = x' at hqueries
  cases hqueries with
  | ok hq => exact hq.refusal? config
  | error _ => rfl

/-- Queries fail exactly if the store refuses one of them, with the refusal of the first. -/
theorem answerAll_eq_error_iff (hd : Assembled c d)
    (harities : ∀ s, c.program.hasFacts s = true → s.arity ≤ Schema.maxArity) {db : Database}
    {queries : List Query} (scopes : Nat) {e : Error} :
    ((d.later scopes).answerAll config ⟨some db⟩ queries).outcomes = .error e ↔
      ∃ cause, queries.findSome? (d.refusal? config) = some cause ∧ e = .storage cause := by
  induction queries generalizing scopes with
  | nil => simp [answerAll]
  | cons q queries ih =>
    -- Scopes that were opened for earlier queries do not change what is refused.
    have hanswer : ∀ e, ((d.later scopes).answer config ⟨some db⟩ q).outcomes = .error e ↔
        ∃ cause, d.refusal? config q = some cause ∧ e = .storage cause := fun e ↦ by
      rw [answer_eq_error_iff, refusal?_later hd harities]
    obtain ⟨hcompiler, -⟩ := (d.later scopes).answer_cases config ⟨some db⟩ q
    obtain ⟨n, hn⟩ := d.compileQuery_fst_later scopes q
    rw [hn] at hcompiler
    rw [List.findSome?_cons]
    cases hfirst : ((d.later scopes).answer config ⟨some db⟩ q).outcomes with
    | error e' =>
      obtain ⟨cause, hcause, rfl⟩ := (hanswer _).mp hfirst
      simp [answerAll, hfirst, hcause, eq_comm]
    | ok found =>
      have hnone : d.refusal? config q = none := by
        rw [Option.eq_none_iff_forall_ne_some]
        intro cause hcause
        rw [(hanswer _).mpr ⟨cause, hcause, rfl⟩] at hfirst
        cases hfirst
      rw [hnone, ← ih n]
      simp only [answerAll, hfirst, hcompiler]
      cases ((d.later n).answerAll config ⟨some db⟩ queries).outcomes <;> simp [Except.map]

end Compiler

/-! ### What is wrong with a query -/

/-- A name is undefined if it has no arities. -/
theorem Program.undefined_iff {p : Program} {s : Symbol} :
    p.Undefined s ↔ p.definedArities s.text = [] := by
  simp [Program.Undefined, List.eq_nil_iff_forall_not_mem, Program.mem_definedArities]

/-- A rule that has failed did so for the first goal with a wrong arity. -/
theorem Program.StateAfter.failed_inv {p : Program} {policy : BodyPolicy} {n : Nat} {r : Rule}
    {reason : String} (h : p.StateAfter policy n r (.failed reason)) :
    ∃ g, p.FirstFault policy r g ∧ reason = (p.arityFault g).message := by
  cases h with
  | failed _ hfault => exact ⟨_, hfault, rfl⟩

/-- The errors that a goal can have once all rules are settled: its arity is wrong, its name is not
defined, or its rule has failed. -/
inductive Program.GoalError (p : Program) (policy : BodyPolicy) (g : Goal) : CompileError → Prop
  | wrongArity (h : p.WrongArity g) : GoalError p policy g (p.arityFault g)
  | undefined (h : p.Undefined g.symbol) : GoalError p policy g (.unknownRelation g.symbol)
  | failedRule {r : Rule} {fault : Goal} (hr : p.rule? g.symbol = some r)
    (h : p.FirstFault policy r fault) :
    GoalError p policy g (.ruleFailed g.symbol (p.arityFault fault).message)

/-- No goal is at fault for a symbol without a number. -/
theorem Program.GoalError.ne_unknownSymbol {p : Program} {policy : BodyPolicy} {g : Goal}
    {e : CompileError} (h : p.GoalError policy g e) (symbol : Symbol) : e ≠ .unknownSymbol symbol := by
  rintro rfl
  cases h

namespace Resolution

variable {p : Program} {policy : BodyPolicy} {n : Nat} {f : Rule → RuleState} {c : Compiler}
  {states : RuleStates} {rule : Option Rule}

/-- A compiled rule can be used with any known arguments. -/
theorem Tracks.exists_addRule (h : Tracks p policy f c states) {g : Goal} (hg : c.Knows g)
    {fragment : Fragment} (hfragment : c.fragment? g.symbol = some fragment) (s : Scope) :
    ∃ s', c.addRule rule s g fragment = .ok s' := by
  have hcompiled : c.isCompiled g.symbol = true := by simp [Compiler.isCompiled, hfragment]
  obtain ⟨r, -, hr, -⟩ := (h.cache g.symbol).mp hcompiled
  rw [← h.program] at hr
  exact Compiler.addRule_isOk_iff.mpr ⟨r, hr, hg.pairs hr⟩

/-- Facts can be used with any known arguments. -/
theorem Tracks.exists_addFacts (h : Tracks p policy f c states) (hp : p.Closed) {g : Goal}
    (hg : c.Knows g) (hfacts : p.hasFacts g.symbol = true) (s : Scope) :
    ∃ s', c.addFacts rule s g = .ok s' := by
  obtain ⟨fact, hfact, hsymbol⟩ := hp.hasFacts_iff.mp hfacts
  have hknown : g.symbol ∈ c.symbols.symbols := by
    rw [h.symbols, Program.mem_symbolTable, ← hsymbol]
    exact (hp.facts fact hfact).1
  exact Compiler.addFacts_isOk_iff.mpr ⟨hknown, hg.args⟩

/-- The rule for a relation is pending if it is neither compiled nor known to have failed. -/
theorem Tracks.eq_pending (h : Tracks p policy f c states) {key : Symbol} {r : Rule}
    (hr : p.rule? key = some r) (hfragment : c.fragment? key = none)
    (hfailure : c.failures.lookup key = none) : f r = .pending := by
  cases hstate : f r with
  | pending => rfl
  | compiled m =>
    have hcompiled := (h.cache key).mpr ⟨r, m, hr, hstate⟩
    rw [Compiler.isCompiled, hfragment] at hcompiled
    cases hcompiled
  | failed reason =>
    have hreason := (h.failures _ _).mpr ⟨r, hr, hstate⟩
    rw [hfailure] at hreason
    cases hreason

/-- Once all rules are settled, a goal whose constants have numbers has no other errors. -/
theorem Tracks.addGoal_eq_error (h : Tracks p policy f c states) (hp : p.Closed)
    (hf : ∀ r ∈ p.rules, p.StateAfter policy n r (f r)) (hsettled : ∀ r ∈ p.rules, f r ≠ .pending)
    {g : Goal} (hg : c.Knows g) {s : Scope} {e : CompileError}
    (herror : c.addGoal rule s g = .error e) : p.GoalError policy g e := by
  unfold Compiler.addGoal at herror
  rw [h.program] at herror
  cases hfragment : c.fragment? g.symbol with
  -- A rule in the cache cannot fail here, since the constants are known.
  | some fragment =>
    simp only [hfragment] at herror
    obtain ⟨s', hs'⟩ := h.exists_addRule hg hfragment s
    cases herror.symm.trans hs'
  | none =>
    simp only [hfragment] at herror
    cases hfailure : c.failures.lookup g.symbol with
    | some reason =>
      simp only [hfailure] at herror
      obtain ⟨r, hr, hstate⟩ := (h.failures _ _).mp hfailure
      obtain ⟨fault, hfault, rfl⟩ := (hstate ▸ hf r (Program.mem_of_rule? hr)).failed_inv
      obtain rfl := Except.error.inj herror
      exact .failedRule hr hfault
    | none =>
      -- Nothing is pending, so a relation that is neither compiled nor failed has no rule.
      have hrule : p.rule? g.symbol = none := Option.eq_none_iff_forall_ne_some.mpr fun r hr ↦
        hsettled r (Program.mem_of_rule? hr) (h.eq_pending hr hfragment hfailure)
      simp only [hfailure, hrule, Option.isSome_none, Bool.false_eq_true, if_false] at herror
      cases hfacts : p.hasFacts g.symbol with
      | true =>
        simp only [hfacts, if_true] at herror
        obtain ⟨s', hs'⟩ := h.exists_addFacts hp hg hfacts s
        cases herror.symm.trans hs'
      | false =>
        simp only [hfacts, Bool.false_eq_true, if_false] at herror
        split at herror
        · rename_i hnone
          obtain rfl := Except.error.inj herror
          exact .undefined (Program.undefined_iff.mpr hnone)
        · rename_i hsome
          obtain rfl := Except.error.inj herror
          exact .wrongArity (Program.wrongArity_iff.mpr ⟨hrule, hfacts, hsome⟩)

end Resolution

/-- Goals are added in order, so an error is about the first one that is not admitted. -/
theorem Compiler.addGoals_eq_error {c : Compiler} {rule : Option Rule} {goals : List Goal} {s : Scope}
    {e : CompileError} (h : c.addGoals rule goals s = .error e) :
    ∃ g s', IsFirst (fun g ↦ ¬ c.Admits g) goals g ∧ c.addGoal rule s' g = .error e := by
  induction goals generalizing s with
  | nil => cases h
  | cons g goals ih =>
    cases hg : c.addGoal rule s g with
    | error e' =>
      simp only [addGoals, hg] at h
      obtain rfl := Except.error.inj h
      refine ⟨g, s, ⟨[], goals, rfl, by simp, fun hadmits ↦ ?_⟩, hg⟩
      obtain ⟨s', hs'⟩ := addGoal_isOk_iff.mpr hadmits
      cases hg.symm.trans hs'
    | ok s₁ =>
      simp only [addGoals, hg] at h
      obtain ⟨first, s', ⟨before, after, rfl, hbefore, hfirst⟩, herror⟩ := ih h
      have hadmits : c.Admits g := addGoal_isOk_iff.mp ⟨s₁, hg⟩
      refine ⟨first, s', ⟨g :: before, after, rfl, ?_, hfirst⟩, herror⟩
      exact List.forall_mem_cons.mpr ⟨not_not.mpr hadmits, hbefore⟩

/-- If a query does not compile, one of its goals cannot be added. -/
theorem Compiler.compileQuery_eq_error {c : Compiler} {q : Query} {e : CompileError}
    (h : (c.compileQuery q).2 = .error e) :
    ∃ g ∈ c.policy.select q.goals, ∃ s, c.openScope.2.addGoal none s g = .error e := by
  obtain ⟨compiled, -, heq⟩ | ⟨-, heq⟩ := c.compileQuery_cases q
  · rw [heq] at h
    cases h
  · rw [heq] at h
    obtain ⟨g, s, hfirst, hgoal⟩ :=
      addGoals_eq_error (except_map_eq_error (except_map_eq_error h))
    exact ⟨g, hfirst.mem, s, hgoal⟩

/-! ### Runs -/

namespace Program

variable {p : Program} {config : Config}

/-- The rules of a program resolved as a configuration asks for it. -/
def resolution (p : Program) (config : Config) : Resolution.Result :=
  (p.compiler config.bodyPolicy).resolve config.maxPasses

/-- What resolution leaves in the cache is assembled from the program. -/
theorem assembled_resolution (hp : p.Closed) (config : Config) :
    Compiler.Assembled (p.compiler config.bodyPolicy)
      (p.resolution config).compiler :=
  Compiler.Assembled.resolve ⟨.refl _, fun _ h ↦ absurd h List.not_mem_nil, fun _ _ h ↦ by cases h⟩ hp
    config.maxPasses

/-- If no fact is too wide, no relation with facts is. -/
theorem arity_le_of_hasFacts (hp : p.Closed) (hwide : p.wideFact? = none) {s : Symbol}
    (h : p.hasFacts s = true) : s.arity ≤ Schema.maxArity := by
  obtain ⟨f, hf, rfl⟩ := hp.hasFacts_iff.mp h
  exact wideFact?_eq_none_iff.mp hwide f hf

/-- A program that is in the store is answered by resolving its rules and then its queries. -/
theorem result_answers (p : Program) (config : Config) :
    (p.answers config ⟨some p.database⟩ p.symbolTable).result =
      (p.resolution config).report >>= fun report ↦
        (((p.resolution config).compiler.answerAll config ⟨some p.database⟩ p.queries).outcomes.map
          fun outcomes ↦ ⟨p.symbolTable.size, p.facts.length, report, outcomes⟩) := by
  unfold answers resolution compiler
  generalize Compiler.resolve _ _ = resolved
  obtain ⟨c, log, report | report⟩ := resolved
  · rfl
  · simp only [bind, Except.bind]
    cases (c.answerAll config ⟨some p.database⟩ p.queries).outcomes <;> rfl

/-- Answering the queries fails if the rules cannot be resolved or the store refuses a query. -/
theorem answers_eq_error_iff (hp : p.Closed) (hwide : p.wideFact? = none) {e : Error} :
    (p.answers config ⟨some p.database⟩ p.symbolTable).result = .error e ↔
      (p.resolution config).report = .error e ∨
        ∃ report cause, (p.resolution config).report = .ok report ∧
          p.queries.findSome? ((p.resolution config).compiler.refusal? config) = some cause ∧
          e = .storage cause := by
  have hanswers : ((p.resolution config).compiler.answerAll config ⟨some p.database⟩
      p.queries).outcomes = .error e ↔ _ :=
    Compiler.answerAll_eq_error_iff (assembled_resolution hp config)
      (fun _ ↦ arity_le_of_hasFacts hp hwide) 0
  rw [result_answers]
  cases (p.resolution config).report with
  | error e' => simp [bind, Except.bind]
  | ok report =>
    simp only [bind, Except.bind, reduceCtorEq, Except.ok.injEq, false_or, exists_and_left,
      exists_eq_left', ← hanswers]
    cases ((p.resolution config).compiler.answerAll config ⟨some p.database⟩ p.queries).outcomes <;>
      simp [Except.map]

/-- The wordings of what can be wrong with a query: something about one of its goals, or one of its
parameters has no value. -/
inductive Complaint (p : Program) (config : Config) (q : Query) : String → Prop
  | goal {g : Goal} {e : CompileError} (hg : g ∈ config.bodyPolicy.select q.goals)
    (h : p.GoalError config.bodyPolicy g e) : Complaint p config q e.message
  | parameter {g : Goal} {x : String} (hg : g ∈ config.bodyPolicy.select q.goals)
    (hx : .param x ∈ g.args) (h : config.param? x = none) :
    Complaint p config q (Error.missingBinding (.external x)).message

theorem Complaint.ne_unknownSymbol {q : Query} {message : String} (h : p.Complaint config q message)
    (symbol : Symbol) : message ≠ (CompileError.unknownSymbol symbol).message := by
  cases h with
  | goal _ h => exact CompileError.message_ne_unknownSymbol h.ne_unknownSymbol symbol
  | parameter => exact fun heq ↦ CompileError.message_ne_missingBinding _ _ heq.symm

/-- What a run reports if it does not fail: an outcome for each query in order, errors that are
complaints about their query, and rules that fail for a goal of a wrong arity. -/
structure Accounts (p : Program) (config : Config) (report : Report) : Prop where
  queries : List.Forall₂ (fun q outcome ↦ outcome.query = q.text ∧
    ∀ message, outcome.answer = .error message → p.Complaint config q message)
    p.queries report.queries
  rules : ∀ entry ∈ report.resolution.rules, ∀ reason, entry.outcome = .failed reason →
    ∃ r ∈ p.rules, ∃ g, p.FirstFault config.bodyPolicy r g ∧ reason = (p.arityFault g).message

/-- The outcome of a query, once all rules are settled. -/
theorem outcome_of_answer (hp : p.Closed) {n : Nat} {f : Rule → RuleState} {c : Compiler}
    {states : RuleStates} (hc : Resolution.Tracks p config.bodyPolicy f c states)
    (hself : c.SelfContained) (hf : ∀ r ∈ p.rules, p.StateAfter config.bodyPolicy n r (f r))
    (hsettled : ∀ r ∈ p.rules, f r ≠ .pending) {q : Query} (hq : q ∈ p.queries) {store : Store}
    {outcome : Outcome} (h : (c.answer config store q).outcomes = .ok [outcome]) :
    outcome.query = q.text ∧
      ∀ message, outcome.answer = .error message → p.Complaint config q message := by
  have hown := Compiler.lacksOnlyOwn_of_answer hself hc.policy h
  obtain ⟨-, ⟨e, herror, heq⟩ | ⟨compiled, sql, -, heq⟩⟩ := c.answer_cases config store q
  · obtain rfl := List.singleton_inj.mp (Except.ok.inj (h.symm.trans heq))
    refine ⟨rfl, fun message hmessage ↦ ?_⟩
    obtain rfl := Answer.error.inj hmessage
    obtain ⟨g, hg, s, hgoal⟩ := Compiler.compileQuery_eq_error herror
    rw [hc.policy] at hg
    have hopened : Resolution.Tracks p config.bodyPolicy f c.openScope.2 states :=
      ⟨hc.toWorksOn.of_sameTask ⟨rfl, rfl, rfl⟩, hc.states, hc.cache, hc.failures⟩
    have hknows : c.openScope.2.Knows g :=
      Compiler.knows_of_closed hp hopened.program hopened.symbols fun text htext ↦
        mem_constants.mpr (hp.queries q hq g (BodyPolicy.mem_of_mem_select hg) _ htext text rfl)
    exact .goal hg (hopened.addGoal_eq_error hp hf hsettled hknows hgoal)
  · obtain ⟨answer, hanswer, hsame⟩ := except_map_eq_ok (heq.symm.trans h)
    obtain rfl := List.singleton_inj.mp hsame
    refine ⟨rfl, fun message hmessage ↦ ?_⟩
    obtain rfl : answer = .error message := hmessage
    obtain ⟨key, -, -, rfl⟩ := CompiledQuery.execute_eq_error hanswer
    obtain ⟨x, rfl, hx, g, hg, hmem⟩ := hown key rfl
    exact .parameter hg hmem hx

/-- Answering the queries of a closed program accounts for all of them. -/
theorem accounts_of_answers (hp : p.Closed) {report : Report}
    (h : (p.answers config ⟨some p.database⟩ p.symbolTable).result = .ok report) :
    p.Accounts config report := by
  rw [result_answers] at h
  obtain ⟨resolved, hresolved, h⟩ := except_bind_eq_ok h
  obtain ⟨outcomes, houtcomes, rfl⟩ := except_map_eq_ok h
  obtain ⟨f, q, hreached, hall, hcompiler, ⟨-, e, herror⟩ | ⟨hsettled, hreport⟩⟩ :=
    Resolution.reached_resolve hp config.bodyPolicy config.maxPasses
  · cases hresolved.symm.trans herror
  obtain rfl := Except.ok.inj (hresolved.symm.trans hreport)
  refine ⟨?_, fun entry hentry reason hreason ↦ ?_⟩
  · have hself := Compiler.selfContained_resolve hp p.symbolTable config.bodyPolicy config.maxPasses
    have htracks := hreached.tracks
    rw [← hcompiler] at htracks
    have hanswered := Compiler.answerAll_outcomes (c := (p.resolution config).compiler) 0 houtcomes
    refine List.Forall₂.imp ?_ ((List.forall₂_and_left (p := (· ∈ p.queries)) _ _).mpr
      ⟨fun q hq ↦ hq, hanswered⟩)
    rintro q outcome ⟨hq, n, hn⟩
    -- Opening scopes changes nothing that the rules or their failures are known by.
    have hlater : Resolution.Tracks p config.bodyPolicy f
        ((p.resolution config).compiler.later n) _ :=
      ⟨htracks.toWorksOn.of_sameTask ⟨rfl, rfl, rfl⟩, htracks.states, htracks.cache, htracks.failures⟩
    exact outcome_of_answer hp hlater hself hall hsettled hq hn
  · obtain ⟨r, hr, rfl⟩ := List.mem_map.mp hentry
    have hafter := hall r hr
    cases hstate : f r with
    | pending => exact absurd hstate (hsettled r hr)
    | compiled m =>
      simp only [hstate, Resolution.outcome] at hreason
      cases hreason
    | failed cause =>
      simp only [hstate, Resolution.outcome] at hreason
      obtain rfl := RuleOutcome.failed.inj hreason
      exact ⟨r, hr, (hstate ▸ hafter).failed_inv⟩

/-- The reasons that a resolution remembers, whether it fails or not. -/
theorem reason_of_resolution (hp : p.Closed) {key : Symbol} {reason : String}
    (h : (p.resolution config).compiler.failures.lookup key = some reason) :
    ∃ r ∈ p.rules, r.key = key ∧
      ∃ g, p.FirstFault config.bodyPolicy r g ∧ reason = (p.arityFault g).message := by
  obtain ⟨f, q, hreached, hall, hcompiler, -⟩ :=
    Resolution.reached_resolve hp config.bodyPolicy config.maxPasses
  have htracks := hreached.tracks
  rw [← hcompiler] at htracks
  obtain ⟨r, hr, hstate⟩ := (htracks.failures key reason).mp h
  exact ⟨r, mem_of_rule? hr, key_of_rule? hr, (hstate ▸ hall r (mem_of_rule? hr)).failed_inv⟩

end Program

/-- The ways in which a run can fail, each of them only where those before it do not apply. -/
inductive Failure (config : Config) (source : String) : Error → Prop
  /-- The source is not a program. -/
  | parse {e : ParseError} (h : Program.parse source = .error e) : Failure config source (.parse e)
  /-- A fact is too wide, and it is the first one. -/
  | wideFact {parsed : Parsed} {f : Fact} (hparse : Program.parse source = .ok parsed)
    (h : parsed.program.wideFact? = some f) : Failure config source (.unsupportedArity f.symbol)
  /-- The rules cannot be resolved. -/
  | unresolved {parsed : Parsed} {e : Error} (hparse : Program.parse source = .ok parsed)
    (hfacts : parsed.program.wideFact? = none)
    (h : (parsed.program.resolution config).report = .error e) : Failure config source e
  /-- The store refuses a query, and it is the first one. -/
  | refused {parsed : Parsed} {report : ResolutionReport} {cause : StorageError}
    (hparse : Program.parse source = .ok parsed) (hfacts : parsed.program.wideFact? = none)
    (hrules : (parsed.program.resolution config).report = .ok report)
    (h : parsed.program.queries.findSome?
      ((parsed.program.resolution config).compiler.refusal? config) = some cause) :
    Failure config source (.storage cause)

namespace Failure

variable {config : Config} {source : String} {e : Error}

/-- Once the source is read, what is left of the ways to fail is about the program. -/
theorem iff_of_parse {parsed : Parsed} (hparse : Program.parse source = .ok parsed) :
    Failure config source e ↔
      (parsed.program.run config {}).result = .error e := by
  have hp := (Program.collected_of_parse hparse).closed
  rw [Program.result_run hp Store.tabled_empty]
  constructor
  · intro h
    cases h with
    | parse h => cases hparse.symm.trans h
    | wideFact hparse' h =>
      obtain rfl := Except.ok.inj (hparse.symm.trans hparse')
      rw [h]
    | unresolved hparse' hfacts h =>
      obtain rfl := Except.ok.inj (hparse.symm.trans hparse')
      rw [hfacts]
      exact (Program.answers_eq_error_iff hp hfacts).mpr (.inl h)
    | refused hparse' hfacts hrules h =>
      obtain rfl := Except.ok.inj (hparse.symm.trans hparse')
      rw [hfacts]
      exact (Program.answers_eq_error_iff hp hfacts).mpr (.inr ⟨_, _, hrules, h, rfl⟩)
  · intro h
    -- The ways to fail come in this order, and each excludes the later ones.
    cases hwide : parsed.program.wideFact? with
    | some f =>
      rw [hwide] at h
      obtain rfl := Except.error.inj h
      exact .wideFact hparse hwide
    | none =>
      rw [hwide] at h
      obtain hreport | ⟨report, cause, hrules, hrefused, rfl⟩ :=
        (Program.answers_eq_error_iff hp hwide).mp h
      · exact .unresolved hparse hwide hreport
      · exact .refused hparse hwide hrules hrefused

/-- The errors of failed runs: nothing about goals or parameters is among them. -/
theorem cases_error (h : Failure config source e) :
    (∃ cause, e = .parse cause) ∨ (∃ fact, e = .unsupportedArity fact) ∨
      (∃ rule reference, e = .cascade rule reference) ∨ (∃ passes pending, e = .cycle passes pending) ∨
      ∃ cause, e = .storage cause := by
  cases h with
  | parse _ => exact .inl ⟨_, rfl⟩
  | wideFact _ _ => exact .inr (.inl ⟨_, rfl⟩)
  | unresolved _ _ h => exact .inr (.inr ((Compiler.resolve_eq_error h).imp_right .inl))
  | refused _ _ _ _ => exact .inr (.inr (.inr (.inr ⟨_, rfl⟩)))

end Failure

namespace Session

variable {s : Session} {source : String} {parsed : Parsed}

/-- A working session runs the program that it reads. -/
theorem result_run_of_parse (hworks : s.refusal = none) (hparse : Program.parse source = .ok parsed) :
    (s.run source).result = (parsed.program.run s.config s.store).result := by
  simp only [run, hparse, hworks]

/-- The failures are all there are, and each of them is one. -/
theorem run_eq_error_iff_failure (hworks : s.refusal = none) (hstore : s.store.Tabled) {e : Error} :
    (s.run source).result = .error e ↔ Failure s.config source e := by
  cases hparse : Program.parse source with
  | ok parsed =>
    rw [Failure.iff_of_parse hparse, result_run_of_parse hworks hparse,
      Program.run_eq_run_empty hstore]
  | error cause =>
    simp only [run, hparse, Except.error.injEq]
    constructor
    · rintro rfl
      exact .parse hparse
    · intro h
      cases h with
      | parse h => rw [Except.error.inj (hparse.symm.trans h)]
      | wideFact h => cases hparse.symm.trans h
      | unresolved h => cases hparse.symm.trans h
      | refused h => cases hparse.symm.trans h

/-- Where the rules are resolved and no query nests too deep, only sources can be too many. -/
theorem run_fails_iff_overloads (hworks : s.refusal = none) (hstore : s.store.Tabled)
    (hparse : Program.parse source = .ok parsed) (hwide : parsed.program.wideFact? = none)
    {resolved : ResolutionReport}
    (hresolved : (parsed.program.resolution s.config).report = .ok resolved)
    (hdepth : ∀ q ∈ parsed.program.queries, ∀ compiled,
      ((parsed.program.resolution s.config).compiler.compileQuery q).2 = .ok compiled →
        compiled.fragment.depth ≤ maxDepth) :
    (∃ e, (s.run source).result = .error e) ↔ ∃ q ∈ parsed.program.queries,
      (parsed.program.resolution s.config).compiler.Overloads s.config q := by
  have hp := (Program.collected_of_parse hparse).closed
  have hresult : (s.run source).result =
      (parsed.program.answers s.config ⟨some parsed.program.database⟩
        parsed.program.symbolTable).result := by
    rw [result_run_of_parse hworks hparse, Program.result_run hp hstore, hwide]
  have hrefused : (∃ e, (s.run source).result = .error e) ↔
      ∃ cause, parsed.program.queries.findSome?
        ((parsed.program.resolution s.config).compiler.refusal? s.config) = some cause := by
    simp [hresult, Program.answers_eq_error_iff hp hwide, hresolved]
  rw [hrefused, ← Option.isSome_iff_exists, List.findSome?_isSome_iff]
  refine exists_congr fun q ↦ and_congr_right fun hq ↦ ?_
  rw [Option.isSome_iff_exists]
  exact Compiler.exists_refusal?_iff (hdepth q hq)

/-- A run that succeeds accounts for all queries. -/
theorem accounts_of_run (hworks : s.refusal = none) (hstore : s.store.Tabled)
    (hparse : Program.parse source = .ok parsed) {report : Report}
    (hreport : (s.run source).result = .ok report) : parsed.program.Accounts s.config report := by
  have hp := (Program.collected_of_parse hparse).closed
  rw [result_run_of_parse hworks hparse, Program.result_run hp hstore] at hreport
  cases hwide : parsed.program.wideFact? with
  | some f =>
    rw [hwide] at hreport
    cases hreport
  | none =>
    rw [hwide] at hreport
    exact Program.accounts_of_answers hp hreport

/-- **Every way to fail is accounted for.** Take a store that works, and any source. The run fails
exactly in the ways listed by `Failure`, so with an error about the source, a fact that is too wide, the
resolution of rules or the store; an error about goals or parameters never ends a run. If no query nests
too deep, the store refuses one exactly if a block of it has more than 64 sources. A rule that fails
does so for a goal of a wrong arity. Where nothing fails, there is an outcome for each query, in order,
and an error in one is about a goal of the query or a parameter of it that is not configured. A symbol
without a number is neither a reason nor an answer. -/
theorem failures_accounted (hworks : s.refusal = none) (hstore : s.store.Tabled) (source : String) :
    (∀ e, (s.run source).result = .error e ↔ Failure s.config source e) ∧
      (∀ e, (s.run source).result = .error e →
        (∃ cause, e = .parse cause) ∨ (∃ fact, e = .unsupportedArity fact) ∨
          (∃ rule reference, e = .cascade rule reference) ∨
          (∃ passes pending, e = .cycle passes pending) ∨ ∃ cause, e = .storage cause) ∧
      ((∀ e, ¬ Failure s.config source e) → ∃ report, (s.run source).result = .ok report) ∧
      ∀ parsed, Program.parse source = .ok parsed →
        (∀ resolved, parsed.program.wideFact? = none →
          (parsed.program.resolution s.config).report = .ok resolved →
          (∀ q ∈ parsed.program.queries, ∀ compiled,
            ((parsed.program.resolution s.config).compiler.compileQuery q).2 = .ok compiled →
              compiled.fragment.depth ≤ maxDepth) →
          ((∃ e, (s.run source).result = .error e) ↔ ∃ q ∈ parsed.program.queries,
            (parsed.program.resolution s.config).compiler.Overloads s.config q)) ∧
        (∀ key reason,
          (parsed.program.resolution s.config).compiler.failures.lookup key = some reason →
            ∃ g, parsed.program.WrongArity g ∧ reason = (parsed.program.arityFault g).message) ∧
        ∀ report, (s.run source).result = .ok report →
          parsed.program.Accounts s.config report ∧ ∀ symbol,
            (∀ entry ∈ report.resolution.rules,
              entry.outcome ≠ .failed (CompileError.unknownSymbol symbol).message) ∧
            ∀ outcome ∈ report.queries,
              outcome.answer ≠ .error (CompileError.unknownSymbol symbol).message := by
  have hiff : ∀ e, (s.run source).result = .error e ↔ Failure s.config source e :=
    fun e ↦ run_eq_error_iff_failure hworks hstore
  refine ⟨hiff, fun e he ↦ ((hiff e).mp he).cases_error, fun hnone ↦ ?_, fun parsed hparse ↦
    ⟨fun resolved hwide hresolved hdepth ↦
      run_fails_iff_overloads hworks hstore hparse hwide hresolved hdepth,
      fun key reason hreason ↦ ?_, fun report hreport ↦ ?_⟩⟩
  · cases hresult : (s.run source).result with
    | ok report => exact ⟨report, rfl⟩
    | error e => exact absurd ((hiff e).mp hresult) (hnone e)
  · obtain ⟨r, hr, -, g, ⟨before, after, -, -, hwrong⟩, hmessage⟩ :=
      Program.reason_of_resolution (Program.collected_of_parse hparse).closed hreason
    exact ⟨g, hwrong, hmessage⟩
  · have haccounts := accounts_of_run hworks hstore hparse hreport
    refine ⟨haccounts, fun symbol ↦ ⟨fun entry hentry hfailed ↦ ?_, fun outcome houtcome herror ↦ ?_⟩⟩
    · obtain ⟨r, -, g, -, hmessage⟩ := haccounts.rules entry hentry _ hfailed
      exact CompileError.message_ne_unknownSymbol (e := parsed.program.arityFault g) nofun symbol
        hmessage.symm
    · obtain ⟨i, hi, rfl⟩ := List.mem_iff_getElem.mp houtcome
      obtain ⟨-, hcomplaint⟩ :=
        haccounts.queries.get (haccounts.queries.length_eq.symm ▸ hi) hi
      exact (hcomplaint _ herror).ne_unknownSymbol symbol rfl

/-- A rule that uses `edge` with one argument only, a query on that rule, and a query with a
parameter. -/
def oddSource : String := "edge(a, b). odd(X) :- edge(X). ?- odd(a). ?- edge(a, :to)."

/-- What a run of `oddSource` reports if the parameter is not configured. -/
def oddReport : Report where
  symbols := 3
  facts := 1
  resolution :=
    ⟨1, [⟨"odd/1", .failed "Arity mismatch: edge/1 used, but edge is defined with arity [2]"⟩]⟩
  queries :=
    [⟨"odd(a)", none, .error ("Rule odd/1 failed to compile: " ++
        "Arity mismatch: edge/1 used, but edge is defined with arity [2]")⟩,
      ⟨"edge(a, :to)", none, .error "Required parameter :to missing at execution"⟩]

/-- Errors of rules and queries do not end a run, and a fact that is too wide does, wherever it is. -/
theorem failures_accounted_odd :
    (({} : Session).run oddSource).result = .ok oddReport ∧ (∀ e, ¬ Failure {} oddSource e) ∧
      Failure {} (oddSource ++ " wide(a, b, c, d, e).") (.unsupportedArity ⟨"wide", 5⟩) := by
  have hok : (({} : Session).run oddSource).result = .ok oddReport := by decide +kernel
  have hwide : (({} : Session).run (oddSource ++ " wide(a, b, c, d, e).")).result =
      .error (.unsupportedArity ⟨"wide", 5⟩) := by
    decide +kernel
  refine ⟨hok, fun e he ↦ ?_, ((failures_accounted rfl Store.tabled_empty _).1 _).mp hwide⟩
  rw [((failures_accounted rfl Store.tabled_empty oddSource).1 e).mpr he] at hok
  cases hok

end Session

end HornQuery
