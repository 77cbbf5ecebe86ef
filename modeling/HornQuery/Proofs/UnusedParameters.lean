import Mathlib
import HornQuery.Proofs.Failures
import HornQuery.Proofs.Reads

/-!
# Parameters that are reported as unused

A run that succeeds ends with a warning for each configured parameter that no query looked up. Looking a
parameter up is a by-product of executing a query, so the warning does not say what its words say, that
no query references the parameter (`Session.paramUnused_though_named`). A query looks nothing up if it
does not compile, or if its constants contradict the head of the rule it is about; it stops at the first
parameter without a value; and a parameter that a rule ignores has no place in the query's SQL.

Apart from these the warning can be trusted (`Session.paramUnused_sound`): a parameter that a query reads
is reported as unused only if that query is answered by an error or dismissed by its constants. And it is
reported whenever no query reads it.
-/

namespace HornQuery

/-! ### Looking up -/

namespace Config

variable {config : Config} {bindings : List (Placeholder × String)} {keys : List Placeholder}
  {name : String}

/-- Placeholders are looked up in order, until one has no text. -/
theorem mem_lookedUp_cons {key : Placeholder} :
    name ∈ config.lookedUp bindings (key :: keys) ↔
      key = .external name ∨
        (∃ text, config.valueOf bindings key = some text) ∧ name ∈ config.lookedUp bindings keys := by
  cases key <;> simp only [lookedUp] <;> cases config.valueOf bindings _ <;> simp [eq_comm]

/-- A parameter that is looked up stands in the list. -/
theorem external_mem_of_mem_lookedUp (h : name ∈ config.lookedUp bindings keys) :
    .external name ∈ keys := by
  induction keys with
  | nil => cases h
  | cons key keys ih =>
    obtain rfl | ⟨-, h⟩ := mem_lookedUp_cons.mp h
    · exact List.mem_cons_self
    · exact List.mem_cons_of_mem _ (ih h)

/-- Where every placeholder has a value, every parameter is looked up. -/
theorem mem_lookedUp_of_bind {values : List (Placeholder × String)}
    (h : config.bind bindings keys = .ok values) (hname : .external name ∈ keys) :
    name ∈ config.lookedUp bindings keys := by
  have hall := bind_isOk_iff.mp ⟨values, h⟩
  clear h
  induction keys with
  | nil => cases hname
  | cons key keys ih =>
    obtain ⟨hkey, hkeys⟩ := List.forall_mem_cons.mp hall
    rcases List.mem_cons.mp hname with rfl | hname
    · exact mem_lookedUp_cons.mpr (.inl rfl)
    · exact mem_lookedUp_cons.mpr (.inr ⟨hkey, ih hname hkeys⟩)

end Config

/-- A query that its constants dismiss looks nothing up. -/
theorem CompiledQuery.used_execute (q : CompiledQuery) (config : Config) (store : Store)
    (text : String) :
    (q.execute config store text).used =
      if q.unsatisfiable then [] else config.lookedUp q.bindings q.fragment.order := by
  unfold execute
  split
  · rfl
  · simp only
    split
    · rfl
    · split <;> rfl

/-! ### Queries that are dismissed -/

/-- The constants of a goal contradict the head of a rule: one meets another constant, or two different
ones meet the same variable. -/
def Rule.Excludes (r : Rule) (g : Goal) : Prop :=
  (∃ a b, a ≠ b ∧ (.const a, .const b) ∈ r.head.zip g.args) ∨
    ∃ x a b, a ≠ b ∧ (.var x, .const a) ∈ r.head.zip g.args ∧ (.var x, .const b) ∈ r.head.zip g.args

/-- The goals are a single one, and its constants contradict the head of its rule. -/
def Program.Dismisses (p : Program) (goals : List Goal) : Prop :=
  ∃ g r, goals = [g] ∧ p.rule? g.symbol = some r ∧ r.Excludes g

/-- The answer was found without the values of all parameters: there is a complaint about a goal or about
a parameter without a value, or the query was dismissed. -/
def Program.CutShort (p : Program) (config : Config) (q : Query) (answer : Answer) : Prop :=
  (∃ message, answer = .error message ∧ p.Complaint config q message) ∨
    answer = .no ∧ p.Dismisses (config.bodyPolicy.select q.goals)

namespace Compiler

variable {c : Compiler} {config : Config} {store : Store} {q : Query} {name : String}

/-- Two constants are found to differ only if they do. -/
theorem HeadMatch.excludes_of_unsatisfiable {key : Symbol} {r : Rule} {g : Goal}
    {pairs : List (Term × Term)} {m m' : HeadMatch} (hpairs : pairs ⊆ r.head.zip g.args)
    (h : pairs.foldlM (HeadMatch.step? key) m = some m')
    (hm : ∀ x text, m.bindings.lookup (.rule key x) = some text →
      (.var x, .const text) ∈ r.head.zip g.args) (hunsat : m'.unsatisfiable = true) :
    m.unsatisfiable = true ∨ r.Excludes g := by
  induction pairs generalizing m with
  | nil =>
    obtain rfl : m = m' := by simpa using h
    exact .inl hunsat
  | cons pair rest ih =>
    rw [List.foldlM_cons] at h
    obtain ⟨m₁, hstep, hrest⟩ := Option.bind_eq_some_iff.mp h
    obtain ⟨hpair, hothers⟩ := List.cons_subset.mp hpairs
    have hlater := ih hothers hrest
    obtain ⟨x, text, previous, rfl, -, hbound, rfl⟩ | ⟨x, text, rfl, -, hfree, rfl⟩ |
      ⟨x, outer, rfl, -, -, rfl⟩ | ⟨expected, text, rfl, rfl⟩ := HeadMatch.step?_cases hstep
    · -- A variable meets two constants.
      refine (hlater hm).elim (fun hjudged ↦ ?_) .inr
      obtain hbefore | hdiffer := Bool.or_eq_true_iff.mp hjudged
      · exact .inl hbefore
      · exact .inr (.inr ⟨x, previous, text, of_decide_eq_true hdiffer, hm x previous hbound, hpair⟩)
    · -- A variable meets its first constant, which is noted.
      refine hlater fun y text' hlookup ↦ ?_
      obtain hlookup | ⟨heq, rfl⟩ := (lookup_append_singleton_eq_some hfree).mp hlookup
      · exact hm y text' hlookup
      · obtain rfl := (Placeholder.rule.inj heq).2
        exact hpair
    · exact hlater hm
    · -- A constant in the head meets another one.
      refine (hlater hm).elim (fun hjudged ↦ ?_) .inr
      obtain hbefore | hdiffer := Bool.or_eq_true_iff.mp hjudged
      · exact .inl hbefore
      · exact .inr (.inl ⟨expected, text, of_decide_eq_true hdiffer, hpair⟩)

/-- A compiled query that cannot be satisfied was dismissed, because its constants contradict the
head of a rule. -/
theorem dismisses_of_unsatisfiable {compiled : CompiledQuery} (h : (c.compileQuery q).2 = .ok compiled)
    (hunsat : compiled.unsatisfiable = true) :
    compiled.fragment.shape = .existence ∧ c.program.Dismisses (c.policy.select q.goals) := by
  obtain ⟨cached, hreuse, heq⟩ | ⟨-, heq⟩ := c.compileQuery_cases q <;> rw [heq] at h
  · obtain rfl := Except.ok.inj h
    obtain ⟨g, hgoals, -, -, hg⟩ := reuse?_eq_some hreuse
    obtain ⟨r, m, fragment, hr, hm, -, rfl⟩ := reuse_eq_some hg
    refine ⟨rfl, g, r, hgoals, hr, ?_⟩
    obtain hfalse | hexcludes := HeadMatch.excludes_of_unsatisfiable (List.Subset.refl _) hm
      (fun _ _ h ↦ by cases h) hunsat
    · cases hfalse
    · exact hexcludes
  · obtain ⟨fragment, -, rfl⟩ := except_map_eq_ok h
    cases hunsat

/-! ### Queries -/

/-- What a query looks up is read by one of its goals. -/
theorem reads_of_mem_used (hself : c.SelfContained) (hexact : c.Exact)
    (h : name ∈ (c.answer config store q).used) :
    ∃ g ∈ c.policy.select q.goals, c.program.Reads c.policy g (.param name) := by
  rcases hcompile : c.compileQuery q with ⟨c', e | compiled⟩
  · simp [answer, hcompile] at h
  · simp only [answer, hcompile, CompiledQuery.used_execute] at h
    split_ifs at h
    · cases h
    · exact (external_mem_order_iff hself hexact (by rw [hcompile])).mp
        (Config.external_mem_of_mem_lookedUp h)

/-- A query looks up what its goals read, unless it is answered by an error or dismissed. -/
theorem error_or_dismisses_of_not_mem_used (hself : c.SelfContained) (hexact : c.Exact) {outcome : Outcome}
    (h : (c.answer config store q).outcomes = .ok [outcome])
    (hname : name ∉ (c.answer config store q).used) {g : Goal} (hg : g ∈ c.policy.select q.goals)
    (hread : c.program.Reads c.policy g (.param name)) :
    (∃ message, outcome.answer = .error message) ∨
      outcome.answer = .no ∧ c.program.Dismisses (c.policy.select q.goals) := by
  rcases hcompile : c.compileQuery q with ⟨c', e | compiled⟩
  · simp only [answer, hcompile, Except.ok.injEq, List.cons.injEq, and_true] at h
    subst h
    exact .inl ⟨_, rfl⟩
  · have hsnd : (c.compileQuery q).2 = .ok compiled := by rw [hcompile]
    have hmem := (external_mem_order_iff hself hexact hsnd).mpr ⟨g, hg, hread⟩
    simp only [answer, hcompile, CompiledQuery.used_execute] at h hname
    obtain ⟨answer, hanswer, hsingle⟩ := except_map_eq_ok h
    obtain rfl := (List.cons.inj hsingle).1
    cases hunsat : compiled.unsatisfiable with
    | true =>
      obtain ⟨hshape, hdismisses⟩ := dismisses_of_unsatisfiable hsnd hunsat
      simp only [CompiledQuery.execute, hunsat, if_true, Fragment.emptyAnswer, hshape] at hanswer
      exact .inr ⟨(Except.ok.inj hanswer).symm, hdismisses⟩
    | false =>
      rw [hunsat, if_neg Bool.false_ne_true] at hname
      cases hbind : config.bind compiled.bindings compiled.fragment.order with
      | ok values => exact absurd (Config.mem_lookedUp_of_bind hbind hmem) hname
      | error e =>
        simp only [CompiledQuery.execute, hunsat, Bool.false_eq_true, if_false, hbind] at hanswer
        exact .inl ⟨e.message, (Except.ok.inj hanswer).symm⟩

/-- A parameter that is recorded as used is read by a goal of some query. -/
theorem reads_of_mem_used_answerAll (hself : c.SelfContained) (hexact : c.Exact) {queries : List Query}
    (scopes : Nat) (h : name ∈ ((c.later scopes).answerAll config store queries).used) :
    ∃ q ∈ queries, ∃ g ∈ c.policy.select q.goals, c.program.Reads c.policy g (.param name) := by
  induction queries generalizing scopes with
  | nil => cases h
  | cons q queries ih =>
    have hfirst (hmem : name ∈ ((c.later scopes).answer config store q).used) :
        ∃ q' ∈ q :: queries, ∃ g ∈ c.policy.select q'.goals, c.program.Reads c.policy g (.param name) :=
      ⟨q, List.mem_cons_self, (c.later scopes).reads_of_mem_used hself hexact hmem⟩
    obtain ⟨hcompiler, -⟩ := (c.later scopes).answer_cases config store q
    obtain ⟨n, hn⟩ := c.compileQuery_fst_later scopes q
    rw [answerAll, hcompiler, hn] at h
    cases houtcomes : ((c.later scopes).answer config store q).outcomes with
    | error e =>
      rw [houtcomes] at h
      exact hfirst h
    | ok found =>
      rw [houtcomes] at h
      rcases List.mem_append.mp h with h | h
      · exact hfirst h
      · obtain ⟨q', hq', hreads⟩ := ih n h
        exact ⟨q', List.mem_cons_of_mem _ hq', hreads⟩

end Compiler

/-! ### The log -/

/-- The log reports no parameter as unused. -/
def Quiet (log : List Event) : Prop := ∀ name, .paramUnused name ∉ log

@[simp] theorem quiet_nil : Quiet [] := fun _ ↦ List.not_mem_nil

@[simp] theorem quiet_append {log log' : List Event} : Quiet (log ++ log') ↔ Quiet log ∧ Quiet log' := by
  simp [Quiet, not_or, forall_and]

@[simp] theorem quiet_cons {event : Event} {log : List Event} :
    Quiet (event :: log) ↔ (∀ name, event ≠ .paramUnused name) ∧ Quiet log := by
  simp [Quiet, not_or, forall_and, eq_comm]

namespace Resolution

/-- No attempt at a rule reports a parameter. -/
theorem quiet_attempt {number : Nat} {before : RuleStates} {q : Pass} (h : Quiet q.log) (r : Rule) :
    Quiet (attempt number before q r).log := by
  unfold attempt
  split
  · split
    · simp [Pass.fail, h]
    · exact h
    · split
      · simp only [Pass.succeed]
        split <;> simp [h]
      · simp [Pass.fail, h]
  · exact h

theorem quiet_pass (number : Nat) (c : Compiler) (states : RuleStates) :
    Quiet (pass number c states).log := by
  have hfold (rules : List Rule) {q : Pass} (h : Quiet q.log) :
      Quiet (rules.foldl (attempt number states) q).log := by
    induction rules generalizing q with
    | nil => exact h
    | cons r rules ih => exact ih (quiet_attempt h r)
  simp [pass, hfold]

/-- Nor does a run of passes. -/
theorem quiet_run (left : Nat) {q : Passes} (h : Quiet q.log) : Quiet (run left q).log := by
  induction left generalizing q with
  | zero => exact h
  | succ left ih =>
    have hnext : Quiet q.next.log := quiet_append.mpr ⟨h, quiet_pass _ _ _⟩
    rw [run_succ]
    split_ifs
    · exact ih hnext
    · exact hnext
    · exact h

end Resolution

/-- So resolution is quiet. -/
theorem Compiler.quiet_resolve (c : Compiler) (maxPasses : Nat) : Quiet (c.resolve maxPasses).log := by
  unfold resolve
  simp only
  split <;> simp [Resolution.quiet_run]

/-- Executing a query is quiet as well. -/
theorem CompiledQuery.quiet_execute (q : CompiledQuery) (config : Config) (store : Store)
    (text : String) : Quiet (q.execute config store text).log := by
  have hdropped (keys : List Placeholder) : Quiet (keys.map Event.bindingDropped) := by simp [Quiet]
  unfold execute
  split
  · exact quiet_nil
  · simp only
    split
    · simp [hdropped]
    · split <;> exact hdropped _

/-- And so is answering them all. -/
theorem Compiler.quiet_answerAll (c : Compiler) (config : Config) (store : Store)
    (queries : List Query) : Quiet (c.answerAll config store queries).log := by
  have hanswer (c : Compiler) (q : Query) : Quiet (c.answer config store q).log := by
    unfold answer
    split <;> simp [CompiledQuery.quiet_execute]
  induction queries generalizing c with
  | nil => exact quiet_nil
  | cons q queries ih =>
    rw [answerAll]
    split
    · exact hanswer c q
    · exact quiet_append.mpr ⟨hanswer c q, ih _⟩

namespace Program

variable {p : Program} {config : Config} {store : Store} {report : Report} {name : String}

theorem quiet_materialize (p : Program) (store : Store) : Quiet (p.materialize store).log := by
  unfold materialize
  simp only
  split
  · exact quiet_nil
  · split
    · exact quiet_nil
    · split <;> simp

/-- Where the queries are answered, the log ends with the configured parameters that none of them looked
up. -/
theorem log_answers (h : (p.answers config ⟨some p.database⟩ p.symbolTable).result = .ok report) :
    ((p.resolution config).compiler.answerAll config ⟨some p.database⟩ p.queries).outcomes =
        .ok report.queries ∧
      (p.answers config ⟨some p.database⟩ p.symbolTable).log = (p.resolution config).log ++
        ((p.resolution config).compiler.answerAll config ⟨some p.database⟩ p.queries).log ++
        config.unusedParams
          ((p.resolution config).compiler.answerAll config ⟨some p.database⟩ p.queries).used ++
        [.executed report.queries.length] := by
  unfold answers resolution compiler at *
  generalize Compiler.resolve _ _ = resolved at *
  obtain ⟨c, log, e | resolved⟩ := resolved
  · cases h
  · simp only at h ⊢
    cases houtcomes : (c.answerAll config ⟨some p.database⟩ p.queries).outcomes with
    | error e =>
      rw [houtcomes] at h
      cases h
    | ok outcomes =>
      simp only [houtcomes, Except.ok.injEq] at h ⊢
      subst h
      exact ⟨rfl, rfl⟩

/-- So a parameter is reported as unused exactly if it is configured and was not looked up for any
query. -/
theorem paramUnused_mem_log_iff (hp : p.Closed) (h : (p.run config store).result = .ok report) :
    .paramUnused name ∈ (p.run config store).log ↔
      name ∈ config.params.map Prod.fst ∧ name ∉
        ((p.resolution config).compiler.answerAll config ⟨some p.database⟩ p.queries).used := by
  obtain ⟨hanswers, hlog⟩ := answers_of_run hp h
  have hmaterialize := p.quiet_materialize ⟨some {}⟩ name
  have hresolution : .paramUnused name ∉ (p.resolution config).log := Compiler.quiet_resolve _ _ name
  have hanswered := (p.resolution config).compiler.quiet_answerAll config ⟨some p.database⟩ p.queries name
  rw [hlog, (log_answers hanswers).2]
  simp [hmaterialize, hresolution, hanswered, Config.unusedParams]

/-- A query that reads a parameter that is reported as unused is cut short. -/
theorem cutShort_of_paramUnused (hp : p.Closed) (h : (p.run config store).result = .ok report)
    (hname : .paramUnused name ∈ (p.run config store).log) :
    List.Forall₂ (fun q outcome ↦ ∀ g ∈ config.bodyPolicy.select q.goals,
      p.Reads config.bodyPolicy g (.param name) → p.CutShort config q outcome.answer)
      p.queries report.queries := by
  have hanswers := (answers_of_run hp h).1
  have haccounts := (accounts_of_answers hp hanswers).queries
  have hanswered := Compiler.answerAll_answered (c := (p.resolution config).compiler) 0
    (log_answers hanswers).1
  have hunused := ((paramUnused_mem_log_iff hp h).mp hname).2
  obtain ⟨hprogram, -, hpolicy⟩ := (assembled_resolution hp config).task
  have hself : (p.resolution config).compiler.SelfContained := Compiler.selfContained_resolve hp _ _ _
  have hexact : (p.resolution config).compiler.Exact := Compiler.exact_resolve hp _ _ _
  refine List.forall₂_iff_get.mpr ⟨haccounts.length_eq, fun i hi hi' g hg hread ↦ ?_⟩
  obtain ⟨-, hcomplaint⟩ := haccounts.get hi hi'
  obtain ⟨n, hn, hused⟩ := hanswered.get hi hi'
  have hshort := Compiler.error_or_dismisses_of_not_mem_used (g := g)
    (c := (p.resolution config).compiler.later n) hself hexact hn fun hmem ↦ hunused (hused hmem)
  simp only [Compiler.later, hprogram, hpolicy] at hshort
  exact (hshort hg hread).imp_left fun herror ↦ herror.imp fun message heq ↦ ⟨heq, hcomplaint message heq⟩

/-- A configured parameter that no query reads is reported as unused. -/
theorem paramUnused_of_not_reads (hp : p.Closed) (h : (p.run config store).result = .ok report)
    (hname : name ∈ config.params.map Prod.fst)
    (hunread : ∀ q ∈ p.queries, ∀ g ∈ config.bodyPolicy.select q.goals,
      ¬ p.Reads config.bodyPolicy g (.param name)) :
    .paramUnused name ∈ (p.run config store).log := by
  refine (paramUnused_mem_log_iff hp h).mpr ⟨hname, fun hused ↦ ?_⟩
  obtain ⟨hprogram, -, hpolicy⟩ := (assembled_resolution hp config).task
  obtain ⟨q, hq, g, hg, hread⟩ := Compiler.reads_of_mem_used_answerAll
    (c := (p.resolution config).compiler) (Compiler.selfContained_resolve hp _ _ _)
    (Compiler.exact_resolve hp _ _ _) 0 hused
  rw [hprogram, hpolicy] at hread
  rw [hpolicy] at hg
  exact hunread q hq g hg hread

end Program

namespace Session

variable {s : Session} {source : String} {report : Report}

/-- **What the warning about unused parameters says.** Take any source whose run succeeds, on any store
and with any configuration. A parameter that the run reports as unused is configured, and each query with
a goal that reads it is cut short: answered by a complaint, or dismissed by its constants. The other way
round, a configured parameter that no goal of a query reads is reported. -/
theorem paramUnused_sound (h : (s.run source).result = .ok report) (name : String) :
    ∃ parsed, Program.parse source = .ok parsed ∧
      (.paramUnused name ∈ (s.run source).log → name ∈ s.config.params.map Prod.fst ∧
        List.Forall₂ (fun q outcome ↦ ∀ g ∈ s.config.bodyPolicy.select q.goals,
            parsed.program.Reads s.config.bodyPolicy g (.param name) →
              parsed.program.CutShort s.config q outcome.answer)
          parsed.program.queries report.queries) ∧
      (name ∈ s.config.params.map Prod.fst →
        (∀ q ∈ parsed.program.queries, ∀ g ∈ s.config.bodyPolicy.select q.goals,
          ¬ parsed.program.Reads s.config.bodyPolicy g (.param name)) →
        .paramUnused name ∈ (s.run source).log) := by
  obtain ⟨e, -, hrun⟩ | ⟨parsed, e, -, -, hrun⟩ | ⟨parsed, hparse, -, hrun⟩ := s.run_cases source
  · rw [hrun] at h
    cases h
  · rw [hrun] at h
    cases h
  · have hp := (Program.collected_of_parse hparse).closed
    have hlog : .paramUnused name ∈ (s.run source).log ↔
        .paramUnused name ∈ (parsed.program.run s.config s.store).log := by
      simp [hrun, Parsed.log]
    rw [hrun] at h
    refine ⟨parsed, hparse, fun hname ↦ ?_, fun hname hunread ↦ ?_⟩
    · rw [hlog] at hname
      exact ⟨((Program.paramUnused_mem_log_iff hp h).mp hname).1,
        Program.cutShort_of_paramUnused hp h hname⟩
    · rw [hlog]
      exact Program.paramUnused_of_not_reads hp h hname hunread

/-- A rule that ignores an argument and one that asks for two equal ones, and queries that name the
parameter `y`: one of an argument that is ignored, one behind a parameter without a value, and one with
different constants for the two equal arguments. -/
def sparedSource : String :=
  "p(a, b). r(X, Y) :- p(X, b). s(X, X, Y) :- p(X, Y). ?- r(a, :y). ?- p(:x, :y). ?- s(a, b, :y)."

/-- What a run of `sparedSource` reports. -/
def sparedReport : Report where
  symbols := 3
  facts := 1
  resolution := ⟨1, [⟨"r/2", .compiled 1⟩, ⟨"s/3", .compiled 1⟩]⟩
  queries :=
    [⟨"r(a, :y)", none, .yes⟩,
      ⟨"p(:x, :y)", none, .error "Required parameter :x missing at execution"⟩,
      ⟨"s(a, b, :y)", none, .no⟩]

/-- The parameter `y` is reported although all three queries name it, and `z`, which none names, too. -/
theorem paramUnused_sound_spared :
    (run { config := { params := [("y", "b"), ("z", "b")] } } sparedSource).result = .ok sparedReport ∧
      .paramUnused "y" ∈ (run { config := { params := [("y", "b"), ("z", "b")] } } sparedSource).log ∧
      .paramUnused "z" ∈ (run { config := { params := [("y", "b"), ("z", "b")] } } sparedSource).log ∧
      ∃ parsed, Program.parse sparedSource = .ok parsed ∧
        List.Forall₂ (fun q outcome ↦ ∀ g ∈ q.goals, parsed.program.Reads .joinAll g (.param "y") →
            parsed.program.CutShort { params := [("y", "b"), ("z", "b")] } q outcome.answer)
          parsed.program.queries sparedReport.queries := by
  have hrun : (run { config := { params := [("y", "b"), ("z", "b")] } } sparedSource).result =
      .ok sparedReport := by decide +kernel
  have hy : .paramUnused "y" ∈
      (run { config := { params := [("y", "b"), ("z", "b")] } } sparedSource).log := by decide +kernel
  have hunnamed : (Program.parse sparedSource).toOption.all (fun parsed ↦
      decide (∀ q ∈ parsed.program.queries, ∀ g ∈ q.goals, .param "z" ∉ g.args)) = true := by
    decide +kernel
  obtain ⟨parsed, hparse, hreported, -⟩ := paramUnused_sound hrun "y"
  obtain ⟨_, hparse', -, hcomplete⟩ := paramUnused_sound hrun "z"
  rw [hparse'] at hunnamed
  refine ⟨hrun, hy, hcomplete (by decide) fun q hq g hg hread ↦ ?_, parsed, hparse, (hreported hy).2⟩
  exact of_decide_eq_true hunnamed q hq g hg hread.mem_args

/-- The value of `y` is never asked for, because that of `x` is asked for first. -/
theorem paramUnused_though_named :
    (run { config := { params := [("y", "b")] } } "p(a, b). ?- p(:x, :y).").result =
        .ok ⟨3, 1, {}, [⟨"p(:x, :y)", none, .error "Required parameter :x missing at execution"⟩]⟩ ∧
      .paramUnused "y" ∈ (run { config := { params := [("y", "b")] } } "p(a, b). ?- p(:x, :y).").log ∧
      ∃ parsed, Program.parse "p(a, b). ?- p(:x, :y)." = .ok parsed ∧
        ∃ q ∈ parsed.program.queries, ∃ g ∈ BodyPolicy.joinAll.select q.goals, .param "y" ∈ g.args :=
  ⟨by decide +kernel, by decide +kernel, _, rfl, _, .head _, _, .head _, by decide⟩

end Session

end HornQuery
