import Mathlib
import HornQuery.Resolution

/-!
# What a successful compilation did

Compiling goals runs through a few functions that may each fail. The lemmas here say once, for each of
them, what a success consists of, so that later arguments about the compiled scan never open the
functions themselves. `Compiler.resolve_induction` does the same for resolution as a whole: whatever
compiling a rule and recording a failure preserve, resolution preserves.
-/

namespace HornQuery

/-- An entry that is found is present. -/
theorem mem_of_lookup_eq_some {α β : Type} [BEq α] [LawfulBEq α] {entries : List (α × β)} {a : α}
    {b : β} (h : entries.lookup a = some b) : (a, b) ∈ entries := by
  obtain ⟨before, after, rfl, -⟩ := List.lookup_eq_some_iff.mp h
  simp

/-- An entry at the end counts only if there is no earlier one. -/
theorem lookup_append_singleton {α β : Type} [DecidableEq α] (entries : List (α × β)) (a k : α)
    (b : β) : (entries ++ [(k, b)]).lookup a =
      (entries.lookup a).or (if a = k then some b else none) := by
  rw [List.lookup_append, List.lookup_cons]
  by_cases h : a = k
  · simp [h]
  · have hbeq : (a == k) = false := beq_eq_false_iff_ne.mpr h
    simp [h, hbeq]

/-- For a new key, an entry at the end adds exactly one result. -/
theorem lookup_append_singleton_eq_some {α β : Type} [DecidableEq α] {entries : List (α × β)} {a k : α}
    {b c : β} (hk : entries.lookup k = none) :
    (entries ++ [(k, b)]).lookup a = some c ↔ entries.lookup a = some c ∨ a = k ∧ b = c := by
  rw [lookup_append_singleton]
  by_cases h : a = k
  · subst h
    simp [hk]
  · simp [h]

/-- A chain of two steps succeeds if both do. -/
theorem except_bind_eq_ok {ε α β : Type} {x : Except ε α} {f : α → Except ε β} {b : β}
    (h : (x >>= f) = .ok b) : ∃ a, x = .ok a ∧ f a = .ok b := by
  cases x with
  | error e => cases h
  | ok a => exact ⟨a, rfl, h⟩

theorem except_map_eq_ok {ε α β : Type} {f : α → β} {x : Except ε α} {b : β}
    (h : x.map f = .ok b) : ∃ a, x = .ok a ∧ f a = b := by
  cases x with
  | error e => cases h
  | ok a => exact ⟨a, rfl, Except.ok.inj h⟩

theorem except_map_eq_error {ε α β : Type} {f : α → β} {x : Except ε α} {e : ε}
    (h : x.map f = .error e) : x = .error e := by
  cases x with
  | error e' => exact congrArg Except.error (Except.error.inj h)
  | ok a => cases h

theorem except_toOption_eq_some {ε α : Type} {x : Except ε α} {a : α} (h : x.toOption = some a) :
    x = .ok a := by
  cases x with
  | error e => cases h
  | ok b => exact congrArg Except.ok (Option.some.inj h)

namespace Compiler

variable {c : Compiler} {rule : Option Rule} {s s' : Scope}

/-! ### Arguments -/

/-- An argument is a head variable, a variable with a source, a parameter or a constant. -/
theorem argument_cases {t : Term} {value : Expr} (h : c.argument rule s t = .ok (value, s')) :
    (∃ r name, rule = some r ∧ t = .var name ∧ r.isParam name = true ∧
        value = .param (.rule r.key name) ∧ s' = s) ∨
      (∃ name, t = .var name ∧ (∀ r, rule = some r → r.isParam name = false) ∧
        s.idOf name = (value, s')) ∨
      (∃ name, t = .param name ∧ value = .param (.external name) ∧ s' = s) ∨
      ∃ text id, t = .const text ∧ c.symbols.constant? text = some id ∧ value = .int id ∧ s' = s := by
  cases t with
  | var name =>
    cases hrule : rule.filter (·.isParam name) with
    | some r =>
      obtain ⟨rfl, hparam⟩ := Option.filter_eq_some_iff.mp hrule
      simp only [argument, hrule, Except.ok.injEq, Prod.mk.injEq] at h
      exact Or.inl ⟨r, name, rfl, rfl, hparam, h.1.symm, h.2.symm⟩
    | none =>
      simp only [argument, hrule, Except.ok.injEq] at h
      refine Or.inr (Or.inl ⟨name, rfl, ?_, h⟩)
      rintro r rfl
      simpa using hrule
  | param name =>
    simp only [argument, Except.ok.injEq, Prod.mk.injEq] at h
    exact Or.inr (Or.inr (Or.inl ⟨name, rfl, h.1.symm, h.2.symm⟩))
  | const text =>
    cases hid : c.symbols.constant? text with
    | none => simp [argument, literal, hid, Except.map] at h
    | some id =>
      simp only [argument, literal, hid, Except.map, Except.ok.injEq, Prod.mk.injEq] at h
      exact Or.inr (Or.inr (Or.inr ⟨text, id, rfl, hid, h.1.symm, h.2.symm⟩))

/-- A constant is written as its number, which it must have. -/
theorem literal_eq_ok {text : String} {e : Expr} (h : c.literal text = .ok e) :
    ∃ id, c.symbols.constant? text = some id ∧ e = .int id := by
  cases hid : c.symbols.constant? text with
  | none => simp [literal, hid] at h
  | some id =>
    simp only [literal, hid, Except.ok.injEq] at h
    exact ⟨id, rfl, h.symm⟩

/-! ### Goals -/

/-- Columns are matched from left to right, each by evaluating its argument first. -/
theorem matchColumns_cons {source : String} {position : Nat} {t : Term} {ts : List Term}
    (h : c.matchColumns rule source position (t :: ts) s = .ok s') :
    ∃ value s₁, c.argument rule s t = .ok (value, s₁) ∧
      c.matchColumns rule source (position + 1) ts
        (s₁.equate (.column source (Schema.argColumn position)) value) = .ok s' := by
  rw [matchColumns] at h
  cases harg : c.argument rule s t with
  | error e => simp [harg, bind, Except.bind] at h
  | ok found =>
    rw [harg] at h
    exact ⟨found.1, found.2, rfl, h⟩

/-- A goal on facts adds one table with the goal's symbol, and matches its columns. -/
theorem addFacts_eq_ok {g : Goal} (h : c.addFacts rule s g = .ok s') :
    ∃ id, c.symbols.get? g.symbol = some id ∧
      c.matchColumns rule (Scope.tableAlias s.number s.tables) 1 g.args
        ((s.addTable g.args.length).2.equate
          (.column (Scope.tableAlias s.number s.tables) Schema.functorColumn) (.int id)) = .ok s' := by
  cases hid : c.symbols.get? g.symbol with
  | none => simp [addFacts, hid] at h
  | some id =>
    rw [addFacts, hid] at h
    exact ⟨id, rfl, h⟩

/-- A pair of a head term and an argument is matched by evaluating the argument. A head variable is
bound by its first argument and has to agree with every later one; a constant has to agree; a
parameter in a head is passed over. -/
theorem matchHead_cons {key : Symbol} {head arg : Term} {rest : List (Term × Term)}
    {b b' : Bindings} (h : c.matchHead rule key ((head, arg) :: rest) b s = .ok (b', s')) :
    ∃ value s₁, c.argument rule s arg = .ok (value, s₁) ∧
      ((∃ name previous, head = .var name ∧ b.lookup (.rule key name) = some previous ∧
          c.matchHead rule key rest b (s₁.equate previous value) = .ok (b', s')) ∨
        (∃ name, head = .var name ∧ b.lookup (.rule key name) = none ∧
          c.matchHead rule key rest (b ++ [(.rule key name, value)]) s₁ = .ok (b', s')) ∨
        (∃ text id, head = .const text ∧ c.symbols.constant? text = some id ∧
          c.matchHead rule key rest b (s₁.equate value (.int id)) = .ok (b', s')) ∨
        (∃ name, head = .param name ∧ c.matchHead rule key rest b s₁ = .ok (b', s'))) := by
  rw [matchHead] at h
  cases harg : c.argument rule s arg with
  | error e => simp [harg, bind, Except.bind] at h
  | ok found =>
    refine ⟨found.1, found.2, rfl, ?_⟩
    rw [harg] at h
    cases head with
    | var name =>
      cases hb : b.lookup (.rule key name) with
      | some previous =>
        simp only [bind, Except.bind, hb] at h
        exact Or.inl ⟨name, previous, rfl, hb, h⟩
      | none =>
        simp only [bind, Except.bind, hb] at h
        exact Or.inr (Or.inl ⟨name, rfl, hb, h⟩)
    | const text =>
      cases hlit : c.literal text with
      | error e => simp [hlit, bind, Except.bind] at h
      | ok expected =>
        obtain ⟨id, hid, rfl⟩ := literal_eq_ok hlit
        simp only [bind, Except.bind, hlit] at h
        exact Or.inr (Or.inr (Or.inl ⟨text, id, rfl, hid, h⟩))
    | param name =>
      simp only [bind, Except.bind] at h
      exact Or.inr (Or.inr (Or.inr ⟨name, rfl, h⟩))

/-- A goal on a rule adds one condition: the scan of the rule, with what the arguments bind. -/
theorem addRule_eq_ok {g : Goal} {fragment : Fragment} (h : c.addRule rule s g fragment = .ok s') :
    ∃ callee b s₁, c.program.rule? g.symbol = some callee ∧
      c.matchHead rule g.symbol (callee.head.zip g.args) [] s = .ok (b, s₁) ∧
      s' = s₁.require (.exists (fragment.scan.substitute b)) := by
  cases hcallee : c.program.rule? g.symbol with
  | none => simp [addRule, hcallee] at h
  | some callee =>
    rw [addRule, hcallee] at h
    cases hhead : c.matchHead rule g.symbol (callee.head.zip g.args) [] s with
    | error e => simp [hhead, bind, Except.bind] at h
    | ok found =>
      simp only [hhead, bind, Except.bind, pure, Except.pure, Except.ok.injEq] at h
      exact ⟨callee, found.1, found.2, rfl, hhead, h.symm⟩

/-- A goal is added from the fragment of a compiled rule or, where no rule has its key, from facts. -/
theorem addGoal_cases {g : Goal} (h : c.addGoal rule s g = .ok s') :
    (∃ fragment, c.fragment? g.symbol = some fragment ∧ c.addRule rule s g fragment = .ok s') ∨
      (c.fragment? g.symbol = none ∧ c.failures.lookup g.symbol = none ∧
        c.program.rule? g.symbol = none ∧ c.program.hasFacts g.symbol = true ∧
        c.addFacts rule s g = .ok s') := by
  rw [addGoal] at h
  cases hfragment : c.fragment? g.symbol with
  | some fragment =>
    rw [hfragment] at h
    exact Or.inl ⟨fragment, rfl, h⟩
  | none =>
    rw [hfragment] at h
    cases hfailed : c.failures.lookup g.symbol with
    | some reason => simp [hfailed] at h
    | none =>
      simp only [hfailed] at h
      split at h
      · cases h
      · rename_i hrule
        split at h
        · rename_i hfacts
          exact Or.inr ⟨rfl, rfl, by simpa using hrule, hfacts, h⟩
        · split at h <;> cases h

/-- Goals are added from left to right. -/
theorem addGoals_cons {g : Goal} {gs : List Goal} (h : c.addGoals rule (g :: gs) s = .ok s') :
    ∃ s₁, c.addGoal rule s g = .ok s₁ ∧ c.addGoals rule gs s₁ = .ok s' := by
  rw [addGoals] at h
  cases hgoal : c.addGoal rule s g with
  | error e => simp [hgoal, bind, Except.bind] at h
  | ok s₁ =>
    rw [hgoal] at h
    exact ⟨s₁, rfl, h⟩

/-! ### Rules, patterns and queries -/

/-- The scope that is opened has the next number and is empty. -/
theorem openScope_fst (c : Compiler) : c.openScope.1 = ⟨c.scopes + 1, 0, [], [], []⟩ := rfl

/-- The variables of a rule's selected goals that its head does not supply. -/
def ruleNames (c : Compiler) (r : Rule) : List String :=
  (Goal.varsOf (c.policy.select r.body)).filter fun name ↦ !r.isParam name

/-- Compiling goals opens a scope and changes nothing else, even if it fails. -/
theorem compileGoals_fst (c : Compiler) (rule : Option Rule) (goals : List Goal)
    (names : List String) : (c.compileGoals rule goals names).1 = c.openScope.2 := rfl

/-- Goals that compile are the goals added to an empty scope, which is then finished. -/
theorem compileGoals_eq_ok {goals : List Goal} {names : List String} {fragment : Fragment}
    (h : (c.compileGoals rule goals names).2 = .ok fragment) :
    ∃ s, c.openScope.2.addGoals rule goals c.openScope.1 = .ok s ∧ fragment = s.finish names := by
  simp only [compileGoals] at h
  cases hgoals : c.openScope.2.addGoals rule goals c.openScope.1 with
  | error e => simp [hgoals, Except.map] at h
  | ok s =>
    simp only [hgoals, Except.map, Except.ok.injEq] at h
    exact ⟨s, rfl, h.symm⟩

/-- Compiling a rule returns the fragment it has, adds one, or fails. -/
theorem compileRule_cases (c : Compiler) (r : Rule) :
    (∃ fragment, c.fragment? r.key = some fragment ∧ c.compileRule r = (c, .ok fragment)) ∨
      (c.fragment? r.key = none ∧ ∃ s,
        c.openScope.2.addGoals (some r) (c.policy.select r.body) c.openScope.1 = .ok s ∧
        c.compileRule r =
          ({ c.openScope.2 with
              fragments := c.fragments ++ [(r.key, s.finish (c.ruleNames r))] },
            .ok (s.finish (c.ruleNames r)))) ∨
      (c.fragment? r.key = none ∧ ∃ e,
        c.openScope.2.addGoals (some r) (c.policy.select r.body) c.openScope.1 = .error e ∧
        c.compileRule r = (c.openScope.2, .error e)) := by
  cases hfragment : c.fragment? r.key with
  | some fragment => exact Or.inl ⟨fragment, rfl, by simp [compileRule, hfragment]⟩
  | none =>
    cases hgoals : c.openScope.2.addGoals (some r) (c.policy.select r.body) c.openScope.1 with
    | ok s =>
      refine Or.inr (Or.inl ⟨rfl, s, rfl, ?_⟩)
      simp only [compileRule, compileGoals, hfragment, hgoals, Except.map, ruleNames]
      rfl
    | error e =>
      refine Or.inr (Or.inr ⟨rfl, e, rfl, ?_⟩)
      simp [compileRule, compileGoals, hfragment, hgoals, Except.map]

/-- A pattern is compiled like a goal, or refused before a scope is opened. -/
theorem compilePattern_cases (c : Compiler) (g : Goal) (arity : Nat) (names : List String) :
    c.compilePattern g arity names = c.compileGoals none [g] names ∨
      ∃ e, c.compilePattern g arity names = (c, .error e) := by
  unfold compilePattern
  split
  · exact Or.inl rfl
  · exact Or.inr ⟨_, rfl⟩

/-- A query is answered from the cache, or its goals are compiled in a scope of their own. -/
theorem compileQuery_cases (c : Compiler) (q : Query) :
    (∃ compiled, c.reuse? (c.policy.select q.goals) = some compiled ∧
        c.compileQuery q = (c, .ok compiled)) ∨
      (c.reuse? (c.policy.select q.goals) = none ∧
        c.compileQuery q =
          (c.openScope.2,
            (c.compileGoals none (c.policy.select q.goals)
              (Goal.varsOf (c.policy.select q.goals))).2.map fun fragment ↦ { fragment })) := by
  cases hreuse : c.reuse? (c.policy.select q.goals) with
  | some compiled => exact Or.inl ⟨compiled, rfl, by simp [compileQuery, hreuse]⟩
  | none => exact Or.inr ⟨rfl, by simp [compileQuery, hreuse, compileGoals_fst]⟩

/-- A query from the cache is the rule's fragment with what the goal's arguments supply. -/
theorem reuse_eq_some {g : Goal} {compiled : CompiledQuery} (h : c.reuse g = some compiled) :
    ∃ r m fragment, c.program.rule? g.symbol = some r ∧
      (r.head.zip g.args).foldlM (HeadMatch.step? g.symbol) {} = some m ∧
      c.fragment? g.symbol = some fragment ∧
      compiled = ⟨⟨fragment.scan.substitute m.external, .existence⟩, m.bindings, m.unsatisfiable⟩ := by
  unfold reuse at h
  obtain ⟨r, hr, h⟩ := Option.bind_eq_some_iff.mp h
  obtain ⟨m, hm, h⟩ := Option.bind_eq_some_iff.mp h
  obtain ⟨fragment, hfragment, h⟩ := Option.bind_eq_some_iff.mp h
  exact ⟨r, m, fragment, hr, hm, hfragment, (Option.some.inj h).symm⟩

/-- A pair is taken by binding a head variable to a constant or to a parameter, or by comparing two
constants. -/
theorem HeadMatch.step?_cases {key : Symbol} {m m' : HeadMatch} {pair : Term × Term}
    (h : HeadMatch.step? key m pair = some m') :
    (∃ x text previous, pair = (.var x, .const text) ∧ m.external.lookup (.rule key x) = none ∧
        m.bindings.lookup (.rule key x) = some previous ∧
        m' = { m with unsatisfiable := m.unsatisfiable || previous ≠ text }) ∨
      (∃ x text, pair = (.var x, .const text) ∧ m.external.lookup (.rule key x) = none ∧
        m.bindings.lookup (.rule key x) = none ∧
        m' = { m with bindings := m.bindings ++ [(.rule key x, text)] }) ∨
      (∃ x outer, pair = (.var x, .param outer) ∧ m.bindings.lookup (.rule key x) = none ∧
        m.external.lookup (.rule key x) = none ∧
        m' = { m with external := m.external ++ [(.rule key x, .param (.external outer))] }) ∨
      ∃ expected text, pair = (.const expected, .const text) ∧
        m' = { m with unsatisfiable := m.unsatisfiable || expected ≠ text } := by
  unfold HeadMatch.step? at h
  split at h
  · -- A variable meets a constant. If it met a parameter before, the rule is not used at all.
    rename_i x text
    split at h
    · cases h
    · rename_i hexternal
      rw [Bool.not_eq_true, Option.isSome_eq_false_iff, Option.isNone_iff_eq_none] at hexternal
      split at h <;> rename_i hbound <;> obtain rfl := Option.some.inj h
      · exact Or.inl ⟨x, text, _, rfl, hexternal, hbound, rfl⟩
      · exact Or.inr (Or.inl ⟨x, text, rfl, hexternal, hbound, rfl⟩)
  · -- A variable meets a parameter, and must not have met anything before.
    rename_i x outer
    split at h
    · cases h
    · rename_i hfree
      rw [Bool.not_eq_true, Bool.or_eq_false_iff, Option.isSome_eq_false_iff,
        Option.isNone_iff_eq_none, Option.isSome_eq_false_iff, Option.isNone_iff_eq_none] at hfree
      obtain ⟨hbound, hexternal⟩ := hfree
      obtain rfl := Option.some.inj h
      exact Or.inr (Or.inr (Or.inl ⟨x, outer, rfl, hbound, hexternal, rfl⟩))
  · rename_i expected text
    obtain rfl := Option.some.inj h
    exact Or.inr (Or.inr (Or.inr ⟨expected, text, rfl, rfl⟩))
  · cases h

/-- Only a single goal without variables on a compiled rule is answered from the cache. -/
theorem reuse?_eq_some {goals : List Goal} {compiled : CompiledQuery}
    (h : c.reuse? goals = some compiled) :
    ∃ g, goals = [g] ∧ (∀ t ∈ g.args, t.isVar = false) ∧ c.isCompiled g.symbol = true ∧
      c.reuse g = some compiled := by
  unfold reuse? at h
  split at h
  · rename_i g
    split at h
    · rename_i hclosed
      simp only [Bool.and_eq_true, List.all_eq_true, Bool.not_eq_true'] at hclosed
      exact ⟨g, rfl, hclosed.1, hclosed.2, h⟩
    · cases h
  · cases h

/-! ### What stays as it is -/

/-- The compilers work on the same program, symbols and policy. -/
structure SameTask (c c' : Compiler) : Prop where
  program : c'.program = c.program
  symbols : c'.symbols = c.symbols
  policy : c'.policy = c.policy

theorem SameTask.refl (c : Compiler) : SameTask c c := ⟨rfl, rfl, rfl⟩

theorem SameTask.trans {c₁ c₂ c₃ : Compiler} (h : SameTask c₁ c₂) (h' : SameTask c₂ c₃) :
    SameTask c₁ c₃ :=
  ⟨h'.program.trans h.program, h'.symbols.trans h.symbols, h'.policy.trans h.policy⟩

/-- The compiler works on the program with the program's own numbers, under the policy. -/
structure WorksOn (c : Compiler) (p : Program) (policy : BodyPolicy) : Prop where
  program : c.program = p
  symbols : c.symbols = p.symbolTable
  policy : c.policy = policy

/-- A compiler for a program works on that program from the start. -/
theorem worksOn_compiler (p : Program) (policy : BodyPolicy) : (p.compiler policy).WorksOn p policy :=
  ⟨rfl, rfl, rfl⟩

/-- Nothing that a compiler does changes what it works on. -/
theorem WorksOn.of_sameTask {c c' : Compiler} {p : Program} {policy : BodyPolicy}
    (hc : c.WorksOn p policy) (h : SameTask c c') : c'.WorksOn p policy :=
  ⟨h.program.trans hc.program, h.symbols.trans hc.symbols, h.policy.trans hc.policy⟩

/-- Compiling a rule may change the cache and the scopes, but not the task. -/
theorem sameTask_compileRule (c : Compiler) (r : Rule) : SameTask c (c.compileRule r).1 := by
  obtain ⟨_, -, h⟩ | ⟨-, _, -, h⟩ | ⟨-, _, -, h⟩ := c.compileRule_cases r <;> rw [h] <;>
    exact ⟨rfl, rfl, rfl⟩

theorem sameTask_markFailed (c : Compiler) (key : Symbol) (reason : String) :
    SameTask c (c.markFailed key reason) := ⟨rfl, rfl, rfl⟩

end Compiler

/-! ### Resolution as a whole -/

namespace Resolution

variable {P : Compiler → Prop}

/-- One attempt compiles a rule, or records a failure, or both, or does nothing. -/
theorem attempt_induction (hrule : ∀ c r, r ∈ c.program.rules → P c → P (c.compileRule r).1)
    (hfail : ∀ c key reason, P c → P (c.markFailed key reason)) {number : Nat}
    {before : RuleStates} {p : Pass} {r : Rule} (hr : r ∈ p.compiler.program.rules)
    (h : P p.compiler) : P (attempt number before p r).compiler := by
  unfold attempt
  split
  · split
    · exact hfail _ _ _ h
    · exact h
    · have hstep := hrule _ _ hr h
      split <;> rename_i heq <;> rw [heq] at hstep
      · exact hstep
      · exact hfail _ _ _ hstep
  · exact h

/-- An attempt at a rule leaves the task alone, whatever comes of it. -/
theorem sameTask_attempt (number : Nat) (before : RuleStates) (p : Pass) (r : Rule) :
    Compiler.SameTask p.compiler (attempt number before p r).compiler := by
  unfold attempt
  split
  · split
    · exact Compiler.sameTask_markFailed _ _ _
    · exact .refl _
    · have hstep := p.compiler.sameTask_compileRule r
      split <;> rename_i heq <;> rw [heq] at hstep
      · exact hstep
      · exact hstep.trans (Compiler.sameTask_markFailed _ _ _)
  · exact .refl _

/-- What compiling and recording a failure preserve, a pass over rules preserves. -/
theorem foldl_attempt_induction
    (hrule : ∀ c r, r ∈ c.program.rules → P c → P (c.compileRule r).1)
    (hfail : ∀ c key reason, P c → P (c.markFailed key reason)) {number : Nat}
    {before : RuleStates} {rules : List Rule} {p : Pass}
    (hrules : ∀ r ∈ rules, r ∈ p.compiler.program.rules) (h : P p.compiler) :
    P (rules.foldl (attempt number before) p).compiler := by
  induction rules generalizing p with
  | nil => exact h
  | cons r rules ih =>
    refine ih (fun r' hr' ↦ ?_)
      (attempt_induction hrule hfail (hrules r List.mem_cons_self) h)
    rw [(sameTask_attempt number before p r).program]
    exact hrules r' (List.mem_cons_of_mem _ hr')

/-- And so does a run of passes. -/
theorem run_induction (hrule : ∀ c r, r ∈ c.program.rules → P c → P (c.compileRule r).1)
    (hfail : ∀ c key reason, P c → P (c.markFailed key reason)) (left : Nat) {p : Passes}
    (h : P p.compiler) : P (run left p).compiler := by
  induction left generalizing p with
  | zero => exact h
  | succ left ih =>
    have hpass : P (pass (p.count + 1) p.compiler p.states).compiler :=
      foldl_attempt_induction hrule hfail (p := { compiler := p.compiler, states := p.states })
        (fun _ hr ↦ hr) h
    rw [run]
    split
    · simp only
      split
      · exact ih hpass
      · exact hpass
    · exact h

end Resolution

namespace Compiler

/-- What compiling a rule of the program and recording a failure preserve, resolution preserves. -/
theorem resolve_induction {P : Compiler → Prop}
    (hrule : ∀ c r, r ∈ c.program.rules → P c → P (c.compileRule r).1)
    (hfail : ∀ c key reason, P c → P (c.markFailed key reason)) {c : Compiler} (h : P c)
    (maxPasses : Nat) : P (c.resolve maxPasses).compiler := by
  have hrun := Resolution.run_induction hrule hfail maxPasses
    (p := ⟨0, c, c.program.rules.map fun r ↦ (r.key, RuleState.pending), []⟩) h
  unfold resolve
  simp only
  split
  · exact hrun
  · exact hrun

/-- Resolution leaves the task alone. -/
theorem sameTask_resolve (c : Compiler) (maxPasses : Nat) :
    SameTask c (c.resolve maxPasses).compiler :=
  resolve_induction (fun c' r _ h ↦ h.trans (c'.sameTask_compileRule r))
    (fun c' key reason h ↦ h.trans (c'.sameTask_markFailed key reason)) (.refl c) maxPasses

/-! ### Histories -/

/-- Something a compiler can be asked to do. -/
inductive Operation where
  | resolve (maxPasses : Nat)
  | compileRule (r : Rule)
  | compileQuery (q : Query)
  | compilePattern (g : Goal) (arity : Nat) (names : List String)
  | markFailed (key : Symbol) (reason : String)

/-- The compiler afterwards, and the fragment returned if there is one. -/
def perform (c : Compiler) : Operation → Compiler × Option Fragment
  | .resolve maxPasses => ((c.resolve maxPasses).compiler, none)
  | .compileRule r => ((c.compileRule r).1, (c.compileRule r).2.toOption)
  | .compileQuery q => ((c.compileQuery q).1, (c.compileQuery q).2.toOption.map (·.fragment))
  | .compilePattern g arity names =>
    ((c.compilePattern g arity names).1, (c.compilePattern g arity names).2.toOption)
  | .markFailed key reason => (c.markFailed key reason, none)

/-- The compiler after a history, and every fragment returned on the way. -/
def performAll (c : Compiler) : List Operation → Compiler × List Fragment
  | [] => (c, [])
  | op :: ops =>
    let first := c.perform op
    let rest := first.1.performAll ops
    (rest.1, first.2.toList ++ rest.2)

/-- A rule that is to be compiled is one of the program's. -/
def Operation.Own (p : Program) : Operation → Prop
  | .compileRule r => r ∈ p.rules
  | _ => True

/-- A query opens at most one scope. -/
theorem compileQuery_fst (c : Compiler) (q : Query) :
    (c.compileQuery q).1 = c ∨ (c.compileQuery q).1 = c.openScope.2 := by
  obtain ⟨_, -, h⟩ | ⟨-, h⟩ := c.compileQuery_cases q <;> rw [h]
  · exact Or.inl rfl
  · exact Or.inr rfl

/-- The operations that `A` admits keep `P`, and what they return under it has `R`. A query and a
pattern only open a scope; what they return is compiled from goals or made from the cache. -/
structure Invariant (A : Operation → Prop) (P : Compiler → Prop) (R : Fragment → Prop) : Prop where
  resolve : ∀ c maxPasses, P c → P (c.resolve maxPasses).compiler
  compileRule : ∀ c r, A (.compileRule r) → P c → P (c.compileRule r).1
  markFailed : ∀ c key reason, A (.markFailed key reason) → P c → P (c.markFailed key reason)
  openScope : ∀ c, P c → P c.openScope.2
  rule : ∀ c r f, A (.compileRule r) → P c → (c.compileRule r).2 = .ok f → R f := by
    intros; trivial
  goals : ∀ c goals names f, P c → (c.compileGoals none goals names).2 = .ok f → R f := by
    intros; trivial
  reuse : ∀ c g compiled, P c → c.reuse g = some compiled → R compiled.fragment := by
    intros; trivial

namespace Invariant

variable {A : Operation → Prop} {P : Compiler → Prop} {R : Fragment → Prop} {c : Compiler}

/-- One operation keeps the invariant, and what it returns has the property. -/
theorem perform (hinv : Invariant A P R) (op : Operation) (hop : A op) (hc : P c) :
    P (c.perform op).1 ∧ ∀ f ∈ (c.perform op).2, R f := by
  cases op with
  | resolve maxPasses => exact ⟨hinv.resolve c maxPasses hc, fun f hf ↦ by cases hf⟩
  | compileRule r =>
    exact ⟨hinv.compileRule c r hop hc, fun f hf ↦ hinv.rule c r f hop hc (except_toOption_eq_some hf)⟩
  | compileQuery q =>
    refine ⟨?_, fun f hf ↦ ?_⟩
    · show P (c.compileQuery q).1
      obtain heq | heq := c.compileQuery_fst q <;> rw [heq]
      · exact hc
      · exact hinv.openScope c hc
    · obtain ⟨compiled, hcompiled, rfl⟩ := Option.map_eq_some_iff.mp hf
      have hok := except_toOption_eq_some hcompiled
      obtain ⟨cached, hreuse, heq⟩ | ⟨-, heq⟩ := c.compileQuery_cases q <;> rw [heq] at hok
      · obtain rfl := Except.ok.inj hok
        obtain ⟨g, -, -, -, hg⟩ := reuse?_eq_some hreuse
        exact hinv.reuse c g _ hc hg
      · obtain ⟨fragment, hfragment, rfl⟩ := except_map_eq_ok hok
        exact hinv.goals c _ _ fragment hc hfragment
  | compilePattern g arity names =>
    show P (c.compilePattern g arity names).1 ∧
      ∀ f ∈ (c.compilePattern g arity names).2.toOption, R f
    obtain heq | ⟨e, heq⟩ := c.compilePattern_cases g arity names <;> rw [heq]
    · refine ⟨?_, fun f hf ↦ hinv.goals c _ _ f hc (except_toOption_eq_some hf)⟩
      rw [compileGoals_fst]
      exact hinv.openScope c hc
    · exact ⟨hc, fun f hf ↦ by cases hf⟩
  | markFailed key reason => exact ⟨hinv.markFailed c key reason hop hc, fun f hf ↦ by cases hf⟩

/-- Along a history the invariant is kept, and all that is returned has the property. -/
theorem performAll (hinv : Invariant A P R) {ops : List Operation} (hops : ∀ op ∈ ops, A op)
    (hc : P c) : P (c.performAll ops).1 ∧ ∀ f ∈ (c.performAll ops).2, R f := by
  induction ops generalizing c with
  | nil => exact ⟨hc, fun f hf ↦ absurd hf List.not_mem_nil⟩
  | cons op ops ih =>
    obtain ⟨hop, hops⟩ := List.forall_mem_cons.mp hops
    obtain ⟨hfirst, hreturned⟩ := hinv.perform op hop hc
    obtain ⟨hrest, hlater⟩ := ih hops hfirst
    refine ⟨hrest, fun f hf ↦ ?_⟩
    rcases List.mem_append.mp hf with hf | hf
    · exact hreturned f (Option.mem_toList.mp hf)
    · exact hlater f hf

end Invariant

/-- What compiling a rule of the program, recording a failure and opening a scope preserve, a history
over the program's own rules preserves. -/
theorem performAll_induction {P : Compiler → Prop}
    (hrule : ∀ c r, r ∈ c.program.rules → P c → P (c.compileRule r).1)
    (hfail : ∀ c key reason, P c → P (c.markFailed key reason)) (hopen : ∀ c, P c → P c.openScope.2)
    {c : Compiler} {ops : List Operation} (hops : ∀ op ∈ ops, op.Own c.program) (h : P c) :
    P (c.performAll ops).1 := by
  -- The program has to stay the same, or its own rules would not be the same ones.
  have hinv : Invariant (Operation.Own c.program) (fun d ↦ SameTask c d ∧ P d) fun _ ↦ True :=
    { resolve := fun d maxPasses hd ↦
        ⟨hd.1.trans (d.sameTask_resolve maxPasses), resolve_induction hrule hfail hd.2 maxPasses⟩
      compileRule := fun d r hr hd ↦
        ⟨hd.1.trans (d.sameTask_compileRule r), hrule d r (hd.1.program ▸ hr) hd.2⟩
      markFailed := fun d key reason _ hd ↦
        ⟨hd.1.trans (d.sameTask_markFailed key reason), hfail d key reason hd.2⟩
      openScope := fun d hd ↦ ⟨hd.1.trans ⟨rfl, rfl, rfl⟩, hopen d hd.2⟩ }
  exact (hinv.performAll hops ⟨.refl c, h⟩).1.2

/-- A history leaves the task alone. -/
theorem sameTask_performAll {c : Compiler} {ops : List Operation}
    (hops : ∀ op ∈ ops, op.Own c.program) : SameTask c (c.performAll ops).1 :=
  performAll_induction (fun c' r _ h ↦ h.trans (c'.sameTask_compileRule r))
    (fun c' key reason h ↦ h.trans (c'.sameTask_markFailed key reason))
    (fun _ h ↦ h.trans ⟨rfl, rfl, rfl⟩) hops (.refl c)

end Compiler

end HornQuery
