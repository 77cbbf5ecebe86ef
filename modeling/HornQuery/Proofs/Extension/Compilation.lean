import Mathlib
import HornQuery.Proofs.Failures
import HornQuery.Proofs.Interning

/-!
# Compiling for a wider program

A program becomes wider when symbols are added to it behind those that it has, while its facts and rules
stay (`Program.Widened`). This is what happens if more queries are asked: they bring new constants along
and nothing else.

The symbols that were there keep their numbers. So a compiler that is moved to the wider program
(`Compiler.onto`) goes on as it would have gone on before. It makes the same scans of goals that mention
old symbols only (`Compiler.addGoals_onto`, `Compiler.compileQuery_onto`), and it compiles the same rules
in the same passes (`Compiler.resolve_onto`).
-/

namespace HornQuery

/-- The second program has the facts and rules of the first, and may have more symbols behind its
own. -/
structure Program.Widened (p p' : Program) : Prop where
  symbols : p.symbols <+: p'.symbols
  facts : p'.facts = p.facts
  relations : p'.relations = p.relations
  rules : p'.rules = p.rules

namespace Program.Widened

variable {p p' : Program} (h : p.Widened p')

include h

/-- The further symbols are interned after the others. -/
theorem extends_symbolTable : p.symbolTable.Extends p'.symbolTable := by
  obtain ⟨added, hadded⟩ := h.symbols
  have happend : p'.symbolTable = added.foldl (fun t s ↦ (t.intern s).2) p.symbolTable := by
    rw [symbolTable, ← hadded]
    exact List.foldl_append
  rw [happend]
  exact p.symbolTable.extends_foldl_intern added

/-- A symbol keeps its number. -/
theorem get? {s : Symbol} (hs : s ∈ p.symbols) :
    p'.symbolTable.get? s = p.symbolTable.get? s := by
  obtain ⟨id, hid⟩ := SymbolTable.exists_get? (mem_symbolTable.mpr hs)
  rw [hid, h.extends_symbolTable.get? hid]

/-- A wider program has the same rules. -/
theorem rule? (key : Symbol) : p'.rule? key = p.rule? key := by
  rw [Program.rule?, Program.rule?, h.rules]

/-- A wider program has the same relations with facts. -/
theorem hasFacts (relation : Symbol) : p'.hasFacts relation = p.hasFacts relation := by
  rw [Program.hasFacts, Program.hasFacts, h.relations]

/-- So a name is defined with the same arities. -/
theorem definedArities (name : String) : p'.definedArities name = p.definedArities name := by
  rw [Program.definedArities, Program.definedArities, h.relations, h.rules]

end Program.Widened

namespace Compiler

variable {c : Compiler} {p' : Program} {rule : Option Rule}

/-- The compiler with another program. -/
def onto (c : Compiler) (p : Program) : Compiler := { c with program := p, symbols := p.symbolTable }

/-- The compiler works on a closed program, with the program's own numbers, and can be moved to the
wider program. -/
structure Embeds (c : Compiler) (p' : Program) : Prop where
  closed : c.program.Closed
  symbols : c.symbols = c.program.symbolTable
  widened : c.program.Widened p'

/-- Whether a compiler can be put onto a wider program depends on its task only. -/
theorem Embeds.of_sameTask {d : Compiler} (h : c.Embeds p') (hd : SameTask c d) : d.Embeds p' :=
  ⟨hd.program ▸ h.closed, by rw [hd.symbols, h.symbols, hd.program], hd.program ▸ h.widened⟩

/-- Symbols that the program has keep their numbers in the wider one. -/
theorem Embeds.get? (h : c.Embeds p') {s : Symbol} (hs : s ∈ c.program.symbols) :
    (c.onto p').symbols.get? s = c.symbols.get? s := by
  rw [h.symbols]
  exact h.widened.get? hs

/-! ### Goals -/

/-- Constants that the program has are written as the same numbers. -/
theorem literal_onto (h : c.Embeds p') {text : String} (htext : .constant text ∈ c.program.symbols) :
    (c.onto p').literal text = c.literal text := by
  rw [literal, literal, SymbolTable.constant?, SymbolTable.constant?, h.get? htext]

/-- An argument with a known constant, or with none, has the same value. -/
theorem argument_onto (h : c.Embeds p') {t : Term} (ht : t.Known c.program.symbols) (s : Scope) :
    (c.onto p').argument rule s t = c.argument rule s t := by
  cases t with
  | var name => rfl
  | param name => rfl
  | const text => rw [argument, argument, literal_onto h (ht text rfl)]

theorem matchColumns_onto (h : c.Embeds p') (source : String) (position : Nat) {ts : List Term}
    (hts : ∀ t ∈ ts, t.Known c.program.symbols) (s : Scope) :
    (c.onto p').matchColumns rule source position ts s = c.matchColumns rule source position ts s := by
  induction ts generalizing position s with
  | nil => rfl
  | cons t ts ih =>
    rw [matchColumns, matchColumns, argument_onto h (hts t List.mem_cons_self)]
    cases c.argument rule s t with
    | error e => rfl
    | ok found => exact ih (position + 1) (fun t ht ↦ hts t (List.mem_cons_of_mem _ ht)) _

/-- A goal on facts is compiled in the same way, because its symbol keeps its number. -/
theorem addFacts_onto (h : c.Embeds p') {g : Goal} (hg : ∀ t ∈ g.args, t.Known c.program.symbols)
    (hfacts : c.program.hasFacts g.symbol = true) (s : Scope) :
    (c.onto p').addFacts rule s g = c.addFacts rule s g := by
  obtain ⟨f, hf, hsymbol⟩ := h.closed.hasFacts_iff.mp hfacts
  rw [addFacts, addFacts, h.get? (hsymbol ▸ (h.closed.facts f hf).1)]
  cases c.symbols.get? g.symbol with
  | none => rfl
  | some id => exact matchColumns_onto h _ 1 hg _

/-- The terms of both the head and the goal have to be known. -/
theorem matchHead_onto (h : c.Embeds p') (key : Symbol) {pairs : List (Term × Term)}
    (hpairs : ∀ pair ∈ pairs, pair.1.Known c.program.symbols ∧ pair.2.Known c.program.symbols)
    (b : Bindings) (s : Scope) :
    (c.onto p').matchHead rule key pairs b s = c.matchHead rule key pairs b s := by
  induction pairs generalizing b s with
  | nil => rfl
  | cons pair pairs ih =>
    obtain ⟨head, arg⟩ := pair
    obtain ⟨hhead, harg⟩ := hpairs _ List.mem_cons_self
    have hrest := ih fun pair hpair ↦ hpairs pair (List.mem_cons_of_mem _ hpair)
    rw [matchHead, matchHead, argument_onto h harg]
    cases c.argument rule s arg with
    | error e => rfl
    | ok found =>
      cases head with
      | var name =>
        dsimp only [bind, Except.bind]
        cases b.lookup (.rule key name) with
        | some previous => exact hrest b _
        | none => exact hrest _ _
      | const text =>
        dsimp only [bind, Except.bind]
        rw [literal_onto h (hhead text rfl)]
        cases c.literal text with
        | error e => rfl
        | ok expected => exact hrest b _
      | param name => exact hrest b _

/-- A goal on a rule is compiled in the same way, with the same fragment. -/
theorem addRule_onto (h : c.Embeds p') {g : Goal} (hg : ∀ t ∈ g.args, t.Known c.program.symbols)
    (fragment : Fragment) (s : Scope) :
    (c.onto p').addRule rule s g fragment = c.addRule rule s g fragment := by
  have hrule : (c.onto p').program.rule? g.symbol = c.program.rule? g.symbol := h.widened.rule? _
  rw [addRule, addRule, hrule]
  cases hcallee : c.program.rule? g.symbol with
  | none => rfl
  | some callee =>
    have hterms := h.closed.rules callee (Program.mem_of_rule? hcallee)
    have hpairs : ∀ pair ∈ callee.head.zip g.args,
        pair.1.Known c.program.symbols ∧ pair.2.Known c.program.symbols := fun pair hpair ↦
      ⟨(hterms _ (List.mem_append_left _ (List.of_mem_zip hpair).1)).1,
        hg _ (List.of_mem_zip hpair).2⟩
    simp only [matchHead_onto h g.symbol hpairs]

/-- What is in the cache, what has failed and what has facts are the same, so a goal is too. -/
theorem addGoal_onto (h : c.Embeds p') {g : Goal} (hg : ∀ t ∈ g.args, t.Known c.program.symbols)
    (s : Scope) : (c.onto p').addGoal rule s g = c.addGoal rule s g := by
  have hcached : (c.onto p').fragment? g.symbol = c.fragment? g.symbol := rfl
  have hfailures : (c.onto p').failures = c.failures := rfl
  have hprogram : (c.onto p').program = p' := rfl
  simp only [addGoal, hcached, hfailures, hprogram, h.widened.rule?, h.widened.hasFacts,
    h.widened.definedArities, addRule_onto h hg]
  cases c.fragment? g.symbol with
  | some fragment => rfl
  | none =>
    cases c.failures.lookup g.symbol with
    | some reason => rfl
    | none =>
      split_ifs with _ hfacts
      · rfl
      · exact addFacts_onto h hg hfacts s
      · rfl

/-- **Goals on old symbols are added as before.** -/
theorem addGoals_onto (h : c.Embeds p') {goals : List Goal}
    (hgoals : ∀ g ∈ goals, ∀ t ∈ g.args, t.Known c.program.symbols) (s : Scope) :
    (c.onto p').addGoals rule goals s = c.addGoals rule goals s := by
  induction goals generalizing s with
  | nil => rfl
  | cons g goals ih =>
    rw [addGoals, addGoals, addGoal_onto h (hgoals g List.mem_cons_self)]
    cases c.addGoal rule s g with
    | error e => rfl
    | ok s => exact ih (fun g hg ↦ hgoals g (List.mem_cons_of_mem _ hg)) s

/-! ### Rules and queries -/

/-- Compiling goals and moving to the wider program commute. -/
theorem compileGoals_onto (h : c.Embeds p') {goals : List Goal}
    (hgoals : ∀ g ∈ goals, ∀ t ∈ g.args, t.Known c.program.symbols) (names : List String) :
    (c.onto p').compileGoals rule goals names =
      ((c.compileGoals rule goals names).1.onto p', (c.compileGoals rule goals names).2) := by
  have hopened : c.openScope.2.Embeds p' := ⟨h.closed, h.symbols, h.widened⟩
  exact congrArg (fun found ↦ (c.openScope.2.onto p', Except.map (Scope.finish · names) found))
    (addGoals_onto hopened hgoals c.openScope.1)

/-- Compiling a rule of the program and moving to the wider one commute. -/
theorem compileRule_onto (h : c.Embeds p') {r : Rule} (hr : r ∈ c.program.rules) :
    (c.onto p').compileRule r = ((c.compileRule r).1.onto p', (c.compileRule r).2) := by
  have hcached : (c.onto p').fragment? r.key = c.fragment? r.key := rfl
  have hpolicy : (c.onto p').policy = c.policy := rfl
  have hgoals : ∀ g ∈ c.policy.select r.body, ∀ t ∈ g.args, t.Known c.program.symbols :=
    fun g hg t ht ↦ (h.closed.rules r hr t (Rule.mem_terms_of_mem_select hg ht)).1
  simp only [compileRule, hcached, hpolicy, compileGoals_onto h hgoals]
  cases c.fragment? r.key with
  | some fragment => rfl
  | none =>
    generalize c.compileGoals (some r) (c.policy.select r.body) _ = compiled
    obtain ⟨d, _ | fragment⟩ := compiled <;> rfl

theorem reuse?_onto (h : c.Embeds p') (goals : List Goal) :
    (c.onto p').reuse? goals = c.reuse? goals := by
  have hreuse : ∀ g, (c.onto p').reuse g = c.reuse g := fun g ↦ by
    have hrule : (c.onto p').program.rule? g.symbol = c.program.rule? g.symbol := h.widened.rule? _
    simp only [reuse, hrule]
    rfl
  simp only [reuse?, hreuse]
  rfl

/-- **Queries on old symbols are compiled as before.** -/
theorem compileQuery_onto (h : c.Embeds p') {q : Query} (hq : q.Known c.program.symbols) :
    (c.onto p').compileQuery q = ((c.compileQuery q).1.onto p', (c.compileQuery q).2) := by
  have hpolicy : (c.onto p').policy = c.policy := rfl
  have hgoals : ∀ g ∈ c.policy.select q.goals, ∀ t ∈ g.args, t.Known c.program.symbols :=
    fun g hg ↦ hq g (BodyPolicy.mem_of_mem_select hg)
  simp only [compileQuery, hpolicy, reuse?_onto h, compileGoals_onto h hgoals]
  cases c.reuse? (c.policy.select q.goals) <;> rfl

/-- On the same store, a query on old symbols is answered as before. -/
theorem answer_onto (h : c.Embeds p') {q : Query} (hq : q.Known c.program.symbols) (config : Config)
    (store : Store) :
    ((c.onto p').answer config store q).outcomes = (c.answer config store q).outcomes := by
  simp only [answer, compileQuery_onto h hq]
  generalize c.compileQuery q = compiled
  obtain ⟨d, _ | compiled⟩ := compiled <;> rfl

end Compiler

/-! ### Resolution -/

namespace Resolution

variable {p' : Program}

/-- The pass with its compiler moved to another program. -/
def Pass.onto (p : Pass) (p' : Program) : Pass := { p with compiler := p.compiler.onto p' }

/-- The passes made, with the compiler moved to another program. -/
def Passes.onto (p : Passes) (p' : Program) : Passes := { p with compiler := p.compiler.onto p' }

/-- Whether goals are ready is decided by rules and relations, not by symbols. -/
theorem readiness_widened {p : Program} (h : p.Widened p') (states : RuleStates) (goals : List Goal) :
    readiness p' states goals = readiness p states goals := by
  have hclassify : classify p' states = classify p states := by
    funext relation
    simp only [classify, h.hasFacts, h.definedArities]
  induction goals with
  | nil => rfl
  | cons g goals ih => simp only [readiness, hclassify, ih]

/-- One attempt at a rule and moving to the wider program commute. -/
theorem attempt_onto (number : Nat) (before : RuleStates) {p : Pass} (h : p.compiler.Embeds p')
    {r : Rule} (hr : r ∈ p.compiler.program.rules) :
    attempt number before (p.onto p') r = (attempt number before p r).onto p' := by
  have hpolicy : (p.onto p').compiler.policy = p.compiler.policy := rfl
  have hprogram : (p.onto p').compiler.program = p' := rfl
  have hrule : (p.onto p').compiler.compileRule r =
      ((p.compiler.compileRule r).1.onto p', (p.compiler.compileRule r).2) :=
    Compiler.compileRule_onto h hr
  simp only [attempt, hpolicy, hprogram, readiness_widened h.widened, hrule]
  split_ifs
  · cases readiness p.compiler.program before (p.compiler.policy.select r.body) with
    | mismatch used defined => rfl
    | waiting => rfl
    | ready =>
      generalize p.compiler.compileRule r = compiled
      obtain ⟨d, _ | fragment⟩ := compiled <;> rfl
  · rfl

/-- So do the attempts of a pass, by induction on the rules that are left. -/
theorem foldl_attempt_onto (number : Nat) (before : RuleStates) {rules : List Rule} {p : Pass}
    (h : p.compiler.Embeds p') (hrules : ∀ r ∈ rules, r ∈ p.compiler.program.rules) :
    rules.foldl (attempt number before) (p.onto p') =
      (rules.foldl (attempt number before) p).onto p' := by
  induction rules generalizing p with
  | nil => rfl
  | cons r rules ih =>
    have htask := sameTask_attempt number before p r
    rw [List.foldl_cons, List.foldl_cons, attempt_onto number before h (hrules r List.mem_cons_self)]
    refine ih (h.of_sameTask htask) fun r' hr' ↦ ?_
    rw [htask.program]
    exact hrules r' (List.mem_cons_of_mem _ hr')

theorem pass_onto (number : Nat) {c : Compiler} (h : c.Embeds p') (states : RuleStates) :
    pass number (c.onto p') states = (pass number c states).onto p' := by
  have hrules : (c.onto p').program.rules = c.program.rules := h.widened.rules
  have hfold := foldl_attempt_onto number states (p := { compiler := c, states }) h fun _ ↦ id
  rw [pass, pass, hrules]
  exact congrArg (fun p : Pass ↦ { p with log := p.log ++ [Event.passFinished number p.progress] }) hfold

/-- And so does a run of passes, by induction on the passes that are left. -/
theorem run_onto (left : Nat) {p : Passes} (h : p.compiler.Embeds p') :
    run left (p.onto p') = (run left p).onto p' := by
  induction left generalizing p with
  | zero => rfl
  | succ left ih =>
    have hpass : pass ((p.onto p').count + 1) (p.onto p').compiler (p.onto p').states =
        (pass (p.count + 1) p.compiler p.states).onto p' := pass_onto _ h _
    have hnext : (pass (p.count + 1) p.compiler p.states).compiler.Embeds p' :=
      foldl_attempt_induction (P := (Compiler.Embeds · p'))
        (fun c r _ hc ↦ hc.of_sameTask (c.sameTask_compileRule r))
        (fun c key reason hc ↦ hc.of_sameTask (c.sameTask_markFailed key reason)) (fun _ ↦ id) h
    have hstates : (p.onto p').states = p.states := rfl
    rw [run, run, hpass, hstates]
    cases hpending : anyPending p.states with
    | false => rfl
    | true =>
      generalize pass (p.count + 1) p.compiler p.states = q at hnext
      have hprogress : (q.onto p').progress = q.progress := rfl
      simp only [if_true, hprogress]
      split_ifs
      · exact ih (p := ⟨p.count + 1, q.compiler, q.states, p.log ++ q.log⟩) hnext
      · rfl

end Resolution

namespace Compiler

open Resolution in
/-- **Resolution for the wider program goes the same way.** -/
theorem resolve_onto {c : Compiler} {p' : Program} (h : c.Embeds p') (maxPasses : Nat) :
    ((c.onto p').resolve maxPasses).compiler = (c.resolve maxPasses).compiler.onto p' := by
  have hrules : (c.onto p').program.rules = c.program.rules := h.widened.rules
  have hrun : run maxPasses ⟨0, c.onto p', c.program.rules.map fun r ↦ (r.key, .pending), []⟩ =
      (run maxPasses ⟨0, c, c.program.rules.map fun r ↦ (r.key, .pending), []⟩).onto p' :=
    run_onto maxPasses (p := ⟨0, c, _, []⟩) h
  simp only [resolve, hrules, hrun]
  generalize run maxPasses ⟨0, c, _, []⟩ = p
  have hstates : (p.onto p').states = p.states := rfl
  rw [hstates]
  split_ifs <;> rfl

/-- The compiler works on the closed program with the program's own numbers, and its cache is well
scoped and complete in itself. -/
structure Reliable (c : Compiler) (p : Program) (policy : BodyPolicy) : Prop
    extends c.WorksOn p policy where
  closed : p.Closed
  wellScoped : c.Scoped
  selfContained : c.SelfContained

theorem Reliable.later {c : Compiler} {p : Program} {policy : BodyPolicy} (h : c.Reliable p policy)
    (scopes : Nat) : (c.later scopes).Reliable p policy :=
  ⟨h.toWorksOn.of_sameTask ⟨rfl, rfl, rfl⟩, h.closed, h.wellScoped.later scopes, h.selfContained⟩

/-- A reliable compiler can be put onto every wider program. -/
theorem Reliable.embeds {c : Compiler} {p p' : Program} {policy : BodyPolicy}
    (h : c.Reliable p policy) (hwidened : p.Widened p') : c.Embeds p' := by
  obtain ⟨⟨rfl, hsymbols, -⟩, hclosed, -, -⟩ := h
  exact ⟨hclosed, hsymbols, hwidened⟩

end Compiler

namespace Program

variable {p p' : Program} (hp : p.Closed) (config : Config)

include hp

/-- Resolving a closed program leaves a reliable compiler. -/
theorem reliable_resolution : (p.resolution config).compiler.Reliable p config.bodyPolicy := by
  have htask := (p.compiler config.bodyPolicy).sameTask_resolve config.maxPasses
  exact ⟨(Compiler.worksOn_compiler p _).of_sameTask htask, hp,
    Compiler.scoped_resolve (fun _ hentry ↦ absurd hentry List.not_mem_nil) _,
    Compiler.selfContained_resolve hp _ _ _⟩

/-- The wider program has the same rules in its cache. -/
theorem resolution_widened (h : p.Widened p') :
    (p'.resolution config).compiler = (p.resolution config).compiler.onto p' :=
  Compiler.resolve_onto (c := p.compiler config.bodyPolicy) ⟨hp, rfl, h⟩ _

end Program

end HornQuery
