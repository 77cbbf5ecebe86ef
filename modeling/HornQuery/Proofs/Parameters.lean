import Mathlib
import HornQuery.Proofs.Extension.Compilation
import HornQuery.Proofs.Renumbering

/-!
# Parameters and the constants they stand for

A parameter of a query has a text from the configuration. Where the text is a constant of the program,
the constant may as well be written in the query: the answer is the same (`Program.run_bindQuery`).

The two queries are compiled in different ways. The parameter becomes a placeholder whose text is looked
up when the query is executed, the constant becomes a number at once. Either may be answered from the
cache while the other is not, and two constants may be found to differ before anything is executed. But
every way leads to the answer of a scope (`Compiler.execute_compileQuery_eq_answer`), and the scopes of
the two queries have the same sources, with conditions that are true together as long as placeholders
have their values (`Scope.SameIn`).
-/

namespace HornQuery

/-! ### Constants in place of parameters -/

namespace Config

/-- The term itself, or the constant that a parameter is configured as. -/
def bindTerm (config : Config) : Term → Term
  | .param x =>
    match config.param? x with
    | some text => .const text
    | none => .param x
  | t => t

/-- The goal with constants in place of its parameters. -/
def bindGoal (config : Config) (g : Goal) : Goal := { g with args := g.args.map config.bindTerm }

/-- The query with constants in place of its parameters. -/
def bindQuery (config : Config) (q : Query) : Query := { q with goals := q.goals.map config.bindGoal }

variable (config : Config)

/-- A parameter that is configured becomes a constant. -/
theorem bindTerm_param {x text : String} (h : config.param? x = some text) :
    config.bindTerm (.param x) = .const text := by
  rw [bindTerm, h]

/-- The symbol of a goal stays, since no argument is added or removed. -/
@[simp] theorem symbol_bindGoal (g : Goal) : (config.bindGoal g).symbol = g.symbol := by
  simp [Goal.symbol, bindGoal]

theorem varName?_bindTerm (t : Term) : (config.bindTerm t).varName? = t.varName? := by
  cases t with
  | var x => rfl
  | const text => rfl
  | param x =>
    rw [bindTerm]
    cases config.param? x <;> rfl

/-- The variables are the same. -/
theorem varsOf_bindGoal (goals : List Goal) :
    Goal.varsOf (goals.map config.bindGoal) = Goal.varsOf goals := by
  have hvars : ∀ g, (config.bindGoal g).vars = g.vars := fun g ↦ by
    simp only [Goal.vars, Term.vars, bindGoal, List.filterMap_map, Function.comp_def,
      varName?_bindTerm]
  simp only [Goal.varsOf, List.flatMap_map, hvars]

/-- If the term is a parameter, it is configured as a text that has a number, and this is the value of
the parameter. -/
def Fixes (t : SymbolTable) (env : Env) (term : Term) : Prop :=
  ∀ x, term = .param x → ∃ text id, config.param? x = some text ∧ t.constant? text = some id ∧
    env.param (.external x) = .integer id

end Config

/-! ### Conditions that are true together -/

variable {db : Database} {env : Env}

/-- The expressions have the same value wherever placeholders have the values of `env`. -/
def Expr.SameIn (env : Env) (x x' : Expr) : Prop :=
  ∀ e : Env, e.param = env.param → x'.value e = x.value e

theorem Expr.SameIn.refl (x : Expr) : Expr.SameIn env x x := fun _ _ ↦ rfl

/-- The same placeholders are bound, to expressions with the same values. -/
def Bindings.SameIn (env : Env) (b b' : Bindings) : Prop :=
  ∀ key, Option.Rel (Expr.SameIn env) (b.lookup key) (b'.lookup key)

namespace Bindings.SameIn

variable {b b' : Bindings}

theorem nil : Bindings.SameIn env [] [] := fun _ ↦ .none

/-- One more placeholder may be bound to expressions with the same value. -/
theorem append (h : Bindings.SameIn env b b') (key : Placeholder) {x x' : Expr}
    (hx : Expr.SameIn env x x') : Bindings.SameIn env (b ++ [(key, x)]) (b' ++ [(key, x')]) := by
  intro k
  have hk := h k
  rw [lookup_append_singleton, lookup_append_singleton]
  generalize b.lookup k = y, b'.lookup k = y' at hk
  cases hk with
  | some hy => exact .some hy
  | none =>
    by_cases heq : k = key
    · simp only [heq, if_true]
      exact .some hx
    · simp only [heq, if_false]
      exact .none

/-- Placeholders that are bound to expressions with the same values have the same values. -/
theorem rebind (h : Bindings.SameIn env b b') {e : Env} (he : e.param = env.param) :
    e.rebind b' = e.rebind b := by
  have hparam : (e.rebind b').param = (e.rebind b).param := by
    funext key
    have hkey := h key
    simp only [Env.rebind]
    generalize b.lookup key = y, b'.lookup key = y' at hkey
    cases hkey with
    | none => rfl
    | some hy => exact hy e he
  exact congrArg (Env.mk e.column) hparam

end Bindings.SameIn

/-- The scopes differ only in conditions, and the conditions are true together wherever placeholders
have the values of `env`. -/
def Scope.SameIn (db : Database) (env : Env) (s s' : Scope) : Prop :=
  ∃ conditions, s' = { s with conditions } ∧ ∀ e : Env, e.param = env.param →
    Condition.holdAll db e conditions = Condition.holdAll db e s.conditions

namespace Scope.SameIn

variable {s s' : Scope}

theorem refl (s : Scope) : Scope.SameIn db env s s := ⟨s.conditions, rfl, fun _ _ ↦ rfl⟩

theorem number (h : Scope.SameIn db env s s') : s'.number = s.number := by
  obtain ⟨conditions, rfl, -⟩ := h
  rfl

/-- Conditions that are true together may be added to either scope. -/
theorem require (h : Scope.SameIn db env s s') {c c' : Condition}
    (hc : ∀ e : Env, e.param = env.param → c'.holds db e = c.holds db e) :
    Scope.SameIn db env (s.require c) (s'.require c') := by
  obtain ⟨conditions, rfl, hconditions⟩ := h
  refine ⟨conditions ++ [c'], rfl, fun e he ↦ ?_⟩
  simp only [Scope.require, Condition.holdAll_append, Condition.holdAll_singleton, hconditions e he,
    hc e he]

/-- So may equations between expressions with the same values. -/
theorem equate (h : Scope.SameIn db env s s') {x x' y y' : Expr} (hx : Expr.SameIn env x x')
    (hy : Expr.SameIn env y y') : Scope.SameIn db env (s.equate x y) (s'.equate x' y') :=
  h.require fun e he ↦ by simp only [Condition.holds, hx e he, hy e he]

theorem addTable (h : Scope.SameIn db env s s') (arity : Nat) :
    (s'.addTable arity).1 = (s.addTable arity).1 ∧
      Scope.SameIn db env (s.addTable arity).2 (s'.addTable arity).2 := by
  obtain ⟨conditions, rfl, hconditions⟩ := h
  exact ⟨rfl, conditions, rfl, hconditions⟩

/-- A variable has the same source in both scopes. -/
theorem idOf (h : Scope.SameIn db env s s') (name : String) :
    (s'.idOf name).1 = (s.idOf name).1 ∧
      Scope.SameIn db env (s.idOf name).2 (s'.idOf name).2 := by
  obtain ⟨conditions, rfl, hconditions⟩ := h
  simp only [Scope.idOf]
  cases s.vars.idxOf? name with
  | some i => exact ⟨rfl, conditions, rfl, hconditions⟩
  | none =>
    refine ⟨rfl, _, rfl, fun e he ↦ ?_⟩
    simp only [Condition.holdAll_append, hconditions e he]

/-- Scopes that are the same in an environment have the same solutions there. -/
theorem solutions (h : Scope.SameIn db env s s') : s'.solutions db env = s.solutions db env := by
  obtain ⟨conditions, rfl, hconditions⟩ := h
  exact List.filter_congr fun e he ↦ hconditions e (Database.param_of_mem_draws he)

/-- The scopes give the same answer. -/
theorem answer (h : Scope.SameIn db env s s') (names : List String) :
    s'.answer db env names = s.answer db env names := by
  have hsolutions := h.solutions
  have hholds : (s'.finish []).scan.holds db env = (s.finish []).scan.holds db env := by
    rw [Bool.eq_iff_iff, finish_holds_iff, finish_holds_iff, hsolutions]
  have hrows : (s'.finish names).scan.rows db env = (s.finish names).scan.rows db env := by
    obtain ⟨conditions, rfl, -⟩ := h
    exact congrArg (List.map _) hsolutions
  rw [Scope.answer, Scope.answer, hholds, hrows]

end Scope.SameIn

/-! ### Compiling both queries -/

namespace Compiler

variable {c : Compiler} {config : Config} {s s' : Scope}

/-- A parameter and the constant it is configured as have the same value, although one is compiled
to a placeholder and the other to a number. -/
theorem argument_bindTerm (hs : Scope.SameIn db env s s') {t : Term}
    (ht : config.Fixes c.symbols env t) :
    Alike Eq (fun a a' ↦ Expr.SameIn env a.1 a'.1 ∧ Scope.SameIn db env a.2 a'.2)
      (c.argument none s t) (c.argument none s' (config.bindTerm t)) := by
  cases t with
  | var x =>
    obtain ⟨hvalue, hscope⟩ := hs.idOf x
    refine .ok ⟨?_, hscope⟩
    rw [hvalue]
    exact .refl _
  | param x =>
    obtain ⟨text, id, htext, hid, hvalue⟩ := ht x rfl
    rw [config.bindTerm_param htext, argument_const hid]
    refine .ok ⟨fun e he ↦ ?_, hs⟩
    simp only [Expr.value, he, hvalue]
  | const text =>
    change Alike _ _ _ (c.argument none s' (.const text))
    rw [argument, argument]
    cases c.literal text with
    | error e => exact .error rfl
    | ok value => exact .ok ⟨.refl value, hs⟩

/-- So columns are matched with the same values. -/
theorem matchColumns_bindTerm (source : String) (position : Nat) {ts : List Term}
    (hs : Scope.SameIn db env s s') (hts : ∀ t ∈ ts, config.Fixes c.symbols env t) :
    Alike Eq (Scope.SameIn db env) (c.matchColumns none source position ts s)
      (c.matchColumns none source position (ts.map config.bindTerm) s') := by
  induction ts generalizing position s s' with
  | nil => exact .ok hs
  | cons t ts ih =>
    rw [List.map_cons, matchColumns, matchColumns]
    refine (argument_bindTerm hs (hts t List.mem_cons_self)).bind ?_
    rintro ⟨value, s⟩ ⟨value', s'⟩ ⟨hvalue, hs⟩
    exact ih (position + 1) (hs.equate (.refl _) hvalue) fun t ht ↦ hts t (List.mem_cons_of_mem _ ht)

/-- A goal on facts and the same goal with constants lead to scopes that are the same. -/
theorem addFacts_bindGoal (hs : Scope.SameIn db env s s') {g : Goal}
    (hg : ∀ t ∈ g.args, config.Fixes c.symbols env t) :
    Alike Eq (Scope.SameIn db env) (c.addFacts none s g)
      (c.addFacts none s' (config.bindGoal g)) := by
  obtain ⟨hsource, htable⟩ := hs.addTable g.args.length
  have hlength : (config.bindGoal g).args.length = g.args.length := List.length_map _
  simp only [addFacts, Config.symbol_bindGoal, hlength, hsource]
  cases c.symbols.get? g.symbol with
  | none => exact .error rfl
  | some id => exact matchColumns_bindTerm _ 1 (htable.equate (.refl _) (.refl _)) hg

/-- A head is matched with the same values too, and binds its variables to them. -/
theorem matchHead_bindTerm (key : Symbol) {pairs : List (Term × Term)} {b b' : Bindings}
    (hs : Scope.SameIn db env s s') (hb : Bindings.SameIn env b b')
    (hpairs : ∀ pair ∈ pairs, config.Fixes c.symbols env pair.2) :
    Alike Eq (fun a a' ↦ Bindings.SameIn env a.1 a'.1 ∧ Scope.SameIn db env a.2 a'.2)
      (c.matchHead none key pairs b s)
      (c.matchHead none key (pairs.map (Prod.map id config.bindTerm)) b' s') := by
  induction pairs generalizing b b' s s' with
  | nil => exact .ok ⟨hb, hs⟩
  | cons pair pairs ih =>
    obtain ⟨head, arg⟩ := pair
    have hrest : ∀ pair ∈ pairs, config.Fixes c.symbols env pair.2 := fun pair hpair ↦
      hpairs pair (List.mem_cons_of_mem _ hpair)
    rw [List.map_cons, Prod.map_apply, id_eq, matchHead, matchHead]
    refine (argument_bindTerm hs (hpairs _ List.mem_cons_self)).bind ?_
    rintro ⟨value, s⟩ ⟨value', s'⟩ ⟨hvalue, hs⟩
    cases head with
    | var x =>
      -- The variable is bound in both or in none.
      have hlookup := hb (.rule key x)
      dsimp only
      generalize hprevious : b.lookup (.rule key x) = y, hprevious' : b'.lookup _ = y' at hlookup
      cases hlookup with
      | some hsame => exact ih (hs.equate hsame hvalue) hb hrest
      | none => exact ih hs (hb.append (.rule key x) hvalue) hrest
    | const text =>
      dsimp only
      cases c.literal text with
      | error e => exact .error rfl
      | ok expected => exact ih (hs.equate hvalue (.refl expected)) hb hrest
    | param x => exact ih hs hb hrest

/-- For a goal on a rule, the scan of the rule is asked for with the same values. -/
theorem addRule_bindGoal (hs : Scope.SameIn db env s s') (hvalid : s.Valid ∧ s'.Valid) {g : Goal}
    (hg : ∀ t ∈ g.args, config.Fixes c.symbols env t) {fragment : Fragment}
    (hscan : ∀ name ∈ fragment.scan.declared, Scope.Earlier s.number name) :
    Alike Eq (Scope.SameIn db env) (c.addRule none s g fragment)
      (c.addRule none s' (config.bindGoal g) fragment) := by
  rw [addRule, addRule, Config.symbol_bindGoal]
  cases c.program.rule? g.symbol with
  | none => exact .error rfl
  | some callee =>
    have hzip : callee.head.zip (config.bindGoal g).args =
        (callee.head.zip g.args).map (Prod.map id config.bindTerm) := List.zip_map_right ..
    dsimp only
    rw [hzip]
    refine (matchHead_bindTerm g.symbol hs .nil fun pair hpair ↦
      hg _ (List.of_mem_zip hpair).2).attach.bind ?_
    rintro ⟨b, t⟩ ⟨b', t'⟩ ⟨hmatch, hmatch', hb, ht⟩
    -- Neither scope can be captured by the rule's scan, which comes from an earlier one.
    have havoid : b.Avoid fragment.scan.declared := matchHead_avoid hvalid.1 hscan hmatch
    have havoid' : b'.Avoid fragment.scan.declared :=
      matchHead_avoid hvalid.2 (hs.number ▸ hscan) hmatch'
    refine .ok (ht.require fun e he ↦ ?_)
    simp only [Condition.holds]
    rw [Scan.holds_substitute _ havoid, Scan.holds_substitute _ havoid', hb.rebind he]

/-- Whatever kind of goal it is, both scopes are the same. -/
theorem addGoal_bindGoal (hs : Scope.SameIn db env s s') (hvalid : s.Valid ∧ s'.Valid)
    (hcache : c.CacheBefore s.number) {g : Goal}
    (hg : ∀ t ∈ g.args, config.Fixes c.symbols env t) :
    Alike Eq (Scope.SameIn db env) (c.addGoal none s g) (c.addGoal none s' (config.bindGoal g)) := by
  have hfunctor : (config.bindGoal g).functor = g.functor := rfl
  simp only [addGoal, Config.symbol_bindGoal, hfunctor]
  cases hfragment : c.fragment? g.symbol with
  | some fragment => exact addRule_bindGoal hs hvalid hg (hcache.fragment hfragment).2
  | none =>
    cases c.failures.lookup g.symbol with
    | some reason => exact .error rfl
    | none =>
      split_ifs
      · exact .error rfl
      · exact addFacts_bindGoal hs hg
      · cases c.program.definedArities g.functor with
        | nil => exact .error rfl
        | cons arity arities => exact .error rfl

/-- **Goals with constants in place of parameters** give the same scope, up to conditions that are true
together, or the same error. -/
theorem addGoals_bindGoal (hs : Scope.SameIn db env s s') (hvalid : s.Valid ∧ s'.Valid)
    (hcache : c.CacheBefore s.number) {goals : List Goal}
    (hgoals : ∀ g ∈ goals, ∀ t ∈ g.args, config.Fixes c.symbols env t) :
    Alike Eq (Scope.SameIn db env) (c.addGoals none goals s)
      (c.addGoals none (goals.map config.bindGoal) s') := by
  induction goals generalizing s s' with
  | nil => exact .ok hs
  | cons g goals ih =>
    rw [List.map_cons, addGoals, addGoals]
    refine (addGoal_bindGoal hs hvalid hcache (hgoals g List.mem_cons_self)).attach.bind ?_
    rintro t t' ⟨hgoal, hgoal', ht⟩
    have hcache' : c.CacheBefore s'.number := hs.number ▸ hcache
    have hnext : c.CacheBefore t.number := (addGoal_grows hgoal).number_eq ▸ hcache
    exact ih ht ⟨addGoal_valid hcache hvalid.1 hgoal, addGoal_valid hcache' hvalid.2 hgoal'⟩ hnext
      fun g hg ↦ hgoals g (List.mem_cons_of_mem _ hg)

end Compiler

/-! ### Answers -/

section Answers

variable {p : Program} {config : Config} {goals : List Goal}

/-- The constants that are put in place of parameters are constants of the program. -/
theorem Config.Supplies.bindGoal (h : config.Supplies p goals) :
    config.Supplies p (goals.map config.bindGoal) := by
  refine ⟨fun g hg text htext ↦ ?_, fun g hg x hx ↦ ?_⟩
  · obtain ⟨g, hmem, rfl⟩ := List.mem_map.mp hg
    obtain ⟨t, ht, hbound⟩ := List.mem_map.mp htext
    cases t with
    | var x => cases hbound
    | const text' => exact h.consts g hmem text (hbound ▸ ht)
    | param x =>
      obtain ⟨text', hconstant, hparam⟩ := h.params g hmem x ht
      rw [config.bindTerm_param hparam] at hbound
      exact Term.const.inj hbound ▸ hconstant
  · obtain ⟨g, hmem, rfl⟩ := List.mem_map.mp hg
    obtain ⟨t, ht, hbound⟩ := List.mem_map.mp hx
    cases t with
    | var y => cases hbound
    | const text => cases hbound
    | param y =>
      obtain ⟨text, -, hparam⟩ := h.params g hmem y ht
      rw [config.bindTerm_param hparam] at hbound
      cases hbound

/-- A configuration that supplies all parameters fixes every argument. -/
theorem Config.Supplies.fixes (h : config.Supplies p goals) :
    ∀ g ∈ goals, ∀ t ∈ g.args, config.Fixes p.symbolTable (config.env p.database []) t := by
  rintro g hg _ ht x rfl
  obtain ⟨text, hconstant, hparam⟩ := h.params g hg x ht
  obtain ⟨id, hid⟩ := SymbolTable.exists_get?
    (Program.mem_symbolTable.mpr (Program.mem_constants.mp hconstant))
  have hvalue : (config.env p.database []).param (.external x) = p.symbolTable.cell text :=
    p.env_param hparam
  refine ⟨text, id, hparam, hid, ?_⟩
  rw [hvalue, SymbolTable.cell_of_constant? hid]

namespace Compiler

variable {c : Compiler} {q : Query} {outcome outcome' : Outcome}

/-- A query whose constants and parameters stand for constants of the program is answered by the scope
of its goals, or by the error that keeps it from having one. -/
theorem answer_eq_of_supplies (hc : c.Reliable p config.bodyPolicy)
    (hsupplies : config.Supplies p (c.policy.select q.goals))
    (h : (c.answer config ⟨some p.database⟩ q).outcomes = .ok [outcome]) :
    outcome.answer =
      match c.openScope.2.addGoals none (c.policy.select q.goals) c.openScope.1 with
      | .ok s => s.answer p.database (config.env p.database []) (Goal.varsOf (c.policy.select q.goals))
      | .error e => .error e.message := by
  obtain ⟨-, ⟨e, hcompiled, heq⟩ | ⟨compiled, sql, hcompiled, heq⟩⟩ :=
    c.answer_cases config ⟨some p.database⟩ q
  · obtain rfl := List.singleton_inj.mp (Except.ok.inj (heq.symm.trans h))
    obtain ⟨cached, -, hcase⟩ | ⟨-, hcase⟩ := c.compileQuery_cases q <;> rw [hcase] at hcompiled
    · cases hcompiled
    · have hgoals : c.openScope.2.addGoals none (c.policy.select q.goals) c.openScope.1 = .error e :=
        except_map_eq_error (except_map_eq_error hcompiled)
      rw [hgoals]
  · obtain ⟨answer, hanswer, hsame⟩ := except_map_eq_ok (heq.symm.trans h)
    obtain rfl := List.singleton_inj.mp hsame
    have hgoals : ∀ g ∈ c.policy.select q.goals, c.Knows g := fun g hg ↦
      knows_of_closed hc.closed hc.program hc.symbols (hsupplies.consts g hg)
    have hparams : ∀ g ∈ c.policy.select q.goals, ∀ x, .param x ∈ g.args →
        ∃ text, config.param? x = some text := fun g hg x hx ↦ by
      obtain ⟨text, -, htext⟩ := hsupplies.params g hg x hx
      exact ⟨text, htext⟩
    have hdb : ∀ text, p.database.constantId? text = c.symbols.constant? text := fun text ↦ by
      rw [p.constantId?_database, hc.symbols]
    obtain ⟨s, hs, rfl⟩ := execute_compileQuery_eq_answer hc.selfContained hc.wellScoped hgoals
      hparams hdb hcompiled hanswer
    rw [hs]

/-- A query with constants in place of its parameters has the same answer. -/
theorem answer_bindQuery (hc : c.Reliable p config.bodyPolicy)
    (hsupplies : config.Supplies p (c.policy.select q.goals))
    (h : (c.answer config ⟨some p.database⟩ q).outcomes = .ok [outcome])
    (h' : (c.answer config ⟨some p.database⟩ (config.bindQuery q)).outcomes = .ok [outcome']) :
    outcome'.answer = outcome.answer := by
  have hselect : c.policy.select (config.bindQuery q).goals =
      (c.policy.select q.goals).map config.bindGoal := c.policy.select_map _ q.goals
  have hsupplies' : config.Supplies p (c.policy.select (config.bindQuery q).goals) :=
    hselect ▸ hsupplies.bindGoal
  rw [answer_eq_of_supplies hc hsupplies h, answer_eq_of_supplies hc hsupplies' h', hselect,
    config.varsOf_bindGoal]
  have hempty : c.openScope.1.Valid := Scope.Valid.empty _
  have hstart : Scope.SameIn p.database (config.env p.database []) c.openScope.1 c.openScope.1 :=
    .refl _
  have hgoals := addGoals_bindGoal (c := c.openScope.2) hstart ⟨hempty, hempty⟩ hc.wellScoped
    fun g hg ↦ hc.symbols ▸ hsupplies.fixes g hg
  generalize c.openScope.2.addGoals none (c.policy.select q.goals) c.openScope.1 = x,
    c.openScope.2.addGoals none ((c.policy.select q.goals).map config.bindGoal) c.openScope.1 = x'
    at hgoals
  cases hgoals with
  | error he => rw [he]
  | ok hs => exact hs.answer _

/-- This holds also if other scopes have been opened before the one query than before the other. -/
theorem answer_later_bindQuery (hc : c.Reliable p config.bodyPolicy)
    (hsupplies : config.Supplies p (c.policy.select q.goals)) {m n : Nat}
    (h : ((c.later n).answer config ⟨some p.database⟩ q).outcomes = .ok [outcome])
    (h' : ((c.later m).answer config ⟨some p.database⟩ (config.bindQuery q)).outcomes =
      .ok [outcome']) : outcome'.answer = outcome.answer := by
  have hsame := answer_renumber hc.wellScoped m n config ⟨some p.database⟩ (config.bindQuery q)
  rw [h'] at hsame
  obtain ⟨outcomes, houtcomes, hmap⟩ := except_map_eq_ok hsame
  obtain ⟨other, rfl, hother⟩ := List.map_eq_singleton_iff.mp hmap
  have hanswer : other.withoutSql.answer = outcome'.withoutSql.answer :=
    congrArg Outcome.answer hother
  have hbound : other.answer = outcome.answer :=
    answer_bindQuery (hc.later n) hsupplies h houtcomes
  exact hanswer.symm.trans hbound

end Compiler

end Answers

/-! ### Runs -/

namespace Program

variable {p : Program} {config : Config} {store : Store} {report : Report}

/-- The query in the given place is answered with the rules resolved, after some more scopes. -/
theorem exists_outcome (hrun : (p.run config store).result = .ok report) {i : Nat} {q : Query}
    (hq : p.queries[i]? = some q) :
    ∃ outcome n, report.queries[i]? = some outcome ∧
      (((p.resolution config).compiler.later n).answer config ⟨some p.database⟩ q).outcomes =
        .ok [outcome] := by
  obtain ⟨symbols, hsymbols, houtcomes⟩ := run_eq_ok hrun
  obtain ⟨rfl, hstore, -⟩ := materialize_eq_ok hsymbols
  rw [hstore] at houtcomes
  have hall := Compiler.answerAll_outcomes 0 houtcomes
  obtain ⟨hi, rfl⟩ := List.getElem?_eq_some_iff.mp hq
  have hi' : i < report.queries.length := hall.length_eq ▸ hi
  obtain ⟨n, hn⟩ := hall.get hi hi'
  exact ⟨_, n, List.getElem?_eq_getElem hi', hn⟩

/-- **Parameters are as good as the constants they are configured as.** Take a query all of whose
parameters are configured as constants of the program, and put these constants in their place. If both
programs can be run, the query has the same answer in both: the same truth value, the same rows or the
same error. -/
theorem run_bindQuery (hp : p.Closed) {i : Nat} {q : Query} (hq : p.queries[i]? = some q)
    (hparams : ∀ g ∈ q.goals, ∀ x, .param x ∈ g.args →
      ∃ text ∈ p.constants, config.param? x = some text)
    {p' : Program} (hp' : p' = { p with queries := p.queries.set i (config.bindQuery q) })
    {store' : Store} {report' : Report} (hrun : (p.run config store).result = .ok report)
    (hrun' : (p'.run config store').result = .ok report') :
    ∃ outcome outcome', report.queries[i]? = some outcome ∧ report'.queries[i]? = some outcome' ∧
      outcome'.answer = outcome.answer := by
  have hwidened : p.Widened p' := hp' ▸ ⟨List.prefix_rfl, rfl, rfl, rfl⟩
  have hdatabase : p'.database = p.database := hp' ▸ rfl
  have hq' : p'.queries[i]? = some (config.bindQuery q) := by
    rw [hp']
    exact List.getElem?_set_self (List.getElem?_eq_some_iff.mp hq).1
  obtain ⟨outcome, n, houtcome, hanswer⟩ := exists_outcome hrun hq
  obtain ⟨outcome', m, houtcome', hanswer'⟩ := exists_outcome hrun' hq'
  refine ⟨outcome, outcome', houtcome, houtcome', ?_⟩
  have hsupplies : config.Supplies p q.goals :=
    ⟨fun g hg text ht ↦ mem_constants.mpr
      (hp.queries q (List.mem_of_getElem? hq) g hg _ ht text rfl), hparams⟩
  have hc := reliable_resolution hp config
  have hknown : (config.bindQuery q).Known (p.resolution config).compiler.program.symbols := by
    rw [hc.program]
    exact fun g hg _ ht text heq ↦
      mem_constants.mp (hsupplies.bindGoal.consts g hg text (heq ▸ ht))
  -- The compiler of the other program has the same cache, so it answers for this one.
  rw [resolution_widened hp config hwidened, hdatabase] at hanswer'
  have honto := Compiler.answer_onto ((hc.later m).embeds hwidened) hknown config
    ⟨some p.database⟩
  refine Compiler.answer_later_bindQuery hc ?_ hanswer (honto.symm.trans hanswer')
  exact ⟨fun g hg ↦ hsupplies.consts g (BodyPolicy.mem_of_mem_select hg),
    fun g hg ↦ hsupplies.params g (BodyPolicy.mem_of_mem_select hg)⟩

end Program

/-- Two nodes, each the same as itself. -/
def nodeProgram : Program where
  symbols := [⟨"node", 1⟩, .constant "a", .constant "b"]
  facts := [⟨"node", ["a"]⟩, ⟨"node", ["b"]⟩]
  relations := [⟨"node", 1⟩]
  rules := [⟨"same", [.var "X", .var "X"], [⟨"node", [.var "X"]⟩]⟩]
  queries := [⟨[⟨"same", [.param "x", .param "y"]⟩], "same(:x, :y)"⟩]

theorem closed_nodeProgram : nodeProgram.Closed := by decide +kernel

/-- With the parameters the rule is nested in a scope, where both have to be the same. With the
constants the cache finds at once that they differ. -/
theorem Program.run_bindQuery_same : ∃ outcome outcome',
    (nodeProgram.run { params := [("x", "a"), ("y", "b")] } {}).result =
        .ok ⟨3, 2, ⟨1, [⟨"same/2", .compiled 1⟩]⟩, [outcome]⟩ ∧
      (Program.run { nodeProgram with
          queries := [⟨[⟨"same", [.const "a", .const "b"]⟩], "same(:x, :y)"⟩] }
        { params := [("x", "a"), ("y", "b")] } {}).result =
          .ok ⟨3, 2, ⟨1, [⟨"same/2", .compiled 1⟩]⟩, [outcome']⟩ ∧
      outcome.answer = .no ∧ outcome'.answer = outcome.answer := by
  have hrun : (nodeProgram.run { params := [("x", "a"), ("y", "b")] } {}).result =
      .ok ⟨3, 2, ⟨1, [⟨"same/2", .compiled 1⟩]⟩, [⟨"same(:x, :y)", none, .no⟩]⟩ := by
    decide +kernel
  have hrun' : (Program.run { nodeProgram with
        queries := [⟨[⟨"same", [.const "a", .const "b"]⟩], "same(:x, :y)"⟩] }
      { params := [("x", "a"), ("y", "b")] } {}).result =
      .ok ⟨3, 2, ⟨1, [⟨"same/2", .compiled 1⟩]⟩, [⟨"same(:x, :y)", none, .no⟩]⟩ := by
    decide +kernel
  have hparams : ∀ g ∈ [(⟨"same", [.param "x", .param "y"]⟩ : Goal)], ∀ x, .param x ∈ g.args →
      ∃ text ∈ nodeProgram.constants,
        ({ params := [("x", "a"), ("y", "b")] } : Config).param? x = some text := by
    intro g hg x hx
    rw [List.mem_singleton.mp hg] at hx
    obtain rfl | rfl : x = "x" ∨ x = "y" := by simpa using hx
    · exact ⟨"a", by decide, rfl⟩
    · exact ⟨"b", by decide, rfl⟩
  obtain ⟨outcome, outcome', houtcome, houtcome', hsame⟩ :=
    run_bindQuery closed_nodeProgram (i := 0) rfl hparams rfl hrun hrun'
  obtain rfl := Option.some.inj houtcome
  obtain rfl := Option.some.inj houtcome'
  exact ⟨_, _, hrun, hrun', rfl, hsame⟩

end HornQuery
