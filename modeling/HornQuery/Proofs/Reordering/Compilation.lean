import Mathlib
import HornQuery.Proofs.Progress
import HornQuery.Proofs.Renaming.Compilation
import HornQuery.Proofs.Reordering.Scopes

/-!
# Compiling the same goals twice

Two compilers have the same task if their programs define the same relations, by the same rules, and
their symbol tables number the same symbols (`Compiler.Twins`). They may have compiled rules in another
order, so that their scopes carry other numbers, and their symbols may have other numbers too. Where
they agree on what became of the rules that goals refer to (`Compiler.AgreeOn`), they turn the goals
into fragments that find the same, or refuse them with the same error (`Compiler.Twins.compileGoals`,
`Compiler.Twins.compileQuery`).

That they agree is no assumption on compiled rules: a fragment is built from the fragments of the rules
it refers to, and nothing else (`Compiler.Built`), so any two fragments of a rule find the same,
whenever they were built (`Compiler.Twins.built`).
-/

namespace HornQuery

open Scope (Grows tableAlias)

variable {ν : Recoding} {db db' : Database}

/-- The programs define the same relations, and by the same rules. -/
structure Program.SameRelations (p p' : Program) : Prop where
  rule? : ∀ key, p'.rule? key = p.rule? key
  hasFacts : ∀ relation, p'.hasFacts relation = p.hasFacts relation
  definedArities : ∀ name, p'.definedArities name = p.definedArities name

theorem Program.SameRelations.refl (p : Program) : p.SameRelations p :=
  ⟨fun _ ↦ rfl, fun _ ↦ rfl, fun _ ↦ rfl⟩

/-- After the same step, both scopes have grown, and they still say the same. -/
structure Scope.Advanced (ν : Recoding) (db db' : Database) (s s' t t' : Scope) : Prop where
  recoded : Scope.Recoded ν db db' t t'
  grows : Grows s t
  grows' : Grows s' t'

namespace Scope.Advanced

variable {s s' t t' u u' : Scope}

theorem refl (h : Scope.Recoded ν db db' s s') : Scope.Advanced ν db db' s s' s s' :=
  ⟨h, .refl s, .refl s'⟩

/-- Steps of both scopes may follow each other. -/
theorem trans (h : Scope.Advanced ν db db' s s' t t') (h' : Scope.Advanced ν db db' t t' u u') :
    Scope.Advanced ν db db' s s' u u' :=
  ⟨h'.recoded, h.grows.trans h'.grows, h.grows'.trans h'.grows'⟩

/-- Expressions that mean the same may be equated in both. -/
theorem equate (h : Scope.Advanced ν db db' s s' t t') {x x' y y' : Expr}
    (hx : Expr.Recoded ν t t' x x') (hy : Expr.Recoded ν t t' y y') :
    Scope.Advanced ν db db' s s' (t.equate x y) (t'.equate x' y') :=
  h.trans ⟨h.recoded.equate hx hy, grows_equate t x y, grows_equate t' x' y'⟩

/-- A source stays in the first scope as it grows, under its own alias. -/
theorem fst_mem (h : Scope.Advanced ν db db' s s' t t') {arity i : Nat}
    (hs : ⟨Schema.factTable arity, tableAlias s.number i⟩ ∈ s.sources) :
    ⟨Schema.factTable arity, tableAlias t.number i⟩ ∈ t.sources := by
  rw [h.grows.number_eq]
  exact h.grows.sources_mem _ hs

theorem snd_mem (h : Scope.Advanced ν db db' s s' t t') {arity i : Nat}
    (hs : ⟨Schema.factTable arity, tableAlias s'.number i⟩ ∈ s'.sources) :
    ⟨Schema.factTable arity, tableAlias t'.number i⟩ ∈ t'.sources := by
  rw [h.grows'.number_eq]
  exact h.grows'.sources_mem _ hs

end Scope.Advanced

namespace Compiler

/-- The compilers have the same task on stores with the same content. -/
structure Twins (ν : Recoding) (db db' : Database) (c c' : Compiler) : Prop where
  relations : c.program.SameRelations c'.program
  policy : c'.policy = c.policy
  symbols : ∀ s, Option.Rel ν.rel (c.symbols.get? s) (c'.symbols.get? s)
  stores : Database.Recoded ν db db'
  /-- Facts have a table. -/
  arities : ∀ s, c.program.hasFacts s = true → s.arity ≤ Schema.maxArity

/-- The same has become of the rule for a relation: fragments that find the same, or the same
failure. -/
structure AgreeOn (ν : Recoding) (db db' : Database) (c c' : Compiler) (key : Symbol) : Prop where
  fragment : Option.Rel (Fragment.Recoded ν db db') (c.fragment? key) (c'.fragment? key)
  failure : c.fragment? key = none → c'.failures.lookup key = c.failures.lookup key

namespace Twins

variable {c c' : Compiler} (rule : Option Rule) {s s' : Scope}

/-- The state of the compilers does not matter for their task. -/
theorem of_sameTask {d d' : Compiler} (h : Twins ν db db' c c') (hd : SameTask c d)
    (hd' : SameTask c' d') : Twins ν db db' d d' := by
  refine ⟨?_, ?_, ?_, h.stores, ?_⟩
  · rw [hd.program, hd'.program]
    exact h.relations
  · rw [hd.policy, hd'.policy, h.policy]
  · rw [hd.symbols, hd'.symbols]
    exact h.symbols
  · rw [hd.program]
    exact h.arities

/-! ### Arguments -/

/-- A constant has a number in both programs or in none, and both numbers stand for it. -/
theorem literal (h : Twins ν db db' c c') (text : String) :
    Alike Eq (fun x x' ↦ ∀ s s', Expr.Recoded ν s s' x x') (c.literal text) (c'.literal text) := by
  have hid := h.symbols (.constant text)
  simp only [Compiler.literal, SymbolTable.constant?]
  generalize c.symbols.get? (.constant text) = id, c'.symbols.get? (.constant text) = id' at hid
  cases hid with
  | none => exact .error rfl
  | some hk => exact .ok fun _ _ ↦ .int hk

/-- An argument means the same in both scopes, although the numbers of scopes and symbols may
differ. -/
theorem argument (h : Twins ν db db' c c') (hs : Scope.Recoded ν db db' s s') (t : Term) :
    Alike Eq (fun a a' ↦ Scope.Advanced ν db db' s s' a.2 a'.2 ∧ Expr.Recoded ν a.2 a'.2 a.1 a'.1)
      (c.argument rule s t) (c'.argument rule s' t) := by
  cases t with
  | var name =>
    simp only [Compiler.argument]
    cases rule.filter (·.isParam name) with
    | some r => exact .ok ⟨.refl hs, .param _⟩
    | none =>
      obtain ⟨hscope, hvalue⟩ := hs.idOf h.stores name
      exact .ok ⟨⟨hscope, Scope.grows_idOf s name, Scope.grows_idOf s' name⟩, hvalue⟩
  | param name => exact .ok ⟨.refl hs, .param _⟩
  | const text => exact (h.literal text).map fun x x' hx ↦ ⟨.refl hs, hx s s'⟩

/-! ### Goals on facts -/

/-- Columns are compared with values that mean the same. The bounds on the position say that there
are such columns. -/
theorem matchColumns (h : Twins ν db db' c c') (hs : Scope.Recoded ν db db' s s')
    {arity i position : Nat} (ts : List Term) (hpos : 1 ≤ position)
    (hlen : position + ts.length ≤ arity + 1)
    (hmem : ⟨Schema.factTable arity, tableAlias s.number i⟩ ∈ s.sources)
    (hmem' : ⟨Schema.factTable arity, tableAlias s'.number i⟩ ∈ s'.sources) :
    Alike Eq (Scope.Advanced ν db db' s s')
      (c.matchColumns rule (tableAlias s.number i) position ts s)
      (c'.matchColumns rule (tableAlias s'.number i) position ts s') := by
  induction ts generalizing position s s' with
  | nil => exact .ok (.refl hs)
  | cons t ts ih =>
    rw [List.length_cons] at hlen
    refine (h.argument rule hs t).bind fun a a' ha ↦ ?_
    have hfield := Schema.argColumn_mem_factColumns hpos (by omega : position ≤ arity)
    have hcolumn := Expr.Recoded.tableColumn (ν := ν) hfield (ha.1.fst_mem hmem) (ha.1.snd_mem hmem')
    have hnext := ha.1.equate hcolumn ha.2
    have hrest := ih hnext.recoded (Nat.le_succ_of_le hpos) (by omega) (hnext.fst_mem hmem)
      (hnext.snd_mem hmem')
    -- The alias is made from the number of the scope, which is still the same.
    rw [hnext.grows.number_eq, hnext.grows'.number_eq] at hrest
    rw [ha.1.grows.number_eq, ha.1.grows'.number_eq] at hrest hnext
    exact hrest.imp fun t t' ht ↦ hnext.trans ht

/-- A goal on facts finds the same rows in both stores, in some order. -/
theorem addFacts (h : Twins ν db db' c c') (hs : Scope.Recoded ν db db' s s') {g : Goal}
    (hfacts : c.program.hasFacts g.symbol = true) :
    Alike Eq (Scope.Advanced ν db db' s s') (c.addFacts rule s g) (c'.addFacts rule s' g) := by
  have hid := h.symbols g.symbol
  simp only [Compiler.addFacts]
  generalize c.symbols.get? g.symbol = id, c'.symbols.get? g.symbol = id' at hid
  cases hid with
  | none => exact .error rfl
  | some hk =>
    have htable : Scope.Advanced ν db db' s s' (s.addTable g.args.length).2
        (s'.addTable g.args.length).2 :=
      ⟨hs.addTable h.stores (h.arities g.symbol hfacts), Scope.grows_addTable s _,
        Scope.grows_addTable s' _⟩
    have hmem : ∀ s : Scope, ⟨Schema.factTable g.args.length, tableAlias s.number s.tables⟩ ∈
        (s.addTable g.args.length).2.sources := fun s ↦ by simp [Scope.addTable]
    have hmem' := hmem s'
    rw [hs.tables] at hmem'
    have hfield : Schema.functorColumn ∈ Schema.factColumns g.args.length := by
      simp [Schema.factColumns]
    have hnext := htable.equate (.tableColumn hfield (hmem s) hmem') (.int hk)
    have hrest := h.matchColumns rule hnext.recoded g.args le_rfl (Nat.add_comm _ _).le (hmem s) hmem'
    simp only [Scope.addTable, hs.tables] at hnext hrest ⊢
    exact hrest.imp fun t t' ht ↦ hnext.trans ht

/-! ### Goals on rules -/

/-- A head binds its variables to expressions that mean the same. -/
theorem matchHead (h : Twins ν db db' c c') (hs : Scope.Recoded ν db db' s s') (key : Symbol)
    (pairs : List (Term × Term)) {b b' : Bindings} (hb : Bindings.Recoded ν s s' b b') :
    Alike Eq (fun a a' ↦ Bindings.Recoded ν a.2 a'.2 a.1 a'.1 ∧ Scope.Advanced ν db db' s s' a.2 a'.2)
      (c.matchHead rule key pairs b s) (c'.matchHead rule key pairs b' s') := by
  induction pairs generalizing b b' s s' with
  | nil => exact .ok ⟨hb, .refl hs⟩
  | cons pair pairs ih =>
    obtain ⟨head, arg⟩ := pair
    refine (h.argument rule hs arg).bind fun a a' ha ↦ ?_
    obtain ⟨hscope, hvalue⟩ := ha
    have hbindings := hb.mono hscope.grows hscope.grows'
    -- What the rest of the pairs leads to, from a scope that was reached by equations.
    have hrest : ∀ {t t' : Scope} {b b' : Bindings}, Scope.Advanced ν db db' s s' t t' →
        Bindings.Recoded ν t t' b b' →
        Alike Eq (fun a a' ↦
            Bindings.Recoded ν a.2 a'.2 a.1 a'.1 ∧ Scope.Advanced ν db db' s s' a.2 a'.2)
          (c.matchHead rule key pairs b t) (c'.matchHead rule key pairs b' t') :=
      fun ht hb ↦ (ih ht.recoded hb).imp fun _ _ hend ↦ ⟨hend.1, ht.trans hend.2⟩
    have hgrown : ∀ {x x' y y' : Expr}, Bindings.Recoded ν (a.2.equate x y) (a'.2.equate x' y') b b' :=
      hbindings.mono (Scope.grows_equate ..) (Scope.grows_equate ..)
    cases head with
    | var name =>
      have hprevious := hbindings.lookup (.rule key name)
      simp only
      generalize b.lookup (.rule key name) = x, b'.lookup (.rule key name) = x' at hprevious
      cases hprevious with
      | none => exact hrest hscope (hbindings.append _ hvalue)
      | some hx => exact hrest (hscope.equate hx hvalue) hgrown
    | const text =>
      exact (h.literal text).bind fun x x' hx ↦ hrest (hscope.equate hvalue (hx _ _)) hgrown
    | param name => exact hrest hscope hbindings

/-- Where two rules have fragments that find the same, so do the scopes that nest them. -/
theorem addRule (h : Twins ν db db' c c') (hs : Scope.Recoded ν db db' s s') (g : Goal)
    {f f' : Fragment} (hf : Fragment.Recoded ν db db' f f')
    (hscan : f.scan.WellScoped [] ∧ ∀ name ∈ f.scan.declared, Scope.Earlier s.number name)
    (hscan' : f'.scan.WellScoped [] ∧ ∀ name ∈ f'.scan.declared, Scope.Earlier s'.number name) :
    Alike Eq (Scope.Advanced ν db db' s s') (c.addRule rule s g f) (c'.addRule rule s' g f') := by
  simp only [Compiler.addRule, h.relations.rule?]
  cases c.program.rule? g.symbol with
  | none => exact .error rfl
  | some callee =>
    refine (h.matchHead rule hs g.symbol (callee.head.zip g.args) .nil).bind fun a a' ha ↦ .ok ?_
    obtain ⟨hb, hscope⟩ := ha
    rw [← hscope.grows.number_eq] at hscan
    rw [← hscope.grows'.number_eq] at hscan'
    exact hscope.trans ⟨hscope.recoded.requireExists hf hscan hscan' hb, Scope.grows_require ..,
      Scope.grows_require ..⟩

/-! ### All goals -/

/-- Both goals are compiled in the same way if the same has become of the rules they refer to. -/
theorem addGoal (h : Twins ν db db' c c') (hs : Scope.Recoded ν db db' s s') {g : Goal}
    (hg : AgreeOn ν db db' c c' g.symbol) (hc : c.CacheBefore s.number)
    (hc' : c'.CacheBefore s'.number) :
    Alike Eq (Scope.Advanced ν db db' s s') (c.addGoal rule s g) (c'.addGoal rule s' g) := by
  obtain ⟨hfragment, hfailure⟩ := hg
  have hscan := @CacheBefore.fragment c s.number hc g.symbol
  have hscan' := @CacheBefore.fragment c' s'.number hc' g.symbol
  simp only [Compiler.addGoal]
  generalize c.fragment? g.symbol = f, c'.fragment? g.symbol = f' at *
  cases hfragment with
  | some hf => exact h.addRule rule hs g hf (hscan rfl) (hscan' rfl)
  | none =>
    simp only [hfailure rfl, h.relations.rule?, h.relations.hasFacts, h.relations.definedArities]
    split
    · exact .error rfl
    · split
      · exact .error rfl
      · split
        · exact h.addFacts rule hs ‹_›
        · split <;> exact .error rfl

/-- By induction on the goals, this holds of all of them. -/
theorem addGoals (h : Twins ν db db' c c') (goals : List Goal) (hs : Scope.Recoded ν db db' s s')
    (hgoals : ∀ g ∈ goals, AgreeOn ν db db' c c' g.symbol) (hc : c.CacheBefore s.number)
    (hc' : c'.CacheBefore s'.number) :
    Alike Eq (Scope.Advanced ν db db' s s') (c.addGoals rule goals s)
      (c'.addGoals rule goals s') := by
  induction goals generalizing s s' with
  | nil => exact .ok (.refl hs)
  | cons g goals ih =>
    obtain ⟨hg, hgoals⟩ := List.forall_mem_cons.mp hgoals
    refine (h.addGoal rule hs hg hc hc').bind fun t t' ht ↦ ?_
    have hrest := ih ht.recoded hgoals (by rwa [ht.grows.number_eq]) (by rwa [ht.grows'.number_eq])
    exact hrest.imp fun _ _ hend ↦ ht.trans hend

/-- So what is compiled from goals finds the same. -/
theorem compileGoals (h : Twins ν db db' c c') {goals : List Goal}
    (hgoals : ∀ g ∈ goals, AgreeOn ν db db' c c' g.symbol) (hc : c.Scoped) (hc' : c'.Scoped)
    (names : List String) :
    Alike Eq (Fragment.Recoded ν db db') (c.compileGoals rule goals names).2
      (c'.compileGoals rule goals names).2 := by
  have hopened : Twins ν db db' c.openScope.2 c'.openScope.2 :=
    h.of_sameTask ⟨rfl, rfl, rfl⟩ ⟨rfl, rfl, rfl⟩
  have hadded := hopened.addGoals rule goals (.empty (c.scopes + 1) (c'.scopes + 1))
    (fun g hg ↦ ⟨(hgoals g hg).fragment, (hgoals g hg).failure⟩) hc hc'
  exact hadded.map fun t t' ht ↦ ht.recoded.finish names

end Twins

/-- A compiler has its own task. -/
theorem Twins.refl {c : Compiler} (db : Database)
    (harities : ∀ s, c.program.hasFacts s = true → s.arity ≤ Schema.maxArity) :
    Twins .same db db c c := by
  refine ⟨.refl _, rfl, fun s ↦ ?_, .refl db, harities⟩
  cases c.symbols.get? s with
  | none => exact .none
  | some id => exact .some rfl

/-! ### Rules -/

/-- A fragment of a rule, as it is built by some compiler for the same task, whose cache holds nothing
but such fragments. -/
inductive Built (c : Compiler) : Symbol → Fragment → Prop
  | rule {d : Compiler} {r : Rule} {s : Scope} (htask : SameTask c d) (hd : d.Scoped)
    (hcache : ∀ key fragment, d.fragment? key = some fragment → Built c key fragment)
    (hr : c.program.rule? r.key = some r)
    (hs : d.openScope.2.addGoals (some r) (c.policy.select r.body) d.openScope.1 = .ok s) :
    Built c r.key (s.finish (c.ruleNames r))

/-- The compiler has the task of `c`, and has compiled nothing but rules of the program. -/
structure Assembled (c d : Compiler) : Prop where
  task : SameTask c d
  wellScoped : d.Scoped
  cache : ∀ key fragment, d.fragment? key = some fragment → Built c key fragment

/-- Compiling a rule of the program adds a fragment that is built from earlier ones. -/
theorem Assembled.compileRule {c d : Compiler} (h : Assembled c d) {r : Rule}
    (hr : c.program.rule? r.key = some r) : Assembled c (d.compileRule r).1 := by
  refine ⟨h.task.trans (sameTask_compileRule d r), (scoped_compileRule h.wellScoped r).1,
    fun key fragment hfragment ↦ ?_⟩
  obtain ⟨_, -, heq⟩ | ⟨-, s, hs, heq⟩ | ⟨-, e, -, heq⟩ := compileRule_cases d r
  · rw [heq] at hfragment
    exact h.cache key fragment hfragment
  · rw [heq, fragment?, lookup_append_singleton, Option.or_eq_some_iff] at hfragment
    obtain hold | ⟨-, hnew⟩ := hfragment
    · exact h.cache key fragment hold
    · rw [Option.ite_none_right_eq_some] at hnew
      obtain ⟨rfl, hnew⟩ := hnew
      have hnames : c.ruleNames r = d.ruleNames r := by rw [ruleNames, ruleNames, h.task.policy]
      rw [← Option.some_inj.mp hnew, ← hnames]
      exact .rule h.task h.wellScoped h.cache hr (h.task.policy ▸ hs)
  · rw [heq] at hfragment
    exact h.cache key fragment hfragment

/-- Opening scopes changes nothing in the cache. -/
theorem Assembled.later {c d : Compiler} (h : Assembled c d) (scopes : Nat) :
    Assembled c (d.later scopes) :=
  ⟨h.task.trans ⟨rfl, rfl, rfl⟩, h.wellScoped.later scopes, h.cache⟩

/-- So resolution leaves an assembled cache, in whatever order it compiled the rules. -/
theorem Assembled.resolve {c : Compiler} (h : Assembled c c) (hp : c.program.Closed) (maxPasses : Nat) :
    Assembled c (c.resolve maxPasses).compiler := by
  refine resolve_induction (P := Assembled c) (fun d r hr hd ↦ hd.compileRule ?_)
    (fun d key reason hd ↦ ⟨hd.task.trans (sameTask_markFailed d key reason), hd.wellScoped, hd.cache⟩)
    h maxPasses
  rw [hd.task.program] at hr
  exact Program.rule?_of_mem hp hr

namespace Twins

variable {c c' d d' : Compiler}

/-- Where both compilers take a goal, and all compiled rules agree, they agree on the goal. -/
theorem agreeOn_of_admits (h : Twins ν db db' c c') {g : Goal} (hg : c.Admits g) (hg' : c'.Admits g)
    (hcache : ∀ f f', c.fragment? g.symbol = some f → c'.fragment? g.symbol = some f' →
      Fragment.Recoded ν db db' f f') : AgreeOn ν db db' c c' g.symbol := by
  obtain ⟨-, ⟨f, r, hf, hr, -⟩ | ⟨hf, hfailure, hr, -⟩⟩ := hg
  · obtain ⟨-, ⟨f', r', hf', -, -⟩ | ⟨-, -, hr', -⟩⟩ := hg'
    · refine ⟨?_, fun hnone ↦ ?_⟩
      · rw [hf, hf']
        exact .some (hcache f f' hf hf')
      · rw [hf] at hnone
        cases hnone
    · rw [h.relations.rule?, hr] at hr'
      cases hr'
  · obtain ⟨-, ⟨f', r', -, hr', -⟩ | ⟨hf', hfailure', -, -⟩⟩ := hg'
    · rw [h.relations.rule?, hr] at hr'
      cases hr'
    · refine ⟨?_, fun _ ↦ hfailure'.trans hfailure.symm⟩
      rw [hf, hf']
      exact .none

/-- Any two fragments of a rule find the same. The induction is on how the first one was built. -/
theorem built (h : Twins ν db db' c c') {key : Symbol} {f f' : Fragment} (hf : Built c key f)
    (hf' : Built c' key f') : Fragment.Recoded ν db db' f f' := by
  induction hf generalizing f' with
  | @rule d r s htask hd hcache hr hs ih =>
    generalize hkey : r.key = key at hf'
    cases hf' with
    | @rule d' r' s' htask' hd' hcache' hr' hs' =>
      -- A key has one rule in both programs, and it is the same one.
      have hrule : r' = r := by
        rw [h.relations.rule?, ← hkey, hr] at hr'
        exact (Option.some_inj.mp hr').symm
      subst hrule
      rw [h.policy] at hs'
      have hopened : Twins ν db db' d.openScope.2 d'.openScope.2 :=
        h.of_sameTask (htask.trans ⟨rfl, rfl, rfl⟩) (htask'.trans ⟨rfl, rfl, rfl⟩)
      -- Each goal of the body is answered alike, by the facts or by what was cached for its key.
      have hgoals : ∀ g ∈ c.policy.select r'.body,
          AgreeOn ν db db' d.openScope.2 d'.openScope.2 g.symbol := fun g hg ↦
        hopened.agreeOn_of_admits (addGoals_isOk_iff.mp ⟨s, hs⟩ g hg)
          (addGoals_isOk_iff.mp ⟨s', hs'⟩ g hg) fun f f' hf hf' ↦
            ih g.symbol f hf (hcache' g.symbol f' hf')
      have hadded : Alike Eq _ (d.openScope.2.addGoals (some r') _ d.openScope.1)
          (d'.openScope.2.addGoals (some r') _ d'.openScope.1) :=
        hopened.addGoals (some r') (c.policy.select r'.body)
          (.empty (d.scopes + 1) (d'.scopes + 1)) hgoals hd hd'
      have hnames : c'.ruleNames r' = c.ruleNames r' := by rw [ruleNames, ruleNames, h.policy]
      rw [hs, hs'] at hadded
      rw [hnames]
      exact hadded.ok_inv.recoded.finish _

/-- Compilers that have compiled the same rules, and failed at the same rules for the same reasons,
agree on all of them. -/
theorem agreeOn (h : Twins ν db db' c c') (hd : Assembled c d) (hd' : Assembled c' d') {key : Symbol}
    (hcompiled : d'.isCompiled key = d.isCompiled key)
    (hfailure : d'.failures.lookup key = d.failures.lookup key) : AgreeOn ν db db' d d' key := by
  refine ⟨?_, fun _ ↦ hfailure⟩
  simp only [isCompiled] at hcompiled
  cases hf : d.fragment? key with
  | none =>
    rw [hf, Option.isSome_none, Option.isSome_eq_false_iff, Option.isNone_iff_eq_none] at hcompiled
    rw [hcompiled]
    exact .none
  | some f =>
    rw [hf, Option.isSome_some, Option.isSome_iff_exists] at hcompiled
    obtain ⟨f', hf'⟩ := hcompiled
    rw [hf']
    exact .some (h.built (hd.cache key f hf) (hd'.cache key f' hf'))

end Twins

end Compiler

/-! ### Queries -/

/-- The compiled queries have fragments that find the same, with the same texts for placeholders. -/
structure CompiledQuery.Recoded (ν : Recoding) (db db' : Database) (q q' : CompiledQuery) : Prop where
  fragment : Fragment.Recoded ν db db' q.fragment q'.fragment
  bindings : q'.bindings = q.bindings
  unsatisfiable : q'.unsatisfiable = q.unsatisfiable

/-- Parameters may be put in place of placeholders. -/
theorem Fragment.Recoded.existence {f f' : Fragment} (h : Fragment.Recoded ν db db' f f')
    {b : Bindings} (hb : ∀ entry ∈ b, ∃ x, entry.2 = .param (.external x)) :
    Fragment.Recoded ν db db' ⟨f.scan.substitute b, .existence⟩ ⟨f'.scan.substitute b, .existence⟩ := by
  have hscans : f'.scan.outline = f.scan.outline := congrArg Fragment.scan h.outline
  have havoid : ∀ aliases, b.Avoid aliases := by
    intro aliases entry hentry source field hcolumn
    obtain ⟨x, hx⟩ := hb entry hentry
    rw [hx] at hcolumn
    cases hcolumn
  have hrecoded : Bindings.Recoded ν ⟨0, 0, [], [], []⟩ ⟨0, 0, [], [], []⟩ b b := by
    refine List.forall₂_same.mpr fun entry hentry ↦ ⟨rfl, ?_⟩
    obtain ⟨x, hx⟩ := hb entry hentry
    rw [hx]
    exact .param _
  refine ⟨?_, fun env env' henv ↦ ?_, fun columns hcolumns ↦ ?_⟩
  · simp only [Fragment.outline, Scan.outline_substitute, hscans]
  · simp only [Scan.holds_substitute _ (havoid _)]
    exact h.holds _ _ (hrecoded.rebind (.empty henv 0 0))
  · cases hcolumns

namespace Compiler.Twins

variable {c c' : Compiler}

/-- A query is made from the cache in both compilers or in none, and finds the same. -/
theorem reuse (h : Twins ν db db' c c') {g : Goal} (hg : AgreeOn ν db db' c c' g.symbol) :
    Option.Rel (CompiledQuery.Recoded ν db db') (c.reuse g) (c'.reuse g) := by
  have hfragment := hg.fragment
  simp only [Compiler.reuse, h.relations.rule?]
  cases c.program.rule? g.symbol with
  | none => exact .none
  | some r =>
    simp only [Option.bind_eq_bind, Option.bind_some]
    cases hm : (r.head.zip g.args).foldlM (HeadMatch.step? g.symbol) {} with
    | none => exact .none
    | some m =>
      simp only [Option.bind_some]
      generalize c.fragment? g.symbol = f, c'.fragment? g.symbol = f' at hfragment
      cases hfragment with
      | none => exact .none
      | some hf => exact .some ⟨hf.existence (HeadMatch.external_isParam hm), rfl, rfl⟩

theorem reuse? (h : Twins ν db db' c c') {goals : List Goal}
    (hgoals : ∀ g ∈ goals, AgreeOn ν db db' c c' g.symbol) :
    Option.Rel (CompiledQuery.Recoded ν db db') (c.reuse? goals) (c'.reuse? goals) := by
  obtain _ | ⟨g, _ | ⟨g', goals⟩⟩ := goals
  · exact .none
  · have hg := hgoals g (List.mem_singleton_self g)
    have hcompiled : c'.isCompiled g.symbol = c.isCompiled g.symbol := by
      have hfragment := hg.fragment
      simp only [isCompiled]
      generalize c.fragment? g.symbol = f, c'.fragment? g.symbol = f' at hfragment
      cases hfragment <;> rfl
    simp only [Compiler.reuse?, hcompiled]
    split
    · exact h.reuse hg
    · exact .none
  · exact .none

/-- Whichever way a query is compiled, what comes out finds the same in both stores. -/
theorem compileQuery (h : Twins ν db db' c c') {q : Query}
    (hgoals : ∀ g ∈ c.policy.select q.goals, AgreeOn ν db db' c c' g.symbol) (hc : c.Scoped)
    (hc' : c'.Scoped) :
    Alike Eq (CompiledQuery.Recoded ν db db') (c.compileQuery q).2 (c'.compileQuery q).2 := by
  have hreused := h.reuse? hgoals
  simp only [Compiler.compileQuery, h.policy]
  generalize c.reuse? (c.policy.select q.goals) = x, c'.reuse? (c.policy.select q.goals) = x'
    at hreused
  cases hreused with
  | some hq => exact .ok hq
  | none => exact (h.compileGoals none hgoals hc hc' _).map fun f f' hf ↦ ⟨hf, rfl, rfl⟩

end Compiler.Twins

end HornQuery
