import Mathlib
import HornQuery.Proofs.Failures
import HornQuery.Proofs.Renumbering
import HornQuery.Proofs.Reordering.Resolution

/-!
# Queries that do not compile

Once the rules of a program are resolved, the report of the resolution says which goals can be used: a
goal on a compiled rule, or on a fact relation that no rule shadows (`Program.Usable`). A query of the
program compiles exactly if all of its goals that take part can be used. Otherwise its error is about
the first goal that cannot, and the report and the definitions of the program determine it
(`Program.Rejects`, `Program.Rejects.unique`).

Queries do not get in each other's way (`Compiler.exists_afterQueries_eq`): compiling one opens a scope
at most, and opened scopes show only in the aliases of the SQL.
-/

namespace HornQuery

/-! ### What the report says -/

namespace Program

variable {p : Program} {report : ResolutionReport} {s : Symbol} {g : Goal}

/-- What became of the rule with this key. A report lists the rules in order of declaration. -/
def outcome? (p : Program) (report : ResolutionReport) (s : Symbol) : Option RuleOutcome :=
  ((p.rules.zip report.rules).find? fun entry ↦ entry.1.key = s).map fun entry ↦ entry.2.outcome

/-- The relation is a compiled rule, or it has facts and there is no rule for it. -/
def Usable (p : Program) (report : ResolutionReport) (s : Symbol) : Prop :=
  (∃ pass, p.outcome? report s = some (.compiled pass)) ∨
    (p.rule? s = none ∧ ∃ f ∈ p.facts, f.symbol = s)

/-- The error of a goal that cannot be used. A failed rule passes its reason on, also where there are
facts for the same relation. Without a rule, the error lists the arities that the name is defined with,
or says that there are none. -/
inductive Rejects (p : Program) (report : ResolutionReport) (g : Goal) : CompileError → Prop
  | failedRule {reason : String} (h : p.outcome? report g.symbol = some (.failed reason)) :
    Rejects p report g (.ruleFailed g.symbol reason)
  | wrongArity {defined : List Nat} (hrule : p.rule? g.symbol = none) (hne : defined ≠ [])
    (hsorted : defined.Pairwise (· < ·)) (hmem : ∀ n, n ∈ defined ↔ p.Defines ⟨g.functor, n⟩) :
    Rejects p report g (.arityMismatch g.symbol defined)
  | unknown (h : p.Undefined g.symbol) : Rejects p report g (.unknownRelation g.symbol)

/-- Without a rule there is no outcome. -/
theorem outcome?_eq_none (h : p.rule? s = none) : p.outcome? report s = none := by
  rw [outcome?, Option.map_eq_none_iff, List.find?_eq_none]
  intro entry hentry
  have hkeys := List.find?_eq_none.mp h
  exact hkeys entry.1 (List.of_mem_zip hentry).1

theorem Undefined.rule?_eq_none (h : p.Undefined s) : p.rule? s = none :=
  rule?_eq_none_iff.mpr fun hrule ↦ h s.arity (Or.inr hrule)

/-- A goal has one error at most. -/
theorem Rejects.unique {e e' : CompileError} (h : p.Rejects report g e) (h' : p.Rejects report g e') :
    e = e' := by
  -- A rule with an outcome excludes the other two errors, and those exclude each other.
  have hfailed : ∀ {reason}, p.outcome? report g.symbol = some (.failed reason) →
      p.rule? g.symbol ≠ none := fun hreason hnone ↦ by
    rw [outcome?_eq_none hnone] at hreason
    cases hreason
  have hdefined : ∀ {defined : List Nat}, defined ≠ [] →
      (∀ n, n ∈ defined ↔ p.Defines ⟨g.functor, n⟩) → ¬ p.Undefined g.symbol := fun hne hmem hnone ↦ by
    obtain ⟨n, hn⟩ := List.exists_mem_of_ne_nil _ hne
    exact hnone n ((hmem n).mp hn)
  cases h with
  | failedRule h =>
    cases h' with
    | failedRule h' =>
      obtain ⟨⟩ := h.symm.trans h'
      rfl
    | wrongArity hrule => exact absurd hrule (hfailed h)
    | unknown hnone => exact absurd hnone.rule?_eq_none (hfailed h)
  | wrongArity hrule hne hsorted hmem =>
    cases h' with
    | failedRule h' => exact absurd hrule (hfailed h')
    | wrongArity _ _ hsorted' hmem' =>
      have hsame : ∀ n, n ∈ _ ↔ n ∈ _ := fun n ↦ (hmem n).trans (hmem' n).symm
      rw [List.Pairwise.eq_of_mem_iff hsorted hsorted' hsame]
    | unknown hnone => exact absurd hnone (hdefined hne hmem)
  | unknown hnone =>
    cases h' with
    | failedRule h' => exact absurd hnone.rule?_eq_none (hfailed h')
    | wrongArity _ hne _ hmem => exact absurd hnone (hdefined hne hmem)
    | unknown _ => rfl

end Program

/-! ### Goals after a resolution -/

namespace Resolution

open Program

/-- All rules are settled, the compiler has kept the result, and the report lists it. -/
structure Settled (p : Program) (policy : BodyPolicy) (report : ResolutionReport) (n : Nat)
    (f : Rule → RuleState) (c : Compiler) : Prop where
  tracks : Tracks p policy f c (p.statesOf f)
  after : ∀ r ∈ p.rules, p.StateAfter policy n r (f r)
  settled : ∀ r ∈ p.rules, f r ≠ .pending
  report : report.rules = p.rules.map fun r ↦ ⟨r.key.display, outcome (f r)⟩

variable {p : Program} {policy : BodyPolicy} {report : ResolutionReport} {n : Nat}
  {f : Rule → RuleState} {c : Compiler} {g : Goal}

/-- After a successful resolution all rules are settled. -/
theorem exists_settled (hp : p.Closed) {maxPasses : Nat}
    (h : ((p.compiler policy).resolve maxPasses).report = .ok report) :
    ∃ f, Settled p policy report maxPasses f ((p.compiler policy).resolve maxPasses).compiler := by
  obtain ⟨f, q, hreached, hafter, hcompiler, ⟨-, e, herror⟩ | ⟨hsettled, hok⟩⟩ :=
    reached_resolve hp policy maxPasses
  · cases h.symm.trans herror
  · obtain rfl := Except.ok.inj (h.symm.trans hok)
    refine ⟨f, ?_, hafter, hsettled, rfl⟩
    rw [hcompiler, ← hreached.tracks.states]
    exact hreached.tracks

/-- Opening scopes leaves everything settled. -/
theorem Settled.later (h : Settled p policy report n f c) (scopes : Nat) :
    Settled p policy report n f (c.later scopes) where
  tracks := ⟨h.tracks.toWorksOn.of_sameTask ⟨rfl, rfl, rfl⟩, rfl, h.tracks.cache,
    h.tracks.failures⟩
  after := h.after
  settled := h.settled
  report := h.report

/-- The outcome of a rule in the report is that of its state. -/
theorem Settled.outcome?_eq (h : Settled p policy report n f c) (s : Symbol) :
    p.outcome? report s = (p.rule? s).map fun r ↦ outcome (f r) := by
  rw [outcome?, h.report, ← List.map_prod_left_eq_zip, List.find?_map, Option.map_map]
  rfl

/-- What the report calls usable is in the cache or among the facts. -/
theorem Settled.usable_iff (h : Settled p policy report n f c) (hp : p.Closed) (s : Symbol) :
    p.Usable report s ↔ c.isCompiled s = true ∨ (p.rule? s = none ∧ p.hasFacts s = true) := by
  rw [Usable, h.tracks.cache, hp.hasFacts_iff, h.outcome?_eq]
  refine or_congr_left ?_
  simp only [Option.map_eq_some_iff]
  constructor
  · rintro ⟨pass, r, hr, houtcome⟩
    refine ⟨r, pass, hr, ?_⟩
    cases hstate : f r with
    | compiled m =>
      rw [hstate] at houtcome
      obtain ⟨⟩ := houtcome
      rfl
    | failed reason =>
      rw [hstate] at houtcome
      cases houtcome
    | pending => exact absurd hstate (h.settled r (mem_of_rule? hr))
  · rintro ⟨r, pass, hr, hstate⟩
    exact ⟨pass, r, hr, by rw [hstate]; rfl⟩

/-- A goal whose constants have numbers compiles exactly if its relation can be used. -/
theorem Settled.admits_iff (h : Settled p policy report n f c) (hp : p.Closed) (hg : c.Knows g) :
    c.Admits g ↔ p.Usable report g.symbol := by
  rw [h.usable_iff hp]
  constructor
  · rintro ⟨-, ⟨fragment, r, hfragment, -⟩ | ⟨-, -, hrule, hfacts, -⟩⟩
    · exact Or.inl (by simp [Compiler.isCompiled, hfragment])
    · rw [h.tracks.program] at hrule hfacts
      exact Or.inr ⟨hrule, hfacts⟩
  · rintro (hcompiled | ⟨hrule, hfacts⟩)
    · obtain ⟨r, hr⟩ := h.tracks.serves.cache _ hcompiled
      refine h.tracks.serves.admits_of_known hp hg.args (fun _ _ ↦ hcompiled) fun hnone ↦ ?_
      cases hnone.symm.trans hr
    · refine h.tracks.serves.admits_of_known hp hg.args (fun r hr ↦ ?_) fun _ ↦ hfacts
      cases hrule.symm.trans hr

/-- The state of a faulty rule records its first fault, and there is only one. -/
theorem Settled.eq_failed (h : Settled p policy report n f c) (hp : p.Closed) {r : Rule}
    (hr : r ∈ p.rules) {fault : Goal} (hfault : p.FirstFault policy r fault) :
    f r = .failed (p.arityFault fault).message := by
  have hafter := h.after r hr
  have hsettled := h.settled r hr
  generalize f r = state at hafter hsettled ⊢
  obtain ⟨-, hheight⟩ | ⟨-, hfault'⟩ | _ := hafter
  · exact absurd hfault.faulty (hheight.not_faulty (rule?_of_mem hp hr))
  · rw [hfault.unique hfault']
  · exact absurd rfl hsettled

/-- The error of a goal is the one that the report and the definitions determine. -/
theorem Settled.rejects (h : Settled p policy report n f c) (hp : p.Closed) (hg : c.Knows g)
    {rule : Option Rule} {s : Scope} {e : CompileError} (herror : c.addGoal rule s g = .error e) :
    p.Rejects report g e := by
  obtain hwrong | hnone | @⟨r, fault, hr, hfault⟩ :=
    h.tracks.addGoal_eq_error hp h.after h.settled hg herror
  · obtain ⟨hrule, -, hne⟩ := wrongArity_iff.mp hwrong
    refine .wrongArity hrule hne ?_ fun n ↦ mem_definedArities
    exact (p.pairwise_definedArities _).imp₂ (fun a b hle hdiff ↦ lt_of_le_of_ne hle hdiff)
      (p.nodup_definedArities _)
  · exact .unknown hnone
  · refine .failedRule ?_
    rw [h.outcome?_eq, hr, Option.map_some, h.eq_failed hp (mem_of_rule? hr) hfault]
    rfl

/-- The constants in a query of the program have numbers. -/
theorem Settled.knows (h : Settled p policy report n f c) (hp : p.Closed) {q : Query}
    (hq : q ∈ p.queries) (hg : g ∈ policy.select q.goals) : c.Knows g :=
  Compiler.knows_of_closed hp h.tracks.program h.tracks.symbols fun text htext ↦
    mem_constants.mpr (hp.queries q hq g (BodyPolicy.mem_of_mem_select hg) _ htext text rfl)

end Resolution

/-! ### Queries after a resolution -/

namespace Compiler

/-- The compiler after it has been asked to compile some queries. -/
def afterQueries (c : Compiler) (queries : List Query) : Compiler :=
  queries.foldl (fun c q ↦ (c.compileQuery q).1) c

/-- Queries open scopes and change nothing else, whether they compile or not. -/
theorem exists_afterQueries_eq (c : Compiler) (queries : List Query) :
    ∃ n, c.afterQueries queries = c.later n := by
  induction queries using List.reverseRecOn with
  | nil => exact ⟨0, rfl⟩
  | append_singleton queries q ih =>
    obtain ⟨n, hn⟩ := ih
    rw [afterQueries, List.foldl_append]
    show ∃ m, ((c.afterQueries queries).compileQuery q).1 = c.later m
    rw [hn]
    exact c.compileQuery_fst_later n q

end Compiler

namespace Resolution

open Compiler

variable {p : Program} {policy : BodyPolicy} {report : ResolutionReport} {n : Nat}
  {f : Rule → RuleState} {c : Compiler} {q : Query}

/-- A query that compiles has no other goals than usable ones, whether it comes from the cache or not. -/
theorem Settled.usable_of_compileQuery (h : Settled p policy report n f c) (hp : p.Closed)
    (hq : q ∈ p.queries) {compiled : CompiledQuery} (hok : (c.compileQuery q).2 = .ok compiled) :
    ∀ g ∈ policy.select q.goals, p.Usable report g.symbol := by
  intro g hg
  rw [← h.tracks.policy] at hg
  obtain ⟨cached, hreuse, -⟩ | ⟨-, heq⟩ := c.compileQuery_cases q
  · obtain ⟨only, hgoals, -, hcompiled, -⟩ := reuse?_eq_some hreuse
    rw [hgoals, List.mem_singleton] at hg
    rw [hg, h.usable_iff hp]
    exact Or.inl hcompiled
  · rw [heq] at hok
    obtain ⟨fragment, hfragment, -⟩ := except_map_eq_ok hok
    obtain ⟨s, hs, -⟩ := compileGoals_eq_ok hfragment
    have hadmits : (c.later 1).Admits g := addGoals_isOk_iff.mp ⟨s, hs⟩ g hg
    rw [h.tracks.policy] at hg
    exact ((h.later 1).admits_iff hp ((h.later 1).knows hp hq hg)).mp hadmits

/-- A query that does not compile has a goal that cannot be used, and fails because of the first. -/
theorem Settled.compileQuery_eq_error (h : Settled p policy report n f c) (hp : p.Closed)
    (hq : q ∈ p.queries) {e : CompileError} (herror : (c.compileQuery q).2 = .error e) :
    ∃ g, IsFirst (fun g ↦ ¬ p.Usable report g.symbol) (policy.select q.goals) g ∧
      p.Rejects report g e := by
  obtain ⟨compiled, -, heq⟩ | ⟨-, heq⟩ := c.compileQuery_cases q <;> rw [heq] at herror
  · cases herror
  · obtain ⟨g, s, hfirst, hgoal⟩ :=
      addGoals_eq_error (except_map_eq_error (except_map_eq_error herror))
    rw [h.tracks.policy] at hfirst
    have hknows : ∀ g ∈ policy.select q.goals, (c.later 1).Knows g := fun _ ↦ (h.later 1).knows hp hq
    refine ⟨g, hfirst.congr fun g hg ↦ not_congr ((h.later 1).admits_iff hp (hknows g hg)), ?_⟩
    exact (h.later 1).rejects hp (hknows g hfirst.mem) hgoal

/-- A query fails to compile exactly if one of its goals cannot be used. -/
theorem Settled.compileQuery_fails_iff (h : Settled p policy report n f c) (hp : p.Closed)
    (hq : q ∈ p.queries) : (∃ e, (c.compileQuery q).2 = .error e) ↔
      ∃ g ∈ policy.select q.goals, ¬ p.Usable report g.symbol := by
  constructor
  · rintro ⟨e, he⟩
    obtain ⟨g, hfirst, -⟩ := h.compileQuery_eq_error hp hq he
    exact exists_isFirst_iff.mp ⟨g, hfirst⟩
  · rintro ⟨g, hg, hunusable⟩
    cases hresult : (c.compileQuery q).2 with
    | error e => exact ⟨e, rfl⟩
    | ok compiled => exact absurd (h.usable_of_compileQuery hp hq hresult g hg) hunusable

/-- There is one first goal that cannot be used, and one error for it. -/
theorem Settled.compileQuery_eq_error_iff (h : Settled p policy report n f c) (hp : p.Closed)
    (hq : q ∈ p.queries) {e : CompileError} : (c.compileQuery q).2 = .error e ↔
      ∃ g, IsFirst (fun g ↦ ¬ p.Usable report g.symbol) (policy.select q.goals) g ∧
        p.Rejects report g e := by
  refine ⟨h.compileQuery_eq_error hp hq, ?_⟩
  rintro ⟨g, hfirst, hrejects⟩
  obtain ⟨e', he'⟩ := (h.compileQuery_fails_iff hp hq).mpr (exists_isFirst_iff.mp ⟨g, hfirst⟩)
  obtain ⟨g', hfirst', hrejects'⟩ := h.compileQuery_eq_error hp hq he'
  obtain rfl := hfirst.unique hfirst'
  rw [he', hrejects.unique hrejects']

end Resolution

/-! ### The theorem -/

namespace Program

open Resolution

variable {p : Program} {c d : Compiler} {report : ResolutionReport} {q : Query}

/-- **The errors of queries are exact, and queries leave no traces.** Let the rules of a collected program
be resolved by a fresh compiler over its own symbols, and let any queries be compiled after that. A query
of the program then fails to compile exactly if one of its goals that take part can not be used; the
error is the one of the first such goal, and instead of ending the run it becomes the answer. Had other
queries been compiled before, then the cache and the recorded failures would be the same, and any query
would have the same result up to the numbers of scopes in its aliases, and so the same answer up to
these numbers in its SQL. -/
theorem compileQuery_exact (hp : p.Collected) (policy : BodyPolicy) {maxPasses : Nat}
    (hreport : ((p.compiler policy).resolve maxPasses).report = .ok report)
    (hc : c = ((p.compiler policy).resolve maxPasses).compiler) (earlier : List Query)
    (hd : d = c.afterQueries earlier) (hq : q ∈ p.queries) :
    ((∃ e, (d.compileQuery q).2 = .error e) ↔
        ∃ g ∈ policy.select q.goals, ¬ p.Usable report g.symbol) ∧
      (∀ e, (d.compileQuery q).2 = .error e ↔
        ∃ g, IsFirst (fun g ↦ ¬ p.Usable report g.symbol) (policy.select q.goals) g ∧
          p.Rejects report g e) ∧
      (∀ e, (d.compileQuery q).2 = .error e → (Error.compile e).isFatal = false ∧
        ∀ config store, (d.answer config store q).outcomes =
          .ok [⟨q.text, none, .error e.message⟩]) ∧
      ∀ (others : List Query) (d' : Compiler), d' = c.afterQueries others →
        d'.fragments = d.fragments ∧ d'.failures = d.failures ∧
        ∀ next : Query,
          (∃ σ : Equiv.Perm Nat,
            (d'.compileQuery next).2 = (d.compileQuery next).2.map (CompiledQuery.renumber σ)) ∧
          ∀ config store,
            (d'.answer config store next).outcomes.map (List.map Outcome.withoutSql) =
              (d.answer config store next).outcomes.map (List.map Outcome.withoutSql) := by
  have hclosed := hp.closed
  obtain ⟨m, hm⟩ := c.exists_afterQueries_eq earlier
  obtain ⟨f, hsettled⟩ := exists_settled hclosed hreport
  rw [hm] at hd
  have hfresh := hsettled.later m
  rw [← hc, ← hd] at hfresh
  refine ⟨hfresh.compileQuery_fails_iff hclosed hq,
    fun e ↦ hfresh.compileQuery_eq_error_iff hclosed hq, fun e he ↦ ⟨rfl, fun config store ↦ ?_⟩, ?_⟩
  · obtain ⟨-, ⟨e', he', hanswer⟩ | ⟨compiled, sql, hok, -⟩⟩ := d.answer_cases config store q
    · rw [hanswer, Except.error.inj (he.symm.trans he')]
    · cases he.symm.trans hok
  · rintro others d' rfl
    obtain ⟨k, hk⟩ := c.exists_afterQueries_eq others
    have hempty : (p.compiler policy).Scoped := fun _ hentry ↦ absurd hentry List.not_mem_nil
    have hscoped : c.Scoped := hc ▸ Compiler.scoped_resolve hempty maxPasses
    rw [hk, hd]
    exact ⟨rfl, rfl, fun next ↦ ⟨⟨_, Compiler.compileQuery_renumber hscoped m k next⟩,
      fun config store ↦ Compiler.answer_renumber hscoped m k config store next⟩⟩

/-- A query on a rule that compiles. -/
def hopQuery : Query := ⟨[⟨"hop", [.const "a", .var "X"]⟩], "hop(a, X)"⟩

/-- A query whose last two goals cannot be used. -/
def oddQuery : Query :=
  ⟨[⟨"hop", [.var "X", .var "Y"]⟩, ⟨"odd", [.var "X"]⟩, ⟨"lost", [.var "X"]⟩],
    "hop(X, Y), odd(X), lost(X)"⟩

/-- A rule that fails although there are facts for its relation, and another rule that compiles. -/
def oddProgram : Program where
  symbols := [⟨"edge", 2⟩, .constant "a", .constant "b", ⟨"odd", 1⟩]
  vars := ["X", "Y"]
  occurrences :=
    [(⟨"edge", 2⟩, ["a", "b"]), (⟨"odd", 1⟩, ["a"]), (⟨"odd", 1⟩, ["X"]), (⟨"edge", 1⟩, ["X"]),
      (⟨"hop", 2⟩, ["X", "Y"]), (⟨"edge", 2⟩, ["X", "Y"]), (⟨"hop", 2⟩, ["a", "X"]),
      (⟨"hop", 2⟩, ["X", "Y"]), (⟨"odd", 1⟩, ["X"]), (⟨"lost", 1⟩, ["X"])]
  facts := [⟨"edge", ["a", "b"]⟩, ⟨"odd", ["a"]⟩]
  relations := [⟨"edge", 2⟩, ⟨"odd", 1⟩]
  rules :=
    [⟨"odd", [.var "X"], [⟨"edge", [.var "X"]⟩]⟩,
      ⟨"hop", [.var "X", .var "Y"], [⟨"edge", [.var "X", .var "Y"]⟩]⟩]
  queries := [hopQuery, oddQuery]

theorem parse_oddProgram :
    Program.parse ("edge(a, b). odd(a). odd(X) :- edge(X). hop(X, Y) :- edge(X, Y). " ++
      "?- hop(a, X). ?- hop(X, Y), odd(X), lost(X).") = .ok ⟨oddProgram, 6, 0⟩ := by
  decide +kernel

/-- The first of two goals that cannot be used is on the failed rule. The query with these goals may be
compiled before the other one, which then differs in its aliases only. -/
theorem compileQuery_exact_odd :
    (((oddProgram.compiler .joinAll).resolve 1).compiler.compileQuery oddQuery).2 =
        .error (.ruleFailed ⟨"odd", 1⟩
          "Arity mismatch: edge/1 used, but edge is defined with arity [2]") ∧
      ∃ σ : Equiv.Perm Nat,
        ((((oddProgram.compiler .joinAll).resolve 1).compiler.afterQueries [oddQuery]).compileQuery
            hopQuery).2 =
          (((oddProgram.compiler .joinAll).resolve 1).compiler.compileQuery hopQuery).2.map
            (CompiledQuery.renumber σ) := by
  have hreport : ((oddProgram.compiler .joinAll).resolve 1).report =
      .ok ⟨1, [⟨"odd/1", .failed "Arity mismatch: edge/1 used, but edge is defined with arity [2]"⟩,
        ⟨"hop/2", .compiled 1⟩]⟩ := by decide +kernel
  have hmem : oddQuery ∈ oddProgram.queries := List.mem_cons_of_mem _ List.mem_cons_self
  obtain ⟨-, herror, -, hothers⟩ :=
    compileQuery_exact (collected_of_parse parse_oddProgram) .joinAll hreport rfl [] rfl hmem
  obtain ⟨-, -, hnext⟩ := hothers [oddQuery] _ rfl
  refine ⟨(herror _).mpr ⟨⟨"odd", [.var "X"]⟩, ?_, .failedRule rfl⟩, (hnext hopQuery).1⟩
  refine ⟨[⟨"hop", [.var "X", .var "Y"]⟩], [⟨"lost", [.var "X"]⟩], rfl, ?_, ?_⟩
  · intro g hg
    rw [List.mem_singleton.mp hg, not_not]
    exact Or.inl ⟨1, rfl⟩
  · rintro (⟨pass, hpass⟩ | ⟨hnone, -⟩)
    · cases hpass
    · cases hnone

end Program

end HornQuery
