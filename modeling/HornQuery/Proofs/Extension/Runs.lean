import Mathlib
import HornQuery.Proofs.Extension.Evaluation
import HornQuery.Proofs.Reordering.Runs

/-!
# Asking more

Queries can be added to a program, with constants that it did not have. The rules are resolved as before,
and the queries that were there are compiled as before. What is new is in the database: more constants,
from which every variable is drawn, and numbers for texts that parameters may be configured as. In a safe
program none of this reaches an answer (`Program.run_addQueries`).

Safety is needed. A rule such as `any(X) :- edge(a)` leaves `X` open, so that `any(X)` lists all constants,
including those that only another query mentions.
-/

namespace HornQuery

namespace Compiler

variable {c : Compiler} {p p' : Program} {policy : BodyPolicy}

/-- The queries of a safe program are answered as they are in a wider program that asks more. -/
theorem answerAll_widened (hc : c.Reliable p policy) (hpins : c.Pinning p policy)
    (hsteady : c.Steady p p') (h : p.Widened p') (config : Config) {queries added : List Query}
    (hqueries : ∀ q ∈ queries, q.Known p.symbols) (scopes : Nat) {outcomes outcomes' : List Outcome}
    (hanswers : ((c.later scopes).answerAll config ⟨some p.database⟩ queries).outcomes = .ok outcomes)
    (hanswers' : (((c.later scopes).onto p').answerAll config ⟨some p'.database⟩
      (queries ++ added)).outcomes = .ok outcomes') : outcomes <+: outcomes' := by
  induction queries generalizing scopes outcomes outcomes' with
  | nil =>
    obtain rfl : [] = outcomes := Except.ok.inj hanswers
    exact List.nil_prefix
  | cons q queries ih =>
    obtain ⟨hq, hqueries⟩ := List.forall_mem_cons.mp hqueries
    have hknown : q.Known (c.later scopes).program.symbols := by
      rw [(hc.later scopes).program]
      exact hq
    have hembeds := (hc.later scopes).embeds h
    have hlater : (c.later scopes).Pinning p policy := hpins.of_sameTask ⟨rfl, rfl, rfl⟩ rfl
    -- The query is compiled to the same thing, and finds the same in the larger database.
    have hsame : (((c.later scopes).onto p').answer config ⟨some p'.database⟩ q).outcomes =
        ((c.later scopes).answer config ⟨some p.database⟩ q).outcomes :=
      (answer_onto hembeds hknown config _).trans
        (answer_widened (hc.later scopes) hlater hsteady h config q)
    obtain ⟨n, hn⟩ := c.compileQuery_fst_later scopes q
    rw [answerAll_cons, hn] at hanswers
    rw [List.cons_append, answerAll_cons, compileQuery_onto hembeds hknown, hn, hsame] at hanswers'
    obtain ⟨found, hfound, hanswers⟩ := except_bind_eq_ok hanswers
    obtain ⟨found', hfound', hanswers'⟩ := except_bind_eq_ok hanswers'
    obtain rfl := Except.ok.inj (hfound.symm.trans hfound')
    obtain ⟨rest, hrest, rfl⟩ := except_map_eq_ok hanswers
    obtain ⟨rest', hrest', rfl⟩ := except_map_eq_ok hanswers'
    exact (List.prefix_append_right_inj found).mpr (ih hqueries n hrest hrest')

end Compiler

namespace Program

variable {p p' : Program} {config : Config} {store store' : Store} {report report' : Report}

/-- **Asking more does not change the answers of a safe program.** Let every variable in the head of a
rule occur in a goal of its body that takes part. Add queries at the end, and behind the symbols of the
program those that the queries bring along. If both programs can be run, every query of the first has the
same outcome in both, whatever parameters are configured as. -/
theorem run_addQueries (hp : p.Closed) (hsafe : p.Safe config.bodyPolicy) (hwidened : p.Widened p')
    (hqueries : p.queries <+: p'.queries) (hrun : (p.run config store).result = .ok report)
    (hrun' : (p'.run config store').result = .ok report') :
    report'.queries.take p.queries.length = report.queries := by
  obtain ⟨_, hsymbols, houtcomes⟩ := run_eq_ok hrun
  obtain ⟨rfl, hstore, -⟩ := materialize_eq_ok hsymbols
  obtain ⟨_, hsymbols', houtcomes'⟩ := run_eq_ok hrun'
  obtain ⟨rfl, hstore', -⟩ := materialize_eq_ok hsymbols'
  obtain ⟨added, hadded⟩ := hqueries
  rw [hstore] at houtcomes
  rw [hstore', ← hadded] at houtcomes'
  change ((p.resolution config).compiler.answerAll config _ p.queries).outcomes = _ at houtcomes
  change ((p'.resolution config).compiler.answerAll config _ (p.queries ++ added)).outcomes = _
    at houtcomes'
  rw [resolution_widened hp config hwidened] at houtcomes'
  have hprefix : report.queries <+: report'.queries :=
    Compiler.answerAll_widened (reliable_resolution hp config)
      (Compiler.pinning_resolve hp hsafe config.maxPasses)
      (Compiler.steady_resolve hp hwidened hsafe config.maxPasses) hwidened config hp.queries 0
      houtcomes houtcomes'
  have hlength : p.queries.length = report.queries.length :=
    (Compiler.answerAll_outcomes 0 houtcomes).length_eq
  rw [hlength]
  exact (List.prefix_iff_eq_take.mp hprefix).symm

/-- The program with one more query, which brings along one more constant. -/
def ask (p : Program) (q : Query) (text : String) : Program :=
  { p with symbols := p.symbols ++ [.constant text], queries := p.queries ++ [q] }

/-- Asking one more query widens the program. -/
theorem widened_ask (p : Program) (q : Query) (text : String) : p.Widened (p.ask q text) :=
  ⟨List.prefix_append _ _, rfl, rfl, rfl⟩

/-- A rule that is not safe lets the new constant through. -/
example :
    let p : Program :=
      { symbols := [⟨"edge", 1⟩, .constant "a"]
        facts := [⟨"edge", ["a"]⟩]
        relations := [⟨"edge", 1⟩]
        rules := [⟨"any", [.var "X"], [⟨"edge", [.const "a"]⟩]⟩]
        queries := [⟨[⟨"any", [.var "X"]⟩], "any(X)"⟩] }
    let first := fun (p : Program) ↦
      (p.run {} {}).result.toOption.bind fun r ↦ (r.queries.map Outcome.answer).head?
    first p = some (.rows ["X"] [["a"]]) ∧
      first (p.ask ⟨[⟨"edge", [.const "z"]⟩], "edge(z)"⟩ "z") = some (.rows ["X"] [["a"], ["z"]]) := by
  decide +kernel

end Program

/-- One edge, a rule on top of another, and a query with a parameter. -/
def linkProgram : Program where
  symbols := [⟨"edge", 2⟩, .constant "a", .constant "b"]
  facts := [⟨"edge", ["a", "b"]⟩]
  relations := [⟨"edge", 2⟩]
  rules :=
    [⟨"link", [.var "X", .var "Y"], [⟨"edge", [.var "X", .var "Y"]⟩]⟩,
      ⟨"leads", [.var "X"], [⟨"link", [.var "X", .var "Y"]⟩]⟩]
  queries :=
    [⟨[⟨"leads", [.var "X"]⟩], "leads(X)"⟩, ⟨[⟨"link", [.param "from", .var "Y"]⟩], "link(:from, Y)"⟩,
      ⟨[⟨"leads", [.param "from"]⟩], "leads(:from)"⟩]

theorem closed_linkProgram : linkProgram.Closed := by decide +kernel

theorem safe_linkProgram : linkProgram.Safe .joinAll := by
  simp [linkProgram, Program.Safe, BodyPolicy.select]

/-- The parameter is configured as a text that becomes a constant only through the added query. -/
theorem Program.run_addQueries_stranger : ∃ report report',
    (linkProgram.run { params := [("from", "z")], bodyPolicy := .joinAll } {}).result = .ok report ∧
      ((linkProgram.ask ⟨[⟨"edge", [.const "z", .var "Y"]⟩], "edge(z, Y)"⟩ "z").run
          { params := [("from", "z")], bodyPolicy := .joinAll } {}).result = .ok report' ∧
      report.queries.map Outcome.answer = [.rows ["X"] [["a"]], .rows ["Y"] [], .no] ∧
      report'.queries.take 3 = report.queries := by
  have hplain : ((linkProgram.run { params := [("from", "z")], bodyPolicy := .joinAll }
      {}).result.toOption.map fun r ↦ r.queries.map Outcome.answer) =
      some [.rows ["X"] [["a"]], .rows ["Y"] [], .no] := by
    decide +kernel
  have hasked : (((linkProgram.ask ⟨[⟨"edge", [.const "z", .var "Y"]⟩], "edge(z, Y)"⟩ "z").run
      { params := [("from", "z")], bodyPolicy := .joinAll } {}).result.toOption.map fun r ↦
        r.queries.length) = some 4 := by
    decide +kernel
  obtain ⟨report, hreport, hanswers⟩ := Option.map_eq_some_iff.mp hplain
  obtain ⟨report', hreport', -⟩ := Option.map_eq_some_iff.mp hasked
  have hrun := except_toOption_eq_some hreport
  have hrun' := except_toOption_eq_some hreport'
  exact ⟨report, report', hrun, hrun', hanswers,
    run_addQueries closed_linkProgram safe_linkProgram (linkProgram.widened_ask _ _)
      (List.prefix_append _ _) hrun hrun'⟩

end HornQuery
