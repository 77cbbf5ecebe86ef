import Mathlib
import HornQuery.Proofs.Renaming.Runs

/-!
# Only first goals

Under the policy that only the first goal takes part, the other goals of a rule or a query have no
influence at all: not on what a rule waits for, not on why it fails, not on the columns of a query. The
run is that of the program with all bodies and queries cut to their first goal, where all goals take
part (`Session.run_firstClause`).

The two programs correspond under the renaming that changes nothing, so the runs end alike. It remains
to see that what corresponds under this renaming is the same.
-/

namespace HornQuery

/-! ### Cut programs -/

/-- The rule with its body cut to the first goal. -/
def Rule.truncate (r : Rule) : Rule := { r with body := r.body.take 1 }

/-- The query cut to the first goal; its text stays. -/
def Query.truncate (q : Query) : Query := { q with goals := q.goals.take 1 }

/-- The program with all bodies and queries cut to their first goal. -/
def Program.truncate (p : Program) : Program :=
  { p with rules := p.rules.map Rule.truncate, queries := p.queries.map Query.truncate }

/-! ### The renaming that changes nothing -/

@[simp] theorem Symbol.rename_refl : Symbol.rename .refl = id := rfl

@[simp] theorem Term.rename_refl : Term.rename .refl = id := by
  funext t
  cases t <;> rfl

@[simp] theorem Goal.rename_refl : Goal.rename .refl = id := by
  funext g
  show (⟨g.functor, g.args.map (Term.rename .refl)⟩ : Goal) = g
  rw [Term.rename_refl, List.map_id]

@[simp] theorem Fact.rename_refl : Fact.rename .refl = id := by
  funext f
  show (⟨f.functor, f.args.map id⟩ : Fact) = f
  rw [List.map_id]

/-- Cut goals take part as the first goals of the others do. -/
theorem Program.truncate_corresponds (p : Program) :
    p.Corresponds .refl .firstClause .joinAll p.truncate where
  symbols := by simp [Program.truncate]
  facts := by simp [Program.truncate]
  relations := by simp [Program.truncate]
  rules := by
    refine List.forall₂_map_right_iff.mpr (List.forall₂_same.mpr fun r _ ↦ ?_)
    exact ⟨rfl, by simp [Rule.truncate], by simp [Rule.truncate, BodyPolicy.select_firstClause]⟩
  queries := by
    refine List.forall₂_map_right_iff.mpr (List.forall₂_same.mpr fun q _ ↦ ?_)
    simp [Query.truncate, BodyPolicy.select_firstClause]

/-- Errors that correspond under unchanged names are equal. -/
theorem CompileError.Corresponds.eq {e e' : CompileError} (h : e.Corresponds .refl e') : e' = e := by
  induction h with
  | ruleFailed rule _ ih => rw [ih]; rfl
  | _ => rfl

/-- So are reasons, which are wordings of errors. -/
theorem CorrespondingReasons.eq {reason reason' : String}
    (h : CorrespondingReasons .refl reason reason') : reason' = reason := by
  obtain ⟨e, e', he, rfl, rfl⟩ := h
  rw [he.eq]

/-- And so are the errors of runs. -/
theorem Error.Corresponds.eq {e e' : Error} (h : e.Corresponds .refl e') : e' = e := by
  cases h with
  | compile h => rw [h.eq]
  | cycle passes pending => simp
  | missingBinding key => cases key <;> rfl
  | _ => rfl

/-- The reports on rules are equal if nothing is renamed. -/
theorem RuleReport.Corresponds.eq {r r' : RuleReport} (h : r.Corresponds .refl r') : r' = r := by
  cases h with
  | mk key h =>
    cases h with
    | compiled pass => rfl
    | failed h => rw [h.eq]; rfl

/-- Answers are, row by row. -/
theorem Answer.Corresponds.eq {a a' : Answer} (h : a.Corresponds .refl a') : a' = a := by
  cases h with
  | yes => rfl
  | no => rfl
  | rows columns rows => simp [Renaming.refl]
  | error h => rw [h.eq]

/-- Outcomes are equal if they are those of the same queries. -/
theorem outcomes_eq_of_corresponds {os os' : List Outcome}
    (h : List.Forall₂ (Outcome.Corresponds .refl) os os')
    (hquery : os'.map Outcome.query = os.map Outcome.query) : os' = os := by
  induction h with
  | nil => rfl
  | @cons o o' os os' ho _ ih =>
    obtain ⟨hfirst, hrest⟩ := List.cons.inj hquery
    have heq : o' = o := by
      obtain ⟨query, sql, answer⟩ := o
      obtain ⟨query', sql', answer'⟩ := o'
      simp only [Outcome.mk.injEq]
      exact ⟨hfirst, ho.sql, ho.answer.eq⟩
    rw [heq, ih hrest]

/-- So are whole reports. -/
theorem Report.Corresponds.eq {r r' : Report} (h : r.Corresponds .refl r')
    (hquery : r'.queries.map Outcome.query = r.queries.map Outcome.query) : r' = r := by
  have hrules : r.resolution.rules = r'.resolution.rules := by
    have hsame := h.resolution.rules.imp fun _ _ hr ↦ hr.eq.symm
    rwa [List.forall₂_eq_eq_eq] at hsame
  have hqueries := outcomes_eq_of_corresponds h.queries hquery
  obtain ⟨symbols, facts, ⟨passes, rules⟩, queries⟩ := r
  obtain ⟨symbols', facts', ⟨passes', rules'⟩, queries'⟩ := r'
  simp only [Report.mk.injEq, ResolutionReport.mk.injEq]
  exact ⟨h.symbols, h.facts, ⟨h.resolution.passes, hrules.symm⟩, hqueries⟩

/-! ### Runs -/

/-- The outcomes of a run carry the texts of the queries. -/
theorem Program.run_query {p : Program} {config : Config} {store : Store} {report : Report}
    (h : (p.run config store).result = .ok report) :
    report.queries.map Outcome.query = p.queries.map Query.text := by
  obtain ⟨symbols, -, houtcomes⟩ := run_eq_ok h
  refine map_eq_of_forall₂ (Compiler.answerAll_outcomes 0 houtcomes) ?_
  rintro q outcome ⟨n, hn⟩
  obtain ⟨-, ⟨e, -, heq⟩ | ⟨compiled, sql, -, heq⟩⟩ :=
    Compiler.answer_cases (Compiler.later _ n) config (p.materialize ⟨some {}⟩).store q
  · obtain rfl := List.singleton_inj.mp (Except.ok.inj (heq.symm.trans hn))
    rfl
  · obtain ⟨answer, -, hsame⟩ := except_map_eq_ok (heq.symm.trans hn)
    obtain rfl := List.singleton_inj.mp hsame
    rfl

/-- **That only first goals take part means that all take part in the program cut to them.** Both runs
end with the same error or with the same report, and they make the same SQL. -/
theorem Session.run_firstClause (s : Session) (p : Program) :
    let first := ({ s with config := { s.config with bodyPolicy := .firstClause } } :
      Session).runProgram p
    let all := ({ s with config := { s.config with bodyPolicy := .joinAll } } :
      Session).runProgram p.truncate
    first.result = all.result ∧ sqlTexts first.log = sqlTexts all.log := by
  obtain ⟨config, store, refusal⟩ := s
  cases refusal with
  | some e => exact ⟨rfl, rfl⟩
  | none =>
    have hconfig : Config.Corresponds .refl { config with bodyPolicy := .firstClause }
        { config with bodyPolicy := .joinAll } := ⟨rfl, rfl, fun _ ↦ Option.map_id'.symm⟩
    obtain ⟨hsql, hrun⟩ := Program.run_corresponds p.truncate_corresponds hconfig store
    refine ⟨?_, hsql.symm⟩
    show (p.run { config with bodyPolicy := .firstClause } store).result =
      (p.truncate.run { config with bodyPolicy := .joinAll } store).result
    generalize hleft : (p.run _ store).result = x, hright : (p.truncate.run _ store).result = x'
      at hrun ⊢
    cases hrun with
    | error he => rw [he.eq]
    | ok hreport =>
      have htexts : p.truncate.queries.map Query.text = p.queries.map Query.text := by
        rw [Program.truncate, List.map_map]
        rfl
      rw [hreport.eq]
      rw [Program.run_query hleft, Program.run_query hright, htexts]

end HornQuery
