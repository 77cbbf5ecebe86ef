import Mathlib
import HornQuery.Proofs.Lines

/-!
# Reports line by line

As text a report is a sequence of blocks, one per query in the order of the source. A block starts with
the query, and every line behind that is marked by a percent sign: one for the SQL if it is shown, one
for each row, and one for an answer without rows. So a reader who knows the outcomes knows where each
line ends (`Outcome.SetIn`), and no cell of a row is left out.

What makes this true of every run is that answers are tidy (`Answer.Tidy`): rows are as long as there
are columns, since both come from the same variables, and nothing that is put on a line holds a newline.
The main statement is `Session.text_framed`.
-/

namespace HornQuery

/-! ### Blocks -/

/-- What stands on the line of a row: each column with its value. -/
def rowEntry (columns row : List String) : String :=
  ", ".intercalate (List.zipWith (fun column value ↦ column ++ " = " ++ value) columns row)

/-- A query with what is said about it, line by line. -/
def Query.block (q : Query) (lines : List String) : String :=
  "?- " ++ q.text ++ ".\n" ++ String.join (lines.map fun line ↦ "% " ++ line ++ "\n")

/-- The number of rows of an answer. -/
def Answer.rowCount : Answer → Nat
  | .rows _ found => found.length
  | _ => 0

/-- The number of lines of an outcome that come before its answer. -/
def Outcome.sqlCount (o : Outcome) : Nat := if o.sql.isSome then 1 else 0

/-- An outcome is set in these lines: none of them has a newline inside, there is one for the SQL and
one for each row, or a single one if there are no rows, and the line of a row has a value for every
column. -/
structure Outcome.SetIn (o : Outcome) (lines : List String) : Prop where
  oneLine : ∀ line ∈ lines, OneLine line
  length_eq : lines.length = o.sqlCount + max 1 o.answer.rowCount
  rows : ∀ columns found, o.answer = .rows columns found → ∀ i row, found[i]? = some row →
    row.length = columns.length ∧ lines[o.sqlCount + i]? = some (rowEntry columns row)

/-! ### The lines of an outcome -/

/-- What stands on the lines of an answer. -/
def Answer.lines : Answer → List String
  | .yes => ["yes"]
  | .no => ["no"]
  | .rows columns found => if found.isEmpty then ["no"] else found.map (rowEntry columns)
  | .error message => ["error: " ++ message]

/-- What stands on the lines of an outcome. -/
def Outcome.lines (o : Outcome) : List String :=
  (o.sql.map fun sql ↦ "sql: " ++ sql).toList ++ o.answer.lines

theorem rowLine_eq (columns row : List String) :
    rowLine columns row = resultLine (rowEntry columns row) := by
  rw [rowLine, rowEntry, List.zip, List.map_zipWith]
  rfl

/-- An answer is written line by line. -/
theorem Answer.text_eq (a : Answer) : a.text = String.join (a.lines.map resultLine) := by
  cases a with
  | yes => rfl
  | no => rfl
  | error message =>
    rw [Answer.lines, List.map_singleton, String.join_cons, String.join_nil, String.append_empty]
    rfl
  | rows columns found =>
    rw [Answer.text, Answer.lines]
    split_ifs
    · rfl
    · rw [List.map_map]
      exact congrArg _ (List.map_congr_left fun row _ ↦ rowLine_eq columns row)

/-- An answer without rows still takes one line. -/
theorem Answer.length_lines (a : Answer) : a.lines.length = max 1 a.rowCount := by
  cases a with
  | rows columns found => cases found <;> simp [Answer.lines, Answer.rowCount]
  | _ => rfl

/-- An outcome is written as the block of its query with the lines of its answer. -/
theorem Outcome.text_eq (o : Outcome) {q : Query} (h : o.query = q.text) :
    o.text = q.block o.lines := by
  have hsql : (o.sql.map fun sql ↦ resultLine s!"sql: {sql}").getD "" =
      String.join ((o.sql.map fun sql ↦ "sql: " ++ sql).toList.map resultLine) := by
    cases o.sql with
    | none => rfl
    | some sql =>
      rw [Option.map_some, Option.map_some, Option.toList_some, List.map_singleton,
        String.join_cons, String.join_nil, String.append_empty]
      rfl
  rw [Outcome.text, hsql, o.answer.text_eq, String.append_assoc, ← String.join_append,
    ← List.map_append, h]
  rfl

/-! ### Tidy answers -/

/-- Each row has as many cells as there are columns, and nothing in the answer has a newline inside. -/
def Answer.Tidy : Answer → Prop
  | .rows columns found =>
    (∀ column ∈ columns, OneLine column) ∧
      ∀ row ∈ found, row.length = columns.length ∧ ∀ cell ∈ row, OneLine cell
  | .error message => OneLine message
  | _ => True

/-- A row is written on one line if its cells and the names of its columns are. -/
theorem oneLine_rowEntry {columns row : List String} (hcolumns : ∀ column ∈ columns, OneLine column)
    (hrow : ∀ cell ∈ row, OneLine cell) : OneLine (rowEntry columns row) := by
  refine oneLine_intercalate (by decide) fun text htext ↦ ?_
  rw [← List.map_uncurry_zip_eq_zipWith] at htext
  obtain ⟨pair, hpair, rfl⟩ := List.mem_map.mp htext
  have hmem := List.of_mem_zip hpair
  exact oneLine_append.mpr ⟨oneLine_append.mpr ⟨hcolumns _ hmem.1, by decide⟩, hrow _ hmem.2⟩

/-- Every line of a tidy answer is one line. -/
theorem Answer.Tidy.oneLine {a : Answer} (h : a.Tidy) : ∀ line ∈ a.lines, OneLine line := by
  cases a with
  | yes => decide
  | no => decide
  | error message =>
    exact List.forall_mem_singleton.mpr (oneLine_append.mpr ⟨by decide, h⟩)
  | rows columns found =>
    rw [Answer.lines]
    split_ifs
    · decide
    · intro line hline
      obtain ⟨row, hrow, rfl⟩ := List.mem_map.mp hline
      exact oneLine_rowEntry h.1 (h.2 row hrow).2

/-- A tidy answer, with SQL on one line, is set in the lines that are written for it. -/
theorem Outcome.setIn_lines {o : Outcome} (hsql : ∀ sql, o.sql = some sql → OneLine sql)
    (hanswer : o.answer.Tidy) : o.SetIn o.lines := by
  have hcount : (o.sql.map fun sql ↦ "sql: " ++ sql).toList.length = o.sqlCount := by
    cases h : o.sql <;> simp [Outcome.sqlCount, h]
  refine ⟨List.forall_mem_append.mpr ⟨fun line hline ↦ ?_, hanswer.oneLine⟩, ?_, ?_⟩
  · obtain ⟨sql, hsome, rfl⟩ := Option.map_eq_some_iff.mp (Option.mem_toList.mp hline)
    exact oneLine_append.mpr ⟨by decide, hsql sql hsome⟩
  · rw [Outcome.lines, List.length_append, hcount, Answer.length_lines]
  · intro columns found hrows i row hrow
    have hmem := List.mem_of_getElem? hrow
    rw [hrows] at hanswer
    refine ⟨(hanswer.2 row hmem).1, ?_⟩
    have hnonempty : found.isEmpty = false := by
      cases found with
      | nil => cases hmem
      | cons _ _ => rfl
    rw [Outcome.lines, List.getElem?_append_right (by omega), hcount, Nat.add_sub_cancel_left, hrows,
      Answer.lines, hnonempty, if_neg Bool.false_ne_true, List.getElem?_map, hrow]
    rfl

/-! ### Rows -/

/-- The columns that are asked for are among the names given, and each is projected. -/
theorem Scope.columns_finish {s : Scope} {names columns : List String}
    (h : (s.finish names).shape = .rows columns) :
    (∀ column ∈ columns, column ∈ names) ∧
      (s.finish names).scan.projection.length = columns.length := by
  simp only [finish] at h ⊢
  split_ifs at h
  obtain rfl := Shape.rows.inj h
  refine ⟨fun column hcolumn ↦ ?_, by simp⟩
  obtain ⟨entry, hentry, rfl⟩ := List.mem_map.mp hcolumn
  obtain ⟨name, hname, hentry⟩ := List.mem_filterMap.mp hentry
  obtain ⟨i, -, rfl⟩ := Option.map_eq_some_iff.mp hentry
  exact hname

/-- Rows are the answer to a fragment that asks for rows: those of its scan, or none. -/
theorem CompiledQuery.execute_eq_rows {q : CompiledQuery} {config : Config} {db : Database}
    {text : String} {columns : List String} {found : List (List String)}
    (h : (q.execute config ⟨some db⟩ text).answer = .ok (.rows columns found)) :
    q.fragment.shape = .rows columns ∧
      (found = [] ∨ ∃ values, found =
        (q.fragment.scan.rows db (db.startEnv values)).map fun row ↦ row.map Cell.display) := by
  unfold execute at h
  split_ifs at h
  · -- The query cannot be satisfied, so it is not executed.
    unfold Fragment.emptyAnswer at h
    cases hshape : q.fragment.shape with
    | existence => simp [hshape] at h
    | rows names =>
      simp only [hshape, Except.ok.injEq, Answer.rows.injEq] at h
      exact ⟨by rw [h.1], .inl h.2.symm⟩
  · cases hbind : config.bind q.bindings q.fragment.order with
    | error e => simp [hbind] at h
    | ok values =>
      cases htable : Store.query ⟨some db⟩ q.fragment values with
      | error e => simp [hbind, htable] at h
      | ok table =>
        simp only [hbind, htable, Except.ok.injEq, Fragment.answer] at h
        cases hshape : q.fragment.shape with
        | existence =>
          simp only [hshape] at h
          split at h
          · split_ifs at h
          · cases h
        | rows names =>
          simp only [hshape, Answer.rows.injEq] at h
          refine ⟨by rw [h.1], .inr ⟨values, ?_⟩⟩
          simp only [Store.query, Database.execute_eq, hshape] at htable
          split at htable
          · cases htable
          · rw [← h.2, ← Except.ok.inj htable]

namespace Program

variable {p : Program} {config : Config}

/-- No symbol of a written program has a newline in it, quoted or not. -/
theorem Written.oneLine_symbols (hp : p.Written) :
    ∀ row ∈ p.database.symbols, OneLine row.symbol.text := by
  intro row hrow
  obtain ⟨entry, hentry, rfl⟩ := List.mem_map.mp hrow
  obtain ⟨numbered, hnumbered, rfl⟩ := List.mem_map.mp hentry
  have hmem : numbered.1 ∈ p.symbolTable.symbols := List.mem_map_of_mem hnumbered
  exact oneLine_of_isQuotable (hp.symbols _ (mem_symbolTable.mp hmem))

/-- The rows that a compiled query is answered with are tidy. -/
theorem tidy_of_compileQuery (hp : p.Written) {c : Compiler} {q : Query} (hq : q ∈ p.queries)
    {compiled : CompiledQuery} (h : (c.compileQuery q).2 = .ok compiled) {text : String}
    {columns : List String} {found : List (List String)}
    (hanswer : (compiled.execute config ⟨some p.database⟩ text).answer = .ok (.rows columns found)) :
    (Answer.rows columns found).Tidy := by
  obtain ⟨hshape, hfound⟩ := CompiledQuery.execute_eq_rows hanswer
  obtain ⟨cached, hreuse, heq⟩ | ⟨-, heq⟩ := c.compileQuery_cases q <;> rw [heq] at h
  · -- A query from the cache asks for existence.
    obtain rfl := Except.ok.inj h
    obtain ⟨g, -, -, -, hreuse⟩ := Compiler.reuse?_eq_some hreuse
    obtain ⟨r, m, fragment, -, -, -, rfl⟩ := Compiler.reuse_eq_some hreuse
    cases hshape
  · obtain ⟨fragment, hfragment, rfl⟩ := except_map_eq_ok h
    obtain ⟨s, -, rfl⟩ := Compiler.compileGoals_eq_ok hfragment
    obtain ⟨hnames, hlength⟩ := Scope.columns_finish hshape
    refine ⟨fun column hcolumn ↦ ?_, fun row hrow ↦ ?_⟩
    · obtain ⟨g, hg, hcolumn⟩ := Goal.mem_varsOf.mp (hnames column hcolumn)
      have hvar : (Term.var column).Written :=
        (hp.queries q hq g (BodyPolicy.mem_of_mem_select hg)).args _ hcolumn
      exact oneLine_of_isVarName hvar
    · obtain rfl | ⟨values, rfl⟩ := hfound
      · cases hrow
      · obtain ⟨cells, hcells, rfl⟩ := List.mem_map.mp hrow
        obtain ⟨env, henv, rfl⟩ := List.mem_map.mp hcells
        refine ⟨by simpa using hlength, fun cell hcell ↦ ?_⟩
        rw [List.map_map] at hcell
        obtain ⟨entry, hentry, rfl⟩ := List.mem_map.mp hcell
        obtain ⟨column, -, rfl⟩ := List.mem_map.mp hentry
        -- A cell is the text of a symbol, or it is missing, and both are on one line.
        have hnull : OneLine Cell.null.display := by decide
        exact Database.oneLine_of_mem_draws hp.oneLine_symbols (fun _ _ ↦ hnull)
          (List.mem_filter.mp henv).1 _ _

/-- What a query leads to is set in lines, if what is wrong with it is said on one line. -/
theorem setIn_of_answer (hp : p.Written) {c : Compiler} (hscoped : c.Scoped) (hlisted : c.Listed)
    {q : Query} (hq : q ∈ p.queries) {outcome : Outcome}
    (herror : ∀ message, outcome.answer = .error message → OneLine message)
    (h : (c.answer config ⟨some p.database⟩ q).outcomes = .ok [outcome]) :
    outcome.SetIn outcome.lines := by
  rcases hcompile : c.compileQuery q with ⟨c', e | compiled⟩
  · simp only [Compiler.answer, hcompile] at h
    obtain rfl := List.singleton_inj.mp (Except.ok.inj h)
    exact Outcome.setIn_lines (fun sql hsql ↦ by cases hsql) (herror _ rfl)
  · simp only [Compiler.answer, hcompile] at h
    obtain ⟨answer, hanswer, hsame⟩ := except_map_eq_ok h
    obtain rfl := List.singleton_inj.mp hsame
    have hcompiled : (c.compileQuery q).2 = .ok compiled := by rw [hcompile]
    refine Outcome.setIn_lines (fun sql hsql ↦ ?_) ?_
    · dsimp only at hsql
      split_ifs at hsql
      rw [← Option.some.inj hsql]
      exact Compiler.oneLine_sql hscoped hlisted hcompiled
    · cases answer with
      | yes => trivial
      | no => trivial
      | rows columns found => exact tidy_of_compileQuery hp hq hcompiled hanswer
      | error message => exact herror message rfl

/-- Each query of a run has an outcome, which is set in lines. -/
theorem setIn_of_run (hp : p.Closed) (hwritten : p.Written) {store : Store} {report : Report}
    (h : (p.run config store).result = .ok report) :
    List.Forall₂ (fun q outcome ↦ outcome.query = q.text ∧ outcome.SetIn outcome.lines)
      p.queries report.queries := by
  have hanswers := (answers_of_run hp h).1
  have haccounts := (accounts_of_answers hp hanswers).queries
  rw [result_answers] at hanswers
  obtain ⟨resolved, -, hanswers⟩ := except_bind_eq_ok hanswers
  obtain ⟨outcomes, houtcomes, rfl⟩ := except_map_eq_ok hanswers
  have hanswered := Compiler.answerAll_outcomes (c := (p.resolution config).compiler) 0 houtcomes
  have hscoped : (p.resolution config).compiler.Scoped :=
    Compiler.scoped_resolve (fun entry hentry ↦ absurd hentry List.not_mem_nil) _
  have hlisted : (p.resolution config).compiler.Listed := Compiler.listed_resolve _ _ _ _
  refine List.forall₂_iff_get.mpr ⟨haccounts.length_eq, fun i hi hi' ↦ ?_⟩
  obtain ⟨hquery, hcomplaint⟩ := haccounts.get hi hi'
  obtain ⟨n, hn⟩ := hanswered.get hi hi'
  have hmem : p.queries.get ⟨i, hi⟩ ∈ p.queries := List.get_mem _ _
  exact ⟨hquery, setIn_of_answer hwritten (hscoped.later n) hlisted hmem
    (fun message herror ↦ (hcomplaint message herror).oneLine hwritten hmem) hn⟩

end Program

namespace Session

variable {s : Session} {source : String} {report : Report}

/-- Outcomes set in their lines are written as the blocks of their queries, in the same order. -/
theorem join_blocks {queries : List Query} {outcomes : List Outcome}
    (h : List.Forall₂ (fun q outcome ↦ outcome.query = q.text ∧ outcome.SetIn outcome.lines)
      queries outcomes) :
    outcomes.map Outcome.query = queries.map Query.text ∧
      List.Forall₂ Outcome.SetIn outcomes (outcomes.map Outcome.lines) ∧
      outcomes.map Outcome.text = List.zipWith Query.block queries (outcomes.map Outcome.lines) := by
  induction h with
  | nil => exact ⟨rfl, .nil, rfl⟩
  | cons hfirst _ ih =>
    obtain ⟨hquery, hset⟩ := hfirst
    obtain ⟨hqueries, hsets, htexts⟩ := ih
    refine ⟨congrArg₂ List.cons hquery hqueries, .cons hset hsets, ?_⟩
    exact congrArg₂ List.cons (Outcome.text_eq _ hquery) htexts

/-- **A report is set in lines.** Take any source whose run succeeds, on any store and with any
configuration. The text of the report is made of blocks, one for each query of the source, in order. A
block is the query's text behind `?- `, with a period and a newline, and then the lines of its outcome,
each between `% ` and a newline. None of these lines has a newline inside; they are one for the SQL, if it
is shown, and one for each row, but at least one; and the line of a row gives each column its own value
in that row, which is as long as there are columns. -/
theorem text_framed (h : (s.run source).result = .ok report) :
    ∃ parsed, Program.parse source = .ok parsed ∧
      report.queries.map Outcome.query = parsed.program.queries.map Query.text ∧
      ∃ lines, List.Forall₂ Outcome.SetIn report.queries lines ∧
        report.text = String.join (List.zipWith Query.block parsed.program.queries lines) := by
  obtain ⟨e, -, hrun⟩ | ⟨parsed, e, -, -, hrun⟩ | ⟨parsed, hparse, -, hrun⟩ := s.run_cases source
  · rw [hrun] at h
    cases h
  · rw [hrun] at h
    cases h
  · rw [hrun] at h
    obtain ⟨hqueries, hsets, htexts⟩ := join_blocks (Program.setIn_of_run
      (Program.collected_of_parse hparse).closed (Program.written_of_parse hparse) h)
    exact ⟨parsed, hparse, hqueries, _, hsets, congrArg String.join htexts⟩

/-- Two facts, a query that goes over two lines, and one that uses a wrong arity. -/
def wrappedSource : String := "edge(a, b). edge(a, 'c d'). ?- edge(a,\n  X). ?- edge(X)."

/-- What a run of `wrappedSource` reports if SQL is shown. -/
def wrappedReport : Report where
  symbols := 4
  facts := 2
  queries :=
    [⟨"edge(a,\n  X)",
        some ("SELECT \"c0\" FROM (SELECT v1_0.symbol AS \"c0\" FROM fact_2ary AS f1_0, symbol AS v1_0 " ++
          "WHERE f1_0.functor_id = 1 AND f1_0.arg1_id = 2 AND v1_0.arity = 0 AND " ++
          "f1_0.arg2_id = v1_0.id) AS scan"),
        .rows ["X"] [["b"], ["c d"]]⟩,
      ⟨"edge(X)", none, .error "Arity mismatch: edge/1 used, but edge is defined with arity [2]"⟩]

/-- The newline inside a query stays in the query; three lines and one line come behind. -/
theorem text_framed_wrapped :
    (run { config := { showSql := true } } wrappedSource).result = .ok wrappedReport ∧
      ∃ parsed, Program.parse wrappedSource = .ok parsed ∧
        wrappedReport.queries.map Outcome.query = parsed.program.queries.map Query.text ∧
        ∃ lines, List.Forall₂ Outcome.SetIn wrappedReport.queries lines ∧
          lines.map List.length = [3, 1] ∧
          wrappedReport.text = String.join (List.zipWith Query.block parsed.program.queries lines) := by
  have hrun : (run { config := { showSql := true } } wrappedSource).result = .ok wrappedReport := by
    decide +kernel
  obtain ⟨parsed, hparse, hqueries, lines, hsets, htext⟩ := text_framed hrun
  refine ⟨hrun, parsed, hparse, hqueries, lines, hsets, ?_, htext⟩
  obtain _ | ⟨hfirst, _ | ⟨hsecond, _ | _⟩⟩ := hsets
  rw [List.map_cons, List.map_singleton, hfirst.length_eq, hsecond.length_eq]
  rfl

end Session

end HornQuery
