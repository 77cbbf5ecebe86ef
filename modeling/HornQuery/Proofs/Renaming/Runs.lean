import Mathlib
import HornQuery.Proofs.Answers
import HornQuery.Proofs.Renaming.Resolution

/-!
# Runs of programs that correspond

A run writes the program to the store, resolves the rules and answers the queries. For programs that
correspond, with parameters that do, each of these steps has the same outcome up to names. So the runs
end alike (`Program.run_corresponds`): with errors that correspond, or with reports in which every query
has the same SQL and an answer that corresponds. Both runs log the same SQL, whether it is shown or not.

For a renaming of a program this says that names do not matter (`Session.run_renamed`). A renaming may
give any names, such as ones that read like SQL or like aliases.
-/

namespace HornQuery

variable {ρ : Renaming} {π π' : BodyPolicy}

/-! ### Writing a program to the store -/

section Writing

variable {ε α α' β β' : Type}

/-- A fold over images is the image of the fold, if each step is. -/
theorem foldlM_map {f : β → α → Except ε β} {f' : β' → α' → Except ε β'} {g : α → α'} {k : β → β'}
    (hf : ∀ b a, f' (k b) (g a) = (f b a).map k) (l : List α) (b : β) :
    (l.map g).foldlM f' (k b) = (l.foldlM f b).map k := by
  induction l generalizing b with
  | nil => rfl
  | cons a l ih =>
    rw [List.map_cons, List.foldlM_cons, List.foldlM_cons, hf]
    cases f b a with
    | error e => rfl
    | ok b' => exact ih b'

/-- Results that agree one by one agree as a list. -/
theorem Alike.mapM {ε' : Type} {E : ε → ε' → Prop} {f : α → Except ε β} {f' : α' → Except ε' β}
    {g : α → α'} (hf : ∀ a, Alike E Eq (f a) (f' (g a))) (l : List α) :
    Alike E Eq (l.mapM f) ((l.map g).mapM f') := by
  induction l with
  | nil => exact .ok rfl
  | cons a l ih =>
    rw [List.map_cons, List.mapM_cons, List.mapM_cons]
    refine (hf a).bind ?_
    rintro b _ rfl
    refine ih.bind ?_
    rintro bs _ rfl
    exact .ok rfl

end Writing

/-- A number is found in both tables, or the same symbol is missing. -/
theorem SymbolTable.require_corresponds {t t' : SymbolTable} (h : t.Corresponds ρ t')
    (s : Symbol) :
    Alike (Error.Corresponds ρ) Eq (t.require s) (t'.require (s.rename ρ)) := by
  rw [SymbolTable.require, SymbolTable.require, h.get?]
  cases t.get? s with
  | some id => exact .ok rfl
  | none => exact .error (.compile (.unknownSymbol s))

/-- A fact and the renamed one have the same numbers, so the same row. -/
theorem Fact.row_corresponds {t t' : SymbolTable} (h : t.Corresponds ρ t')
    (f : Fact) :
    Alike (Error.Corresponds ρ) Eq (f.row t) ((f.rename ρ).row t') := by
  have hlength : (f.rename ρ).args.length = f.args.length := List.length_map _
  rw [Fact.row, Fact.row, hlength, Fact.symbol_rename]
  split
  · exact .error (.unsupportedArity f.symbol)
  · refine (SymbolTable.require_corresponds h f.symbol).bind ?_
    rintro functor _ rfl
    have hargs : Alike (Error.Corresponds ρ) Eq
        (f.args.mapM fun text ↦ t.require (.constant text))
        ((f.args.map ρ.text).mapM fun text ↦ t'.require (.constant text)) := by
      refine Alike.mapM (fun text ↦ ?_) f.args
      exact SymbolTable.require_corresponds h (.constant text)
    refine hargs.bind ?_
    rintro args _ rfl
    exact .ok rfl

namespace Database

theorem hasId_rename (db : Database) (id : Int) : (db.rename ρ).hasId id = db.hasId id := by
  simp only [hasId, rename, List.any_map, Function.comp_def]

/-- A symbol can be inserted under its new name exactly if its number is free. -/
theorem insertSymbol_rename (db : Database) (id : Int) (s : Symbol) :
    (db.rename ρ).insertSymbol ⟨id, s.rename ρ⟩ = (db.insertSymbol ⟨id, s⟩).map (rename ρ) := by
  simp only [insertSymbol, hasId_rename]
  split
  · rfl
  · simp [Except.map, rename]

theorem insertFact_rename (db : Database) (row : FactRow) :
    (db.rename ρ).insertFact row = (db.insertFact row).map (rename ρ) := by
  simp only [insertFact, hasId_rename]
  split
  · rfl
  · split <;> rfl

end Database

namespace Store

/-- Tables that correspond are inserted alike, into corresponding stores. -/
theorem insertSymbols_rename (s : Store) {t t' : SymbolTable} (h : t.Corresponds ρ t')
    :
    (s.rename ρ).insertSymbols t' = (s.insertSymbols t).map (rename ρ) := by
  have hentries : t'.toList = t.toList.map (Prod.map id (Symbol.rename ρ)) := by
    rw [SymbolTable.toList, SymbolTable.toList, h, List.map_map, List.map_map]
    rfl
  rcases s with ⟨_ | db⟩
  · rfl
  · let add (db : Database) (entry : Int × Symbol) := db.insertSymbol ⟨entry.1, entry.2⟩
    have hfold : t'.toList.foldlM add (db.rename ρ) =
        (t.toList.foldlM add db).map (Database.rename ρ) := by
      rw [hentries]
      exact foldlM_map (fun db entry ↦ db.insertSymbol_rename entry.1 entry.2) t.toList db
    show (t'.toList.foldlM add (db.rename ρ) >>= fun db ↦ return ⟨some db⟩) =
      (t.toList.foldlM add db >>= fun db ↦ return ⟨some db⟩).map (rename ρ)
    rw [hfold]
    cases t.toList.foldlM add db <;> rfl

/-- Facts are rows of numbers, and go into both stores alike. -/
theorem insertFacts_rename (s : Store) (rows : List FactRow) :
    (s.rename ρ).insertFacts rows = (s.insertFacts rows).map (rename ρ) := by
  rcases s with ⟨_ | db⟩ <;> rcases rows with _ | ⟨row, rows⟩
  · rfl
  · rfl
  · rfl
  · have hfold : (row :: rows).foldlM Database.insertFact (db.rename ρ) =
        ((row :: rows).foldlM Database.insertFact db).map (Database.rename ρ) := by
      have hrows := foldlM_map (g := id) (Database.insertFact_rename (ρ := ρ)) (row :: rows) db
      rwa [List.map_id] at hrows
    simp only [insertFacts, rename, Option.map_some, hfold]
    cases (row :: rows).foldlM Database.insertFact db <;> rfl

end Store

/-- The symbols of programs that correspond have the same places, and so the same numbers. -/
theorem Program.Corresponds.symbolTable {p p' : Program} (h : p.Corresponds ρ π π' p') :
    p.symbolTable.Corresponds ρ p'.symbolTable := by
  have hsymbols : p'.symbolTable.symbols = p.symbolTable.symbols.map (Symbol.rename ρ) := by
    rw [Program.symbolTable, Program.symbolTable, SymbolTable.symbols_ofList, SymbolTable.symbols_ofList, h.symbols,
      Distinct.ofList_map Symbol.rename_injective]
  rw [SymbolTable.Corresponds, p'.symbolTable_numbered, hsymbols, p.symbolTable_numbered,
    List.zipIdx_map, List.map_map, List.map_map]
  rfl

/-- Programs that correspond are both written to the store, or to neither for errors that
correspond. -/
theorem Program.materialize_corresponds {p p' : Program} (h : p.Corresponds ρ π π' p')
    (store : Store) :
    (p'.materialize (store.rename ρ)).store = (p.materialize store).store.rename ρ ∧
      Alike (Error.Corresponds ρ) (SymbolTable.Corresponds ρ) (p.materialize store).symbols (p'.materialize (store.rename ρ)).symbols := by
  have htable := h.symbolTable
  have hrows := Alike.mapM (Fact.row_corresponds htable) p.facts
  rw [← h.facts] at hrows
  simp only [materialize]
  generalize p.facts.mapM (Fact.row _) = rows, p'.facts.mapM (Fact.row _) = rows' at hrows ⊢
  cases hrows with
  | error he => exact ⟨rfl, .error he⟩
  | @ok rows _ heq =>
    subst heq
    simp only [Store.insertSymbols_rename store htable]
    cases store.insertSymbols p.symbolTable with
    | error e => exact ⟨rfl, .error (.storage e)⟩
    | ok written =>
      simp only [Except.map, written.insertFacts_rename]
      cases written.insertFacts rows with
      | error e => exact ⟨rfl, .error (.storage e)⟩
      | ok written => exact ⟨rfl, .ok htable⟩

/-! ### Executing a query -/

/-- The configurations say the same, with the names and the values of parameters changed. -/
structure Config.Corresponds (ρ : Renaming) (config config' : Config) : Prop where
  maxPasses : config'.maxPasses = config.maxPasses
  showSql : config'.showSql = config.showSql
  param? : ∀ x, config'.param? (ρ.param x) = (config.param? x).map ρ.text

/-- The answers say the same under other names. -/
inductive Answer.Corresponds (ρ : Renaming) : Answer → Answer → Prop
  | yes : Corresponds ρ .yes .yes
  | no : Corresponds ρ .no .no
  | rows (columns : List String) (rows : List (List String)) :
    Corresponds ρ (.rows columns rows)
      (.rows (columns.map ρ.var) (rows.map fun row ↦ row.map ρ.text))
  | error {e e' : Error} (h : e.Corresponds ρ e') : Corresponds ρ (.error e.message) (.error e'.message)

/-- If rows are asked for, all cells in them are texts. -/
def Fragment.YieldsTexts (f : Fragment) : Prop :=
  ∀ columns, f.shape = .rows columns → ∀ db env, ∀ row ∈ f.scan.rows db env,
    ∀ cell ∈ row, ∃ text, cell = .text text

/-- Placeholders are bound to renamed texts, or the same one is missing. -/
theorem Config.bind_corresponds {config config' : Config} (h : config.Corresponds ρ config')
    (bindings : List (Placeholder × String)) (keys : List Placeholder) :
    Alike (Error.Corresponds ρ) (fun values values' ↦ values' = renameValues ρ values)
      (config.bind bindings keys)
      (config'.bind (renameValues ρ bindings) (keys.map (Placeholder.rename ρ))) := by
  induction keys with
  | nil => exact .ok rfl
  | cons key keys ih =>
    have hvalue : config'.valueOf (renameValues ρ bindings) (key.rename ρ) =
        (config.valueOf bindings key).map ρ.text := by
      cases key with
      | rule symbol x => exact lookup_renameValues bindings (.rule symbol x)
      | external x => exact h.param? x
    rw [List.map_cons, Config.bind, Config.bind, hvalue]
    cases config.valueOf bindings key with
    | none => exact .error (.missingBinding key)
    | some value =>
      refine ih.map ?_
      rintro values _ rfl
      rfl

theorem Fragment.emptyAnswer_corresponds (f : Fragment) :
    f.emptyAnswer.Corresponds ρ (f.rename ρ).emptyAnswer := by
  obtain ⟨scan, shape⟩ := f
  cases shape with
  | existence => exact .no
  | rows columns => exact .rows columns []

/-- The result of a fragment is answered with the same under other names. -/
theorem Fragment.answer_corresponds {f : Fragment} (hf : f.YieldsTexts) {db : Database}
    {values : List (Placeholder × String)} {t : Table} (h : db.execute f values = .ok t) :
    (f.answer t).Corresponds ρ ((f.rename ρ).answer (t.rename ρ)) := by
  rw [Database.execute_eq] at h
  split at h
  · cases h
  · obtain ⟨scan, shape⟩ := f
    cases shape with
    | existence =>
      obtain rfl := Except.ok.inj h
      cases scan.holds db (db.startEnv values) with
      | true => exact .yes
      | false => exact .no
    | rows columns =>
      obtain rfl := Except.ok.inj h
      -- A row shows texts only, so showing it and renaming it can change places.
      have htext : ∀ row ∈ scan.rows db (db.startEnv values),
          (row.map (Cell.rename ρ)).map Cell.display = (row.map Cell.display).map ρ.text := by
        intro row hrow
        rw [List.map_map, List.map_map]
        refine List.map_congr_left fun cell hcell ↦ ?_
        obtain ⟨text, rfl⟩ := hf columns rfl db _ row hrow cell hcell
        rfl
      have hrows : ((scan.rows db (db.startEnv values)).map fun row ↦ row.map (Cell.rename ρ)).map
            (fun row ↦ row.map Cell.display) =
          ((scan.rows db (db.startEnv values)).map fun row ↦ row.map Cell.display).map
            fun row ↦ row.map ρ.text := by
        rw [List.map_map, List.map_map]
        exact List.map_congr_left htext
      show Answer.Corresponds ρ (.rows columns _) (.rows (columns.map ρ.var) _)
      exact hrows ▸ .rows columns _

/-- A store under other names answers with the same rows under other names. -/
theorem Store.query_rename (s : Store) (f : Fragment) (values : List (Placeholder × String)) :
    (s.rename ρ).query (f.rename ρ) (renameValues ρ values) =
      (s.query f values).map (Table.rename ρ) := by
  rcases s with ⟨_ | db⟩
  · rfl
  · exact db.execute_rename values f

/-- Executing a query gives corresponding answers, provided that rows consist of texts: a number
would not be renamed. -/
theorem CompiledQuery.execute_corresponds {config config' : Config} (h : config.Corresponds ρ config')
    (q : CompiledQuery) (hq : q.fragment.YieldsTexts) (store : Store) (text text' : String) :
    Alike (Error.Corresponds ρ) (Answer.Corresponds ρ) (q.execute config store text).answer
      ((q.rename ρ).execute config' (store.rename ρ) text').answer := by
  have hbind := Config.bind_corresponds h q.bindings q.fragment.order
  simp only [execute, rename, Fragment.order_rename]
  split
  · exact .ok q.fragment.emptyAnswer_corresponds
  · generalize config.bind q.bindings q.fragment.order = values, config'.bind _ _ = values'
      at hbind ⊢
    cases hbind with
    | error he => exact .ok (.error he)
    | @ok values _ hvalues =>
      subst hvalues
      simp only [Store.query_rename]
      cases hresult : store.query q.fragment values with
      | error e => exact .error (.storage e)
      | ok t =>
        rcases store with ⟨_ | db⟩
        · cases hresult
        · exact .ok (Fragment.answer_corresponds hq hresult)

/-- Executing a query logs no SQL; compiling it did. -/
theorem CompiledQuery.sqlTexts_execute (q : CompiledQuery) (config : Config) (store : Store)
    (text : String) : sqlTexts (q.execute config store text).log = [] := by
  have hdropped : ∀ keys : List Placeholder, sqlTexts (keys.map Event.bindingDropped) = [] :=
    sqlTexts_map fun _ ↦ rfl
  unfold execute
  split
  · rfl
  · simp only
    split
    · rw [sqlTexts_append, hdropped]
      rfl
    · split <;> exact hdropped _

/-! ### Answering queries -/

/-- The fragment that a scope is finished with asks for the texts of its variables. -/
theorem Scope.yieldsTexts_finish {s : Scope} (hs : s.Valid) (names : List String) :
    (s.finish names).YieldsTexts := by
  intro columns _ db env row hrow cell hcell
  obtain ⟨e, he, rfl⟩ := List.mem_map.mp hrow
  obtain ⟨entry, hentry, rfl⟩ := List.mem_map.mp hcell
  obtain ⟨⟨⟨name, source⟩, index⟩, hcolumn, rfl⟩ := List.mem_map.mp hentry
  obtain ⟨x, -, hx⟩ := List.mem_filterMap.mp (List.fst_mem_of_mem_zipIdx hcolumn)
  obtain ⟨i, hi, heq⟩ := Option.map_eq_some_iff.mp hx
  obtain ⟨rfl, rfl⟩ := Prod.mk.inj heq
  -- The column belongs to a variable, and a variable is drawn from the symbol table.
  have hlt : i < s.vars.length := (List.findIdx?_eq_some_iff_getElem.mp hi).1
  obtain ⟨drawn, hdrawn, hread⟩ := Database.exists_row_of_mem_draws hs.nodup
    (List.mem_filter.mp he).1 (hs.variable_mem i hlt)
  rw [Database.sourceTable_symbol] at hdrawn hread
  obtain ⟨r, -, rfl⟩ := List.mem_map.mp hdrawn
  exact ⟨r.symbol.text, (hread "symbol").trans rfl⟩

/-- The queries have the same SQL, and answers that correspond. -/
structure Outcome.Corresponds (ρ : Renaming) (o o' : Outcome) : Prop where
  sql : o'.sql = o.sql
  answer : o.answer.Corresponds ρ o'.answer

/-- The queries were answered alike, and the same SQL was logged. -/
structure Answered.Corresponds (ρ : Renaming) (π π' : BodyPolicy) (a a' : Answered) : Prop where
  compiler : a.compiler.Corresponds ρ π π' a'.compiler
  sql : sqlTexts a'.log = sqlTexts a.log
  outcomes : Alike (Error.Corresponds ρ) (List.Forall₂ (Outcome.Corresponds ρ)) a.outcomes a'.outcomes

namespace Compiler

variable {c c' : Compiler} {config config' : Config}

/-- A query asks for whether something holds or for texts. -/
theorem compileQuery_yieldsTexts (hc : c.Scoped) {q : Query} {compiled : CompiledQuery}
    (h : (c.compileQuery q).2 = .ok compiled) : compiled.fragment.YieldsTexts := by
  obtain ⟨cached, hreuse, heq⟩ | ⟨-, heq⟩ := c.compileQuery_cases q <;> rw [heq] at h
  · obtain rfl := Except.ok.inj h
    obtain ⟨g, -, -, -, hreuse⟩ := reuse?_eq_some hreuse
    obtain ⟨r, m, fragment, -, -, -, rfl⟩ := reuse_eq_some hreuse
    intro columns hshape
    cases hshape
  · obtain ⟨fragment, hfragment, rfl⟩ := except_map_eq_ok h
    obtain ⟨s, hgoals, rfl⟩ := compileGoals_eq_ok hfragment
    exact Scope.yieldsTexts_finish (opened hc hgoals).1 _

/-- Queries that correspond have the same SQL and answers that correspond. -/
theorem answer_corresponds (h : c.Corresponds ρ π π' c') (hc : c.Scoped)
    (hconfig : config.Corresponds ρ config') (store : Store) {q q' : Query}
    (hq : π'.select q'.goals = (π.select q.goals).map (Goal.rename ρ)) :
    (c.answer config store q).Corresponds ρ π π' (c'.answer config' (store.rename ρ) q') := by
  have htexts : ∀ compiled, (c.compileQuery q).2 = .ok compiled → compiled.fragment.YieldsTexts :=
    fun _ hcompiled ↦ compileQuery_yieldsTexts hc hcompiled
  obtain ⟨hcompiler, hcompiled⟩ := compileQuery_corresponds h hq
  simp only [answer]
  generalize c.compileQuery q = y, c'.compileQuery q' = y' at htexts hcompiler hcompiled ⊢
  obtain ⟨c₁, x⟩ := y
  obtain ⟨c₁', x'⟩ := y'
  cases hcompiled with
  | error he => exact ⟨hcompiler, rfl, .ok (.cons ⟨rfl, .error (.compile he)⟩ .nil)⟩
  | @ok compiled _ heq =>
    subst heq
    have hexecute := compiled.execute_corresponds hconfig (htexts compiled rfl) store q.text q'.text
    have hsql : (compiled.rename ρ).fragment.sql = compiled.fragment.sql :=
      compiled.fragment.sql_rename
    refine ⟨hcompiler, ?_, hexecute.map fun a a' ha ↦ .cons ⟨?_, ha⟩ .nil⟩
    · show (compiled.rename ρ).fragment.sql :: sqlTexts _ = compiled.fragment.sql :: sqlTexts _
      rw [hsql, CompiledQuery.sqlTexts_execute, CompiledQuery.sqlTexts_execute]
    · simp only [hsql, hconfig.showSql]

/-- Lists of queries that correspond are answered alike. -/
theorem answerAll_corresponds (h : c.Corresponds ρ π π' c') (hc : c.Scoped)
    (hconfig : config.Corresponds ρ config') (store : Store) {queries queries' : List Query}
    (hqueries : List.Forall₂ (fun q q' ↦ π'.select q'.goals = (π.select q.goals).map (Goal.rename ρ))
      queries queries') :
    (c.answerAll config store queries).Corresponds ρ π π'
      (c'.answerAll config' (store.rename ρ) queries') := by
  induction hqueries generalizing c c' with
  | nil => exact ⟨h, rfl, .ok .nil⟩
  | @cons q q' _ _ hq _ ih =>
    obtain ⟨hcompiler, hsql, hfirst⟩ := answer_corresponds h hc hconfig store hq
    have hscoped : (c.answer config store q).compiler.Scoped := by
      rw [(c.answer_cases config store q).1]
      exact (invariant_scoped.perform (.compileQuery q) trivial hc).1
    have hrest := ih hcompiler hscoped
    simp only [answerAll]
    generalize (c.answer config store q).outcomes = x, (c'.answer config' _ q').outcomes = x'
      at hfirst
    cases hfirst with
    | error he => exact ⟨hcompiler, hsql, .error he⟩
    | ok hfound =>
      refine ⟨hrest.compiler, ?_, hrest.outcomes.map fun os os' hos ↦ List.rel_append hfound hos⟩
      simp only [sqlTexts_append, hsql, hrest.sql]

end Compiler

/-! ### Runs -/

/-- The reports say the same under other names. -/
structure Report.Corresponds (ρ : Renaming) (r r' : Report) : Prop where
  symbols : r'.symbols = r.symbols
  facts : r'.facts = r.facts
  resolution : r.resolution.Corresponds ρ r'.resolution
  queries : List.Forall₂ (Outcome.Corresponds ρ) r.queries r'.queries

/-- The runs have made the same SQL, and they end with reports or with errors that correspond. -/
structure Run.Corresponds (ρ : Renaming) (r r' : Run) : Prop where
  sql : sqlTexts r'.log = sqlTexts r.log
  result : Alike (Error.Corresponds ρ) (Report.Corresponds ρ) r.result r'.result

namespace Program

variable {p p' : Program} {config config' : Config}

/-- Writing a program to the store makes no SQL. -/
theorem sqlTexts_materialize (p : Program) (store : Store) :
    sqlTexts (p.materialize store).log = [] := by
  unfold materialize
  simp only
  split
  · rfl
  · split
    · rfl
    · split <;> rfl

/-- Resolution and all queries go alike, and so do the logs. -/
theorem answers_corresponds (h : p.Corresponds ρ config.bodyPolicy config'.bodyPolicy p')
    (hconfig : config.Corresponds ρ config') (store : Store) {t t' : SymbolTable}
    (ht : t.Corresponds ρ t') :
    (p.answers config store t).Corresponds ρ (p'.answers config' (store.rename ρ) t') := by
  have hstart : Compiler.Corresponds ρ config.bodyPolicy config'.bodyPolicy
      (.fresh p t config.bodyPolicy) (.fresh p' t' config'.bodyPolicy) :=
    ⟨h, ⟨rfl, rfl⟩, ht, rfl, .nil, rfl⟩
  have hscoped : (Compiler.fresh p t config.bodyPolicy).Scoped := by
    intro entry hentry
    cases hentry
  obtain ⟨hcompiler, hsql, hreport⟩ := Compiler.resolve_corresponds hstart config.maxPasses
  obtain ⟨-, hlogged, hanswers⟩ := Compiler.answerAll_corresponds hcompiler
    (Compiler.scoped_resolve hscoped config.maxPasses) hconfig store h.queries
  -- A warning about a parameter is no statement, so it does not show up among them.
  have hunused : ∀ (config : Config) used, sqlTexts (config.unusedParams used) = [] :=
    fun _ _ ↦ sqlTexts_map (fun _ ↦ rfl) _
  simp only [answers, hconfig.maxPasses]
  generalize (Compiler.resolve _ config.maxPasses).report = report,
    (Compiler.resolve (.fresh p' t' _) config.maxPasses).report = report' at hreport ⊢
  cases hreport with
  | error he => exact ⟨hsql, .error he⟩
  | ok hreport =>
    simp only
    generalize (Compiler.answerAll _ config store p.queries).outcomes = outcomes,
      (Compiler.answerAll _ config' _ p'.queries).outcomes = outcomes' at hanswers ⊢
    cases hanswers with
    | error he =>
      refine ⟨?_, .error he⟩
      simp only [sqlTexts_append, hsql, hlogged]
    | ok houtcomes =>
      refine ⟨?_, .ok ⟨?_, ?_, hreport, houtcomes⟩⟩
      · simp only [sqlTexts_append, hsql, hlogged, hunused]
        rfl
      · rw [SymbolTable.size, SymbolTable.size, ht, List.length_map]
      · simp only [h.facts, List.length_map]

/-- **Programs that correspond run alike.** -/
theorem run_corresponds (h : p.Corresponds ρ config.bodyPolicy config'.bodyPolicy p')
    (hconfig : config.Corresponds ρ config') (store : Store) :
    (p.run config store).Corresponds ρ (p'.run config' store) := by
  simp only [run]
  cases hclear : store.bootstrap.clear with
  | error e => exact ⟨rfl, .error (.storage e)⟩
  | ok cleared =>
    obtain rfl := Store.eq_of_clear_eq_ok hclear
    obtain ⟨hstore, hsymbols⟩ := materialize_corresponds h ⟨some {}⟩
    -- Both programs are written to an empty store, which has nothing to rename.
    have hempty : Store.rename ρ ⟨some {}⟩ = ⟨some {}⟩ := rfl
    rw [hempty] at hstore hsymbols
    have hlog := p.sqlTexts_materialize ⟨some {}⟩
    have hlog' := p'.sqlTexts_materialize ⟨some {}⟩
    simp only [hstore]
    generalize (p.materialize ⟨some {}⟩).symbols = t, (p'.materialize ⟨some {}⟩).symbols = t'
      at hsymbols ⊢
    cases hsymbols with
    | error he => exact ⟨hlog'.trans hlog.symm, .error he⟩
    | ok ht =>
      obtain ⟨hsql, hresult⟩ := answers_corresponds h hconfig (p.materialize ⟨some {}⟩).store ht
      refine ⟨?_, hresult⟩
      simp only [sqlTexts_append, hlog, hlog', hsql]

end Program

/-! ### Renamed programs -/

/-- The second program is the first one under other names. The texts of the queries, and what a program
lists only for the record, may be anything. -/
structure Program.IsRenaming (ρ : Renaming) (p p' : Program) : Prop where
  symbols : p'.symbols = p.symbols.map (Symbol.rename ρ)
  facts : p'.facts = p.facts.map (Fact.rename ρ)
  relations : p'.relations = p.relations.map (Symbol.rename ρ)
  rules : p'.rules = p.rules.map (Rule.rename ρ)
  queries : p'.queries.map Query.goals = p.queries.map fun q ↦ q.goals.map (Goal.rename ρ)

/-- Under one and the same policy, a program corresponds to its renaming. -/
theorem Program.IsRenaming.corresponds {p p' : Program} (h : p.IsRenaming ρ p') (π : BodyPolicy) :
    p.Corresponds ρ π π p' where
  symbols := h.symbols
  facts := h.facts
  relations := h.relations
  rules := by
    rw [h.rules]
    refine List.forall₂_map_right_iff.mpr (List.forall₂_same.mpr fun r _ ↦ ?_)
    exact ⟨rfl, rfl, π.select_map _ r.body⟩
  queries := by
    have hgoals : List.Forall₂ Eq (p.queries.map fun q ↦ q.goals.map (Goal.rename ρ))
        (p'.queries.map Query.goals) := by
      rw [h.queries]
      exact List.forall₂_same.mpr fun _ _ ↦ rfl
    refine (List.forall₂_map_right_iff.mp (List.forall₂_map_left_iff.mp hgoals)).imp ?_
    intro q q' heq
    rw [← heq, π.select_map]

namespace Config

theorem lookup_setValue (name value x : String) (params : List (String × String)) :
    (setValue name value params).lookup x = if x = name then some value else params.lookup x := by
  induction params with
  | nil => rw [setValue, lookup_cons_ite]
  | cons entry params ih =>
    rw [setValue]
    split
    · rw [lookup_cons_ite]
    · split
      · rename_i heq
        simp only [lookup_cons_ite, heq]
        split <;> rfl
      · rename_i hne
        rw [lookup_cons_ite, lookup_cons_ite, ih]
        split
        · rename_i hx
          rw [if_neg fun h ↦ hne (h.symm.trans hx)]
        · rfl

/-- The configuration with the names and the values of its parameters renamed. -/
def rename (ρ : Renaming) (c : Config) : Config :=
  { c with params := c.params.foldr (fun entry ↦ setValue (ρ.param entry.1) (ρ.text entry.2)) [] }

/-- A configuration corresponds to its renaming, since parameters stay apart. -/
theorem corresponds_rename (c : Config) : c.Corresponds ρ (c.rename ρ) := by
  refine ⟨rfl, rfl, fun x ↦ ?_⟩
  show List.lookup _ (c.params.foldr _ []) = (c.params.lookup x).map _
  induction c.params with
  | nil => rfl
  | cons entry params ih =>
    simp only [List.foldr_cons, lookup_setValue, lookup_cons_ite, ih, ρ.param_injective.eq_iff]
    split <;> rfl

end Config

/-- **Names do not matter.** Run a program, and run a renaming of it with the names and the values of
the parameters renamed too. Both runs make the same SQL. Both succeed, or both fail with errors that
correspond. If they succeed, each query has the same SQL in both reports, the same answer if that is
yes or no, an error that corresponds if it is an error, and otherwise the same columns and rows under
their new names. -/
theorem Session.run_renamed (s : Session) (ρ : Renaming) {p p' : Program} (h : p.IsRenaming ρ p') :
    (s.runProgram p).Corresponds ρ
      (({ s with config := s.config.rename ρ } : Session).runProgram p') := by
  obtain ⟨config, store, refusal⟩ := s
  cases refusal with
  | some e => exact ⟨rfl, .error (.storage e)⟩
  | none =>
    have hp : p.Corresponds ρ config.bodyPolicy (config.rename ρ).bodyPolicy p' :=
      h.corresponds config.bodyPolicy
    exact Program.run_corresponds hp config.corresponds_rename store

/-- Texts that read like SQL, variables that read like aliases and parameters that read like numbered
ones. -/
def disguise : Renaming where
  text s := "SELECT " ++ s
  var x := "v1_" ++ x
  param x := "?1" ++ x
  text_injective := fun _ _ h ↦ (String.append_right_inj _).mp h
  var_injective := fun _ _ h ↦ (String.append_right_inj _).mp h
  param_injective := fun _ _ h ↦ (String.append_right_inj _).mp h

/-- The program `stepProgram` in disguise. -/
def disguisedProgram : Program where
  symbols := [⟨"SELECT edge", 2⟩, .constant "SELECT a", .constant "SELECT b"]
  facts := [⟨"SELECT edge", ["SELECT a", "SELECT b"]⟩, ⟨"SELECT edge", ["SELECT a", "SELECT b"]⟩]
  relations := [⟨"SELECT edge", 2⟩]
  rules := [⟨"SELECT step", [.var "v1_X", .var "v1_Y", .const "SELECT b"],
    [⟨"SELECT edge", [.var "v1_X", .var "v1_Y"]⟩]⟩]
  queries :=
    [⟨[⟨"SELECT edge", [.var "v1_X", .param "?1to"]⟩,
        ⟨"SELECT step", [.var "v1_X", .const "SELECT b", .const "SELECT b"]⟩], "first"⟩,
      ⟨[⟨"SELECT step", [.const "SELECT a", .param "?1to", .const "SELECT b"]⟩], "second"⟩]

/-- A session in which `stepProgram` finds its parameter and SQL is shown. -/
def stepSession : Session := { config := { params := [("to", "b")], showSql := true } }

/-- In disguise, the queries have the same SQL, and answers in which the disguise shows. -/
theorem Session.run_renamed_disguise :
    stepProgram.IsRenaming disguise disguisedProgram ∧
      ∃ report report', (stepSession.runProgram stepProgram).result = .ok report ∧
        (({ stepSession with config := stepSession.config.rename disguise } : Session).runProgram
          disguisedProgram).result = .ok report' ∧
        report.queries.map Outcome.answer = [.rows ["X"] [["a"], ["a"]], .yes] ∧
        report'.queries.map Outcome.answer = [.rows ["v1_X"] [["SELECT a"], ["SELECT a"]], .yes] ∧
        (∀ o ∈ report.queries, o.sql.isSome = true) ∧ report.Corresponds disguise report' := by
  have hp : stepProgram.IsRenaming disguise disguisedProgram :=
    ⟨by decide +kernel, by decide +kernel, by decide +kernel, by decide +kernel, by decide +kernel⟩
  have hplain : ((stepSession.runProgram stepProgram).result.toOption.map fun r ↦
      (r.queries.map Outcome.answer, r.queries.all fun o ↦ o.sql.isSome)) =
      some ([.rows ["X"] [["a"], ["a"]], .yes], true) := by decide +kernel
  have hdisguised : ((({ stepSession with config := stepSession.config.rename disguise } :
      Session).runProgram disguisedProgram).result.toOption.map fun r ↦ r.queries.map
        Outcome.answer) = some [.rows ["v1_X"] [["SELECT a"], ["SELECT a"]], .yes] := by
    decide +kernel
  obtain ⟨report, hreport, hanswers⟩ := Option.map_eq_some_iff.mp hplain
  obtain ⟨report', hreport', hanswers'⟩ := Option.map_eq_some_iff.mp hdisguised
  have hresult := except_toOption_eq_some hreport
  have hresult' := except_toOption_eq_some hreport'
  have hrun := (stepSession.run_renamed disguise hp).result
  rw [hresult, hresult'] at hrun
  obtain ⟨hplainAnswers, hsql⟩ := Prod.mk.inj hanswers
  refine ⟨hp, report, report', hresult, hresult', hplainAnswers, hanswers',
    List.all_eq_true.mp hsql, ?_⟩
  cases hrun with
  | ok h => exact h

end HornQuery
