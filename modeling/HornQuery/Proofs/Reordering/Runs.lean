import Mathlib
import HornQuery.Proofs.Failures
import HornQuery.Proofs.Reordering.Resolution

/-!
# Runs of programs in another order

Declaring the same facts and rules in another order changes the numbers of symbols, the order of rows,
the order in which rules are compiled and with it all aliases. None of that can be seen in what a run
reports (`Session.runProgram_reordered`): it fails with the same kind of error, or it reports the same
counts, passes and outcomes of rules, and answers each query alike, with the same rows in some order.

The stores of the two programs have the same content (`Program.Reordered.recoded`), so compiled queries
that find the same are answered alike (`CompiledQuery.Recoded.execute`).
-/

namespace HornQuery

/-! ### Stores of reordered programs -/

/-- The rows of a table are made of its symbols and the numbers that these have. -/
theorem SymbolTable.toList_eq_map (t : SymbolTable) :
    t.toList.map (fun (id, s) ↦ SymbolRow.mk id s) =
      t.symbols.map fun s ↦ ⟨(t.get? s).getD 0, s⟩ := by
  rw [toList, symbols, List.map_map, List.map_map]
  refine List.map_congr_left ?_
  rintro ⟨s, id⟩ hmem
  simp [get?_eq_some_iff_mem.mpr hmem]

namespace Program

variable {p p' : Program} {config : Config}

/-- The numbers that the same symbol has in two programs. -/
def recoding (p p' : Program) : Recoding where
  rel k k' := ∃ s, p.symbolTable.get? s = some k ∧ p'.symbolTable.get? s = some k'
  unique := by
    rintro k k' l l' ⟨s, hk, hk'⟩ ⟨t, hl, hl'⟩
    constructor
    · rintro rfl
      rw [p.symbolTable_numbered.get?_inj hk hl] at hk'
      exact Option.some_inj.mp (hk'.symm.trans hl')
    · rintro rfl
      rw [p'.symbolTable_numbered.get?_inj hk' hl'] at hk
      exact Option.some_inj.mp (hk.symm.trans hl)

namespace Reordered

theorem mem_symbols_iff (h : p.Reordered p') {s : Symbol} :
    s ∈ p'.symbolTable.symbols ↔ s ∈ p.symbolTable.symbols := by
  rw [mem_symbolTable, mem_symbolTable, h.symbols.mem_iff]

/-- The tables have the same symbols, but perhaps under other numbers. -/
theorem perm_symbolTable (h : p.Reordered p') :
    p.symbolTable.symbols.Perm p'.symbolTable.symbols := by
  rw [List.perm_ext_iff_of_nodup p.symbolTable.nodup_symbols p'.symbolTable.nodup_symbols]
  exact fun s ↦ h.mem_symbols_iff.symm

theorem size_symbolTable (h : p.Reordered p') : p'.symbolTable.size = p.symbolTable.size := by
  rw [← SymbolTable.length_symbols, ← SymbolTable.length_symbols, h.perm_symbolTable.length_eq]

/-- The two numbers of a symbol stand for each other. -/
theorem rel_getD (h : p.Reordered p') {s : Symbol} (hs : s ∈ p.symbolTable.symbols) :
    (recoding p p').rel ((p.symbolTable.get? s).getD 0) ((p'.symbolTable.get? s).getD 0) := by
  obtain ⟨k, hk⟩ := SymbolTable.exists_get? hs
  obtain ⟨k', hk'⟩ := SymbolTable.exists_get? (h.mem_symbols_iff.mpr hs)
  rw [hk, hk']
  exact ⟨s, hk, hk'⟩

/-- A symbol has a number in both programs or in none, and the two stand for each other. -/
theorem rel_get? (h : p.Reordered p') (s : Symbol) :
    Option.Rel (recoding p p').rel (p.symbolTable.get? s) (p'.symbolTable.get? s) := by
  by_cases hs : s ∈ p.symbolTable.symbols
  · obtain ⟨k, hk⟩ := SymbolTable.exists_get? hs
    obtain ⟨k', hk'⟩ := SymbolTable.exists_get? (h.mem_symbols_iff.mpr hs)
    rw [hk, hk']
    exact .some ⟨s, hk, hk'⟩
  · rw [SymbolTable.get?_eq_none_iff.mpr hs,
      SymbolTable.get?_eq_none_iff.mpr (h.mem_symbols_iff.not.mpr hs)]
    exact .none

/-- The stores of reordered programs have the same content. -/
theorem recoded (h : p.Reordered p') (hp : p.Closed) :
    Database.Recoded (recoding p p') p.database p'.database where
  symbols := by
    rw [database, database, SymbolTable.toList_eq_map, SymbolTable.toList_eq_map]
    exact .of_perm h.perm_symbolTable fun s hs ↦ ⟨h.rel_getD hs, rfl⟩
  facts := by
    refine .of_perm h.facts fun f hf ↦ ?_
    obtain ⟨hsymbol, hargs⟩ := hp.facts f hf
    refine .cons (h.rel_getD (mem_symbolTable.mpr hsymbol)) ?_
    rw [Fact.numbers, Fact.numbers, List.forall₂_map_left_iff, List.forall₂_map_right_iff]
    exact List.forall₂_same.mpr fun a ha ↦ h.rel_getD (mem_symbolTable.mpr (hargs a ha))
  constantId? := fun text ↦ by
    rw [constantId?_database, constantId?_database]
    exact h.rel_get? (.constant text)

/-- The compilers of a program and of its reordering are twins. -/
theorem twins (h : p.Reordered p') (hp : p.Closed) (hwide : p.wideFact? = none) (policy : BodyPolicy) :
    Compiler.Twins (recoding p p') p.database p'.database
      (p.compiler policy) (p'.compiler policy) :=
  ⟨h.sameRelations hp, rfl, h.rel_get?, h.recoded hp, fun _ ↦ arity_le_of_hasFacts hp hwide⟩

end Reordered

end Program

/-! ### Answers -/

/-- The answers are of the same kind and say the same, but rows may come in another order. -/
inductive Answer.Reordered : Answer → Answer → Prop
  | yes : Reordered .yes .yes
  | no : Reordered .no .no
  | rows (columns : List String) {rows rows' : List (List String)} (h : rows.Perm rows') :
    Reordered (.rows columns rows) (.rows columns rows')
  | error (message : String) : Reordered (.error message) (.error message)

/-- The outcomes are for the same query, with answers that say the same. -/
structure Outcome.Reordered (o o' : Outcome) : Prop where
  query : o'.query = o.query
  answer : o.answer.Reordered o'.answer

variable {ν : Recoding} {db db' : Database} {config : Config}

/-- Queries that find the same are answered alike, or refused for the same reason. -/
theorem CompiledQuery.Recoded.execute {q q' : CompiledQuery} (h : CompiledQuery.Recoded ν db db' q q')
    (hdb : Database.Recoded ν db db') (config : Config) (text : String) :
    Alike Eq Answer.Reordered (q.execute config ⟨some db⟩ text).answer
      (q'.execute config ⟨some db'⟩ text).answer := by
  have hshape := Fragment.shape_eq_of_outline h.fragment.outline
  have hrefusal := Fragment.refusal?_eq_of_outline h.fragment.outline
  simp only [CompiledQuery.execute, h.unsatisfiable, h.bindings,
    Fragment.order_eq_of_outline h.fragment.outline]
  split
  · -- A query that cannot be satisfied is answered by its shape.
    rw [Fragment.emptyAnswer, Fragment.emptyAnswer, hshape]
    split
    · exact .ok .no
    · exact .ok (.rows _ .rfl)
  · cases config.bind q.bindings q.fragment.order with
    | error e => exact .ok (.error _)
    | ok values =>
      have henv := hdb.startEnv values
      simp only [Store.query, Database.execute_eq, hrefusal, hshape]
      cases q.fragment.refusal? with
      | some cause => exact .error rfl
      | none =>
        cases hasked : q.fragment.shape with
        | existence =>
          rw [hasked] at hshape
          simp only [Fragment.answer, hasked, hshape, ← h.fragment.holds _ _ henv]
          split
          · exact .ok .yes
          · exact .ok .no
        | rows columns =>
          rw [hasked] at hshape
          simp only [Fragment.answer, hasked, hshape]
          exact .ok (.rows columns ((h.fragment.rows columns hasked _ _ henv).map _))

namespace Compiler

variable {c c' d d' : Compiler}

/-- The same query is answered alike by compilers that agree on all rules. -/
theorem Twins.answer (h : Twins ν db db' c c') (hd : Assembled c d) (hd' : Assembled c' d')
    (hagree : ∀ key, AgreeOn ν db db' d d' key) (config : Config) (q : Query) :
    Alike Eq (List.Forall₂ Outcome.Reordered) (d.answer config ⟨some db⟩ q).outcomes
      (d'.answer config ⟨some db'⟩ q).outcomes := by
  have hcompiled := (h.of_sameTask hd.task hd'.task).compileQuery (q := q) (fun g _ ↦ hagree g.symbol)
    hd.wellScoped hd'.wellScoped
  rcases hq : d.compileQuery q with ⟨d₁, x⟩
  rcases hq' : d'.compileQuery q with ⟨d₁', x'⟩
  rw [hq, hq'] at hcompiled
  cases hcompiled with
  | error heq =>
    subst heq
    simp only [Compiler.answer, hq, hq']
    exact .ok (.cons ⟨rfl, .error _⟩ .nil)
  | ok hcompiled =>
    simp only [Compiler.answer, hq, hq']
    exact (hcompiled.execute h.stores config q.text).map fun a a' ha ↦ .cons ⟨rfl, ha⟩ .nil

/-- Queries are answered one after the other, until one fails. -/
theorem answerAll_cons (c : Compiler) (config : Config) (store : Store) (q : Query)
    (queries : List Query) :
    (c.answerAll config store (q :: queries)).outcomes =
      (c.answer config store q).outcomes >>= fun found ↦
        ((c.compileQuery q).1.answerAll config store queries).outcomes.map (found ++ ·) := by
  rw [answerAll, ← (c.answer_cases config store q).1]
  cases (c.answer config store q).outcomes <;> rfl

/-- Queries are answered alike one by one. Scopes that were opened on the way make no difference. -/
theorem Twins.answerAll (h : Twins ν db db' c c') (hd : Assembled c d) (hd' : Assembled c' d')
    (hagree : ∀ key, AgreeOn ν db db' d d' key) (config : Config) (queries : List Query)
    (scopes scopes' : Nat) :
    Alike Eq (List.Forall₂ Outcome.Reordered)
      ((d.later scopes).answerAll config ⟨some db⟩ queries).outcomes
      ((d'.later scopes').answerAll config ⟨some db'⟩ queries).outcomes := by
  induction queries generalizing scopes scopes' with
  | nil => exact .ok .nil
  | cons q queries ih =>
    obtain ⟨n, hn⟩ := d.compileQuery_fst_later scopes q
    obtain ⟨n', hn'⟩ := d'.compileQuery_fst_later scopes' q
    rw [answerAll_cons, answerAll_cons, hn, hn']
    have hfirst := h.answer (hd.later scopes) (hd'.later scopes')
      (fun key ↦ ⟨(hagree key).fragment, (hagree key).failure⟩) config q
    refine hfirst.bind fun found found' hfound ↦ ?_
    exact (ih n n').map fun rest rest' hrest ↦ List.rel_append hfound hrest

end Compiler

/-! ### Runs -/

/-- The reports say the same of two programs with the same declarations. -/
structure Report.Reordered (p p' : Program) (report report' : Report) : Prop where
  symbols : report'.symbols = report.symbols
  facts : report'.facts = report.facts
  resolution : Resolution.Reordered p.rules p'.rules report.resolution report'.resolution
  queries : List.Forall₂ Outcome.Reordered report.queries report'.queries

namespace Program.Reordered

variable {p p' : Program}

theorem wideFact?_eq_none_iff (h : p.Reordered p') : p'.wideFact? = none ↔ p.wideFact? = none := by
  simp only [Program.wideFact?_eq_none_iff, h.facts.mem_iff]

/-- Programs whose rows are in the store are answered alike. -/
theorem answers (h : p.Reordered p') (hp : p.Closed) (hwide : p.wideFact? = none) (config : Config) :
    Alike (fun e e' ↦ e'.kind = e.kind) (Report.Reordered p p')
      (p.answers config ⟨some p.database⟩ p.symbolTable).result
      (p'.answers config ⟨some p'.database⟩ p'.symbolTable).result := by
  have htwins := h.twins hp hwide config.bodyPolicy
  have hd := assembled_resolution hp config
  have hd' := assembled_resolution (h.closed hp) config
  obtain ⟨hresolved, hremembered⟩ := Resolution.resolve_reordered h hp config.bodyPolicy
    config.maxPasses (show p.resolution config = _ from rfl) (show p'.resolution config = _ from rfl)
  have hanswered := htwins.answerAll hd hd'
    (fun key ↦ htwins.agreeOn hd hd' (hremembered key).1 (hremembered key).2) config p.queries 0 0
  rw [result_answers, result_answers, h.queries]
  refine hresolved.bind fun resolved resolved' hreports ↦ ?_
  refine Alike.map (hanswered.imp_error fun e e' he ↦ he ▸ rfl) fun outcomes outcomes' houtcomes ↦ ?_
  exact ⟨h.size_symbolTable, h.facts.length_eq.symm, hreports, houtcomes⟩

/-- Facts that are too wide end both runs, and only the first one is named. -/
theorem run (h : p.Reordered p') (hp : p.Closed) (config : Config) {store : Store}
    (hstore : store.Tabled) :
    Alike (fun e e' ↦ e'.kind = e.kind) (Report.Reordered p p') (p.run config store).result
      (p'.run config store).result := by
  rw [result_run hp hstore, result_run (h.closed hp) hstore]
  cases hwide : p.wideFact? with
  | none =>
    rw [h.wideFact?_eq_none_iff.mpr hwide]
    exact h.answers hp hwide config
  | some f =>
    obtain ⟨f', hwide'⟩ := Option.ne_none_iff_exists'.mp
      (h.wideFact?_eq_none_iff.not.mpr (hwide ▸ Option.some_ne_none f))
    rw [hwide']
    exact .error rfl

end Program.Reordered

/-- **The order of declarations does not matter.** Run two programs that have the same queries, and the
same facts, rules and symbols in any order. Both runs fail, with errors of the same kind, or both
succeed. If they succeed, the reports count the same symbols, facts and passes and give each rule the
same outcome, and each query has the same answer, up to the order of its rows. -/
theorem Session.runProgram_reordered (s : Session) (hstore : s.store.Tabled) {p p' : Program}
    (hp : p.Closed) (h : p.Reordered p') :
    Alike (fun e e' ↦ e'.kind = e.kind) (Report.Reordered p p') (s.runProgram p).result
      (s.runProgram p').result := by
  obtain ⟨config, store, refusal⟩ := s
  cases refusal with
  | some e => exact .error rfl
  | none => exact h.run hp config hstore

/-- The program with its symbols, facts and rules declared the other way round. -/
def Program.reverse (p : Program) : Program :=
  { p with
    symbols := p.symbols.reverse
    facts := p.facts.reverse
    relations := p.relations.reverse
    rules := p.rules.reverse }

/-- A program with all its clauses in reverse order is a reordering of it. -/
theorem Program.reordered_reverse (p : Program) : p.Reordered p.reverse :=
  ⟨(List.reverse_perm _).symm, (List.reverse_perm _).symm, (List.reverse_perm _).symm,
    (List.reverse_perm _).symm, rfl⟩

/-- Two edges to `b`, a rule that needs the one declared after it, and a rule that fails. -/
def arrivalProgram : Program where
  symbols := [⟨"edge", 2⟩, .constant "a", .constant "b", .constant "c"]
  facts := [⟨"edge", ["a", "b"]⟩, ⟨"edge", ["c", "b"]⟩]
  relations := [⟨"edge", 2⟩]
  rules :=
    [⟨"start", [.var "X"], [⟨"arrives", [.var "X"]⟩]⟩,
      ⟨"arrives", [.var "X"], [⟨"edge", [.var "X", .const "b"]⟩]⟩,
      ⟨"odd", [.var "X"], [⟨"edge", [.var "X"]⟩]⟩]
  queries :=
    [⟨[⟨"start", [.var "X"]⟩], "start(X)"⟩, ⟨[⟨"start", [.const "c"]⟩], "start(c)"⟩,
      ⟨[⟨"odd", [.const "a"]⟩], "odd(a)"⟩]

theorem closed_arrivalProgram : arrivalProgram.Closed := by decide +kernel

/-- The other way round, rows come in another order, and so do the outcomes of rules. -/
theorem Session.runProgram_reordered_arrival :
    ∃ report report', (({} : Session).runProgram arrivalProgram).result = .ok report ∧
      (({} : Session).runProgram arrivalProgram.reverse).result = .ok report' ∧
      (report.queries.map Outcome.answer).take 2 = [.rows ["X"] [["a"], ["c"]], .yes] ∧
      (report'.queries.map Outcome.answer).take 2 = [.rows ["X"] [["c"], ["a"]], .yes] ∧
      report.resolution.rules.map RuleReport.rule = ["start/1", "arrives/1", "odd/1"] ∧
      report'.resolution.rules.map RuleReport.rule = ["odd/1", "arrives/1", "start/1"] ∧
      Report.Reordered arrivalProgram arrivalProgram.reverse report report' := by
  have hplain : ((({} : Session).runProgram arrivalProgram).result.toOption.map fun r ↦
      ((r.queries.map Outcome.answer).take 2, r.resolution.rules.map RuleReport.rule)) =
      some ([.rows ["X"] [["a"], ["c"]], .yes], ["start/1", "arrives/1", "odd/1"]) := by
    decide +kernel
  have hreversed : ((({} : Session).runProgram arrivalProgram.reverse).result.toOption.map fun r ↦
      ((r.queries.map Outcome.answer).take 2, r.resolution.rules.map RuleReport.rule)) =
      some ([.rows ["X"] [["c"], ["a"]], .yes], ["odd/1", "arrives/1", "start/1"]) := by
    decide +kernel
  obtain ⟨report, hreport, hfound⟩ := Option.map_eq_some_iff.mp hplain
  obtain ⟨report', hreport', hfound'⟩ := Option.map_eq_some_iff.mp hreversed
  have hresult := except_toOption_eq_some hreport
  have hresult' := except_toOption_eq_some hreport'
  have hruns := ({} : Session).runProgram_reordered Store.tabled_empty closed_arrivalProgram
    arrivalProgram.reordered_reverse
  rw [hresult, hresult'] at hruns
  obtain ⟨hanswers, hrules⟩ := Prod.mk.inj hfound
  obtain ⟨hanswers', hrules'⟩ := Prod.mk.inj hfound'
  exact ⟨report, report', hresult, hresult', hanswers, hanswers', hrules, hrules', hruns.ok_inv⟩

end HornQuery
