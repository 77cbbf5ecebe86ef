import Mathlib
import HornQuery.Proofs.History

/-!
# Writing a program always works, unless a fact is too wide

The store refuses a symbol whose number is taken and a fact that refers to a number without a symbol.
The latter never happens with a program that lists what it mentions, because all its symbols are written
before the first fact (`Program.materialize_cases`). In an empty store no number is taken either, so the
only thing that can go wrong is a fact with more arguments than any table has, and the first such fact is
the one that is named (`Program.symbols_materialize`). What a run does after that is to answer queries on
the rows of the program (`Program.result_run`).
-/

namespace HornQuery

/-- The first fact with more arguments than any table. -/
def Program.wideFact? (p : Program) : Option Fact :=
  p.facts.find? fun f ↦ Schema.maxArity < f.args.length

/-- No fact is too wide if a search for one finds nothing. -/
theorem Program.wideFact?_eq_none_iff {p : Program} :
    p.wideFact? = none ↔ ∀ f ∈ p.facts, f.args.length ≤ Schema.maxArity := by
  simp [wideFact?]

/-! ### Rows -/

theorem SymbolTable.require_of_mem {t : SymbolTable} {s : Symbol} (h : s ∈ t.symbols) :
    t.require s = .ok ((t.get? s).getD 0) := by
  obtain ⟨id, hid⟩ := exists_get? h
  simp [require, hid]

/-- Constants of the table all get their numbers. -/
theorem SymbolTable.mapM_require {t : SymbolTable} {texts : List String}
    (h : ∀ text ∈ texts, .constant text ∈ t.symbols) :
    texts.mapM (fun text ↦ t.require (.constant text)) =
      .ok (texts.map fun text ↦ (t.constant? text).getD 0) := by
  induction texts with
  | nil => rfl
  | cons text texts ih =>
    obtain ⟨hfirst, hrest⟩ := List.forall_mem_cons.mp h
    rw [List.mapM_cons, require_of_mem hfirst, ih hrest]
    rfl

/-- A fact that mentions nothing but symbols of the table has a row, unless it is too wide. -/
theorem Fact.row_of_known {t : SymbolTable} {f : Fact} (h : f.Known t.symbols) :
    f.row t = if Schema.maxArity < f.args.length then .error (.unsupportedArity f.symbol)
      else .ok (f.numbers t) := by
  unfold Fact.row
  split
  · rfl
  · rw [SymbolTable.require_of_mem h.1, SymbolTable.mapM_require h.2]
    rfl

/-- Facts whose symbols are known become rows, unless one is too wide; then the first such one is
named. -/
theorem Fact.mapM_row_of_known {t : SymbolTable} {facts : List Fact}
    (h : ∀ f ∈ facts, f.Known t.symbols) :
    facts.mapM (Fact.row t) =
      match facts.find? fun f ↦ Schema.maxArity < f.args.length with
      | some f => .error (.unsupportedArity f.symbol)
      | none => .ok (facts.map (Fact.numbers t)) := by
  induction facts with
  | nil => rfl
  | cons f facts ih =>
    obtain ⟨hfirst, hrest⟩ := List.forall_mem_cons.mp h
    rw [List.mapM_cons, row_of_known hfirst, ih hrest, List.find?_cons]
    by_cases hwide : Schema.maxArity < f.args.length
    · simp only [hwide, if_true, decide_true]
      rfl
    · simp only [hwide, if_false, decide_false]
      cases facts.find? fun f ↦ Schema.maxArity < f.args.length <;> rfl

/-! ### Insertion -/

namespace Database

variable {db : Database}

theorem hasId_iff {id : Int} : db.hasId id = true ↔ id ∈ db.symbols.map SymbolRow.id := by
  simp [hasId]

/-- Symbols under different numbers are inserted one after the other, up to the first number that is
taken. -/
theorem foldlM_insertSymbol_of_nodup {entries : List (Int × Symbol)}
    (h : (entries.map Prod.fst).Nodup) :
    entries.foldlM (fun db (id, symbol) ↦ db.insertSymbol ⟨id, symbol⟩) db =
      match entries.find? fun entry ↦ db.hasId entry.1 with
      | some entry => .error (.repeatedId entry.1)
      | none =>
        .ok { db with symbols := db.symbols ++ entries.map fun (id, symbol) ↦ ⟨id, symbol⟩ } := by
  induction entries generalizing db with
  | nil => simp [pure, Except.pure]
  | cons entry entries ih =>
    obtain ⟨id, symbol⟩ := entry
    obtain ⟨hfresh, hrest⟩ := List.nodup_cons.mp h
    rw [List.foldlM_cons, List.find?_cons]
    cases hid : db.hasId id with
    | true =>
      simp only [insertSymbol, hid, if_true]
      rfl
    | false =>
      -- The number just used is not one of those to come.
      have hsame : entries.find? (fun entry ↦
          hasId { db with symbols := db.symbols ++ [⟨id, symbol⟩] } entry.1) =
          entries.find? fun entry ↦ db.hasId entry.1 := by
        refine List.find?_congr fun entry hentry ↦ ?_
        have hne : id ≠ entry.1 := fun heq ↦ hfresh (List.mem_map.mpr ⟨entry, hentry, heq.symm⟩)
        simp [hasId, hne]
      have hinsert : db.insertSymbol ⟨id, symbol⟩ =
          .ok { db with symbols := db.symbols ++ [⟨id, symbol⟩] } := by
        simp [insertSymbol, hid]
      simp only [hinsert, bind, Except.bind, ih hrest, hsame]
      cases entries.find? fun entry ↦ db.hasId entry.1 <;> simp

/-- Facts that are not too wide can be inserted once their numbers stand for symbols. -/
theorem foldlM_insertFact_of_hasId {rows : List FactRow}
    (harity : ∀ row ∈ rows, row.args.length ≤ Schema.maxArity)
    (hids : ∀ row ∈ rows, ∀ id ∈ row.functor :: row.args, db.hasId id = true) :
    rows.foldlM insertFact db = .ok { db with facts := db.facts ++ rows } := by
  induction rows generalizing db with
  | nil => simp [pure, Except.pure]
  | cons row rows ih =>
    obtain ⟨hfirst, hrest⟩ := List.forall_mem_cons.mp harity
    obtain ⟨hfirstIds, hrestIds⟩ := List.forall_mem_cons.mp hids
    have hfound : (row.functor :: row.args).find? (fun id ↦ !db.hasId id) = none := by
      rw [List.find?_eq_none]
      intro id hid
      simp [hfirstIds id hid]
    have hinsert : db.insertFact row = .ok { db with facts := db.facts ++ [row] } := by
      simp only [insertFact, Nat.not_lt.mpr hfirst, if_false, hfound]
    have hnext : rows.foldlM insertFact { db with facts := db.facts ++ [row] } = _ :=
      ih hrest hrestIds
    simp only [List.foldlM_cons, hinsert, bind, Except.bind, hnext]
    simp

end Database

/-! ### Programs -/

/-- The numbers in a numbered table are those from one on. -/
theorem SymbolTable.Numbered.map_fst_toList {t : SymbolTable} (ht : t.Numbered) :
    t.toList.map Prod.fst = (List.range t.size).map fun i : Nat ↦ (i : Int) + 1 := by
  have hids : t.toList.map Prod.fst =
      (t.symbols.zipIdx.map Prod.snd).map fun i : Nat ↦ (i : Int) + 1 := by
    rw [toList, ht, List.map_map, List.map_map, List.map_map]
    rfl
  rw [hids, List.zipIdx_map_snd, length_symbols, List.range_eq_range']

theorem SymbolTable.Numbered.nodup_toList {t : SymbolTable} (ht : t.Numbered) :
    (t.toList.map Prod.fst).Nodup := by
  rw [ht.map_fst_toList]
  exact List.nodup_range.map fun i j hij ↦ by simpa using hij

namespace Program

variable {p : Program}

/-- Once the rows of a program are among its rows, a database knows the numbers of all its symbols. -/
theorem hasId_of_mem {db : Database} (hdb : p.database.symbols ⊆ db.symbols) {s : Symbol}
    (h : s ∈ p.symbols) : db.hasId ((p.symbolTable.get? s).getD 0) = true := by
  obtain ⟨id, hid⟩ := SymbolTable.exists_get? (mem_symbolTable.mpr h)
  have hmem : (s, id) ∈ p.symbolTable.entries := SymbolTable.get?_eq_some_iff_mem.mp hid
  rw [hid, Option.getD_some, Database.hasId_iff]
  exact List.mem_map.mpr ⟨⟨id, s⟩, hdb (List.mem_map.mpr ⟨(id, s),
    List.mem_map.mpr ⟨(s, id), hmem, rfl⟩, rfl⟩), rfl⟩

/-- The first number of a program's symbols that is taken in a database. -/
def takenId? (p : Program) (db : Database) : Option Int :=
  (p.symbolTable.toList.map Prod.fst).find? db.hasId

/-- The symbols of a program can be inserted if none of their numbers is taken. -/
theorem insertSymbols_symbolTable (p : Program) (db : Database) :
    Store.insertSymbols ⟨some db⟩ p.symbolTable =
      match p.takenId? db with
      | some id => .error (.repeatedId id)
      | none => .ok ⟨some { db with symbols := db.symbols ++ p.database.symbols }⟩ := by
  have htaken : p.takenId? db =
      (p.symbolTable.toList.find? fun entry ↦ db.hasId entry.1).map Prod.fst := List.find?_map
  rw [htaken]
  simp only [Store.insertSymbols, Database.foldlM_insertSymbol_of_nodup p.symbolTable_numbered.nodup_toList]
  cases p.symbolTable.toList.find? fun entry ↦ db.hasId entry.1 <;> rfl

/-- The facts of a program that lists what it mentions can be inserted after its symbols. -/
theorem insertFacts_numbers (hp : p.Closed) (hwide : p.wideFact? = none) {db : Database}
    (hdb : p.database.symbols ⊆ db.symbols) :
    Store.insertFacts ⟨some db⟩ (p.facts.map (Fact.numbers p.symbolTable)) =
      .ok ⟨some { db with facts := db.facts ++ p.database.facts }⟩ := by
  have hinsert : (p.facts.map (Fact.numbers p.symbolTable)).foldlM Database.insertFact db =
      .ok { db with facts := db.facts ++ p.database.facts } := by
    refine Database.foldlM_insertFact_of_hasId (fun row hrow ↦ ?_) fun row hrow id hid ↦ ?_
    · obtain ⟨f, hf, rfl⟩ := List.mem_map.mp hrow
      simpa [Fact.numbers] using wideFact?_eq_none_iff.mp hwide f hf
    · obtain ⟨f, hf, rfl⟩ := List.mem_map.mp hrow
      obtain ⟨hsymbol, hargs⟩ := hp.facts f hf
      rcases List.mem_cons.mp hid with rfl | hid
      · exact hasId_of_mem hdb hsymbol
      · obtain ⟨a, ha, rfl⟩ := List.mem_map.mp hid
        exact hasId_of_mem hdb (hargs a ha)
  cases hrows : p.facts.map (Fact.numbers p.symbolTable) with
  | nil =>
    rw [hrows] at hinsert
    exact congrArg (fun db ↦ Except.ok (Store.mk (some db))) (Except.ok.inj hinsert)
  | cons row rows =>
    rw [hrows] at hinsert
    simp only [Store.insertFacts, hinsert]
    rfl

/-- The rows of a database and those of a program after them. -/
def addedTo (p : Program) (db : Database) : Database where
  symbols := db.symbols ++ p.database.symbols
  facts := db.facts ++ p.database.facts

/-- **Writing a program to a store.** The first fact that is too wide is named, or else the first number
that is taken, and nothing is written. Otherwise the rows of the program are added. -/
theorem materialize_cases (hp : p.Closed) (db : Database) :
    (∃ f, p.wideFact? = some f ∧
        p.materialize ⟨some db⟩ = ⟨⟨some db⟩, [], .error (.unsupportedArity f.symbol)⟩) ∨
      (∃ id, p.wideFact? = none ∧ p.takenId? db = some id ∧
        p.materialize ⟨some db⟩ = ⟨⟨some db⟩, [], .error (.storage (.repeatedId id))⟩) ∨
      (p.wideFact? = none ∧ p.takenId? db = none ∧
        (p.materialize ⟨some db⟩).store = ⟨some (p.addedTo db)⟩ ∧
        (p.materialize ⟨some db⟩).symbols = .ok p.symbolTable) := by
  have hrows : p.facts.mapM (Fact.row p.symbolTable) = _ := Fact.mapM_row_of_known fun f hf ↦
    ⟨mem_symbolTable.mpr (hp.facts f hf).1, fun a ha ↦ mem_symbolTable.mpr ((hp.facts f hf).2 a ha)⟩
  have hsymbols := p.insertSymbols_symbolTable db
  cases hwide : p.wideFact? with
  | some f =>
    have hfind : p.facts.find? _ = some f := hwide
    exact Or.inl ⟨f, rfl, by simp [materialize, hrows, hfind]⟩
  | none =>
    have hfind : p.facts.find? _ = none := hwide
    simp only [hfind] at hrows
    cases htaken : p.takenId? db with
    | some id =>
      rw [htaken] at hsymbols
      exact Or.inr (Or.inl ⟨id, rfl, rfl, by simp [materialize, hrows, hsymbols]⟩)
    | none =>
      rw [htaken] at hsymbols
      have hfacts : Store.insertFacts ⟨some { db with symbols := db.symbols ++ p.database.symbols }⟩
          (p.facts.map (Fact.numbers p.symbolTable)) = _ :=
        insertFacts_numbers hp hwide (List.subset_append_right _ _)
      refine Or.inr (Or.inr ⟨rfl, rfl, ?_, ?_⟩) <;>
        simp [materialize, hrows, hsymbols, hfacts, addedTo]

/-- **Writing a program to an empty store.** The first fact that is too wide is named. Without any, the
rows of the program are in the store. -/
theorem symbols_materialize (hp : p.Closed) :
    (p.materialize ⟨some {}⟩).symbols =
        (match p.wideFact? with
        | some f => .error (.unsupportedArity f.symbol)
        | none => .ok p.symbolTable) ∧
      (p.wideFact? = none → (p.materialize ⟨some {}⟩).store = ⟨some p.database⟩) := by
  obtain ⟨f, hwide, heq⟩ | ⟨id, -, htaken, -⟩ | ⟨hwide, -, hstore, hsymbols⟩ :=
    materialize_cases hp {}
  · rw [heq, hwide]
    exact ⟨rfl, by simp⟩
  · cases List.find?_some htaken
  · rw [hwide]
    exact ⟨hsymbols, fun _ ↦ hstore⟩

/-- A run of a program that lists what it mentions stops at the first fact that is too wide, and else
answers the queries on the rows of the program. -/
theorem result_run (hp : p.Closed) {store : Store} (hstore : store.Tabled) (config : Config) :
    (p.run config store).result =
      match p.wideFact? with
      | some f => .error (.unsupportedArity f.symbol)
      | none => (p.answers config ⟨some p.database⟩ p.symbolTable).result := by
  obtain ⟨hsymbols, hdatabase⟩ := symbols_materialize hp
  simp only [run, Store.clear_bootstrap hstore, hsymbols]
  cases hwide : p.wideFact? with
  | some f => rfl
  | none => simp only [hdatabase hwide]

/-- A run that succeeds, on whatever store, answers the queries on the rows of the program and logs that
after writing them. -/
theorem answers_of_run (hp : p.Closed) {store : Store} {config : Config} {report : Report}
    (h : (p.run config store).result = .ok report) :
    (p.answers config ⟨some p.database⟩ p.symbolTable).result = .ok report ∧
      (p.run config store).log = (p.materialize ⟨some {}⟩).log ++
        (p.answers config ⟨some p.database⟩ p.symbolTable).log := by
  have hclear := clear_of_run h
  obtain ⟨hsymbols, hdatabase⟩ := symbols_materialize hp
  simp only [run, hclear, hsymbols] at h ⊢
  cases hwide : p.wideFact? with
  | some f =>
    rw [hwide] at h
    cases h
  | none =>
    simp only [hwide, hdatabase hwide] at h ⊢
    exact ⟨h, trivial⟩

end Program

end HornQuery
