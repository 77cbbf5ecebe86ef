import Mathlib
import HornQuery.Proofs.Materialization

/-!
# What is written can be read back

A program may be written to a store that is not empty: one that other programs, symbols and facts have
been written to, where some of these attempts failed. Either everything of the program is added or
nothing is, and it is said exactly when (`Program.materialize_faithful`).

What is added is a faithful encoding. A row of a fact table is read back through the symbol table
(`Database.decode?`), and the rows that a program adds give its facts again, in order and as often as
the program has them. Rows that were there before do not get in the way, because the numbers of the
program's symbols are free (`Program.symbolOf?_addedTo`) and no number is ever used twice
(`Store.Numbered`).
-/

namespace HornQuery

/-! ### Histories of a store -/

namespace Store

/-- Something that can be done to a store. -/
inductive Operation where
  | bootstrap
  | clear
  | insertSymbols (symbols : SymbolTable)
  | insertFacts (rows : List FactRow)
  | materialize (p : Program)

/-- The store after an operation, whether it succeeds or not. -/
def perform (s : Store) : Operation → Store
  | .bootstrap => s.bootstrap
  | .clear => s.clear.toOption.getD s
  | .insertSymbols symbols => (s.insertSymbols symbols).toOption.getD s
  | .insertFacts rows => (s.insertFacts rows).toOption.getD s
  | .materialize p => (p.materialize s).store

/-- The store after a history. -/
def performAll (s : Store) (ops : List Operation) : Store := ops.foldl perform s

/-- No two symbols of the store have the same number. -/
def Numbered (s : Store) : Prop :=
  ∀ db, s.database = some db → (db.symbols.map SymbolRow.id).Nodup

variable {s s' : Store}

theorem numbered_mk {db : Database} (h : (db.symbols.map SymbolRow.id).Nodup) :
    Numbered ⟨some db⟩ := by
  rintro _ ⟨⟩
  exact h

theorem numbered_bootstrap (h : s.Numbered) : s.bootstrap.Numbered := by
  obtain ⟨_ | db⟩ := s
  · exact numbered_mk List.nodup_nil
  · exact h

/-- A symbol is added only under a number that is free. -/
theorem nodup_foldlM_insertSymbol {entries : List (Int × Symbol)} {db db' : Database}
    (h : (db.symbols.map SymbolRow.id).Nodup)
    (hdb : entries.foldlM (fun db (id, symbol) ↦ db.insertSymbol ⟨id, symbol⟩) db = .ok db') :
    (db'.symbols.map SymbolRow.id).Nodup := by
  induction entries generalizing db with
  | nil => exact Except.ok.inj hdb ▸ h
  | cons entry entries ih =>
    obtain ⟨id, symbol⟩ := entry
    rw [List.foldlM_cons] at hdb
    obtain ⟨next, hnext, hdb⟩ := except_bind_eq_ok hdb
    refine ih ?_ hdb
    have hinsert : db.insertSymbol ⟨id, symbol⟩ = .ok next := hnext
    have hid : id ∉ db.symbols.map SymbolRow.id := fun hid ↦ by
      rw [Database.insertSymbol, if_pos (Database.hasId_iff.mpr hid)] at hinsert
      cases hinsert
    rw [Database.insertSymbol_eq_ok hinsert]
    show ((db.symbols ++ [SymbolRow.mk id symbol]).map SymbolRow.id).Nodup
    rw [List.map_append, List.map_singleton, List.nodup_append_comm]
    exact List.nodup_cons.mpr ⟨hid, h⟩

/-- Symbols go in only if their numbers are free, so the numbers stay different. -/
theorem numbered_insertSymbols (h : s.Numbered) {symbols : SymbolTable}
    (hs : s.insertSymbols symbols = .ok s') : s'.Numbered := by
  obtain ⟨_ | db⟩ := s
  · cases hs
  · obtain ⟨db', hdb', hs⟩ := except_bind_eq_ok hs
    obtain rfl := Except.ok.inj hs
    exact numbered_mk (nodup_foldlM_insertSymbol (h db rfl) hdb')

/-- Facts do not touch the numbers. -/
theorem numbered_insertFacts (h : s.Numbered) {rows : List FactRow}
    (hs : s.insertFacts rows = .ok s') : s'.Numbered := by
  obtain ⟨_ | db⟩ := s
  · obtain _ | ⟨row, rows⟩ := rows
    · exact Except.ok.inj hs ▸ h
    · cases hs
  · rw [insertFacts_eq_ok hs]
    exact numbered_mk (h db rfl)

/-- Putting a program into the store keeps numbers different, whether it succeeds or not. -/
theorem numbered_materialize (h : s.Numbered) (p : Program) : (p.materialize s).store.Numbered := by
  unfold Program.materialize
  simp only
  split
  · exact h
  · split
    · exact h
    · rename_i hsymbols
      split
      · exact numbered_insertSymbols h hsymbols
      · rename_i hfacts
        exact numbered_insertFacts (numbered_insertSymbols h hsymbols) hfacts

/-- What a success preserves, an operation preserves that changes nothing when it fails. -/
theorem numbered_getD (h : s.Numbered) {result : Except StorageError Store}
    (hresult : ∀ s', result = .ok s' → s'.Numbered) : (result.toOption.getD s).Numbered := by
  obtain _ | s' := result
  · exact h
  · exact hresult s' rfl

/-- Every operation keeps numbers different, and a failed one changes nothing. -/
theorem numbered_perform (h : s.Numbered) (op : Operation) : (s.perform op).Numbered := by
  obtain _ | _ | symbols | rows | p := op
  · exact numbered_bootstrap h
  · refine numbered_getD h fun s' hs' ↦ ?_
    rw [eq_of_clear_eq_ok hs']
    exact numbered_mk List.nodup_nil
  · exact numbered_getD h fun _ ↦ numbered_insertSymbols h
  · exact numbered_getD h fun _ ↦ numbered_insertFacts h
  · exact numbered_materialize h p

/-- So they are different after any history. -/
theorem numbered_performAll (h : s.Numbered) (ops : List Operation) : (s.performAll ops).Numbered := by
  induction ops generalizing s with
  | nil => exact h
  | cons op ops ih => exact ih (numbered_perform h op)

end Store

/-! ### Reading rows -/

namespace Database

/-- The symbol with a number. -/
def symbolOf? (db : Database) (id : Int) : Option Symbol :=
  (db.symbols.find? fun r ↦ r.id = id).map (·.symbol)

/-- The text of the constant with a number. -/
def textOf? (db : Database) (id : Int) : Option String :=
  (db.symbolOf? id).bind fun s ↦ if s.arity = 0 then some s.text else none

/-- The fact that a row stands for. The relation has to take as many arguments as there are, and the
arguments have to be constants. -/
def decode? (db : Database) (row : FactRow) : Option Fact := do
  let relation ← db.symbolOf? row.functor
  let args ← row.args.mapM db.textOf?
  if relation.arity = args.length then some ⟨relation.text, args⟩ else none

end Database

theorem mapM_map_eq_some {α β : Type} {f : α → β} {g : β → Option α} {l : List α}
    (h : ∀ a ∈ l, g (f a) = some a) : (l.map f).mapM g = some l := by
  induction l with
  | nil => rfl
  | cons a l ih =>
    obtain ⟨ha, hl⟩ := List.forall_mem_cons.mp h
    rw [List.map_cons, List.mapM_cons, ha, ih hl]
    rfl

theorem Distinct.append_of_nodup {α : Type} [DecidableEq α] {s t : List α} (h : (s ++ t).Nodup) :
    Distinct.append s t = s ++ t := by
  induction t generalizing s with
  | nil => simp
  | cons a t ih =>
    have ha : a ∉ s := fun ha ↦ (List.nodup_append.mp h).2.2 a ha a List.mem_cons_self rfl
    rw [Distinct.append_cons, Distinct.insert, if_neg ha, ih (by simpa using h)]
    simp

namespace Program

variable {p : Program} {db : Database}

/-- The table of a closed program has the program's symbols in their order. -/
theorem symbols_symbolTable (hp : p.Closed) : p.symbolTable.symbols = p.symbols := by
  rw [symbolTable, SymbolTable.symbols_ofList]
  exact Distinct.append_of_nodup hp.symbols_nodup

/-- A number of the program's symbols is taken, that is, one between one and how many there are. -/
theorem exists_takenId?_iff (hp : p.Closed) :
    (∃ id, p.takenId? db = some id) ↔
      ∃ id : Int, 1 ≤ id ∧ id ≤ p.symbols.length ∧ db.hasId id = true := by
  rw [← Option.isSome_iff_exists, takenId?, List.find?_isSome,
    p.symbolTable_numbered.map_fst_toList, ← SymbolTable.length_symbols, symbols_symbolTable hp]
  constructor
  · rintro ⟨_, hid, htaken⟩
    obtain ⟨i, hi, rfl⟩ := List.mem_map.mp hid
    have hlt := List.mem_range.mp hi
    exact ⟨_, by omega, by omega, htaken⟩
  · rintro ⟨id, hpos, hle, htaken⟩
    exact ⟨id, List.mem_map.mpr ⟨(id - 1).toNat, List.mem_range.mpr (by omega), by omega⟩, htaken⟩

/-- A row of a program's symbols has the number of its symbol. -/
theorem mem_symbols_database {row : SymbolRow} :
    row ∈ p.database.symbols ↔ p.symbolTable.get? row.symbol = some row.id := by
  obtain ⟨id, s⟩ := row
  rw [SymbolTable.get?_eq_some_iff_mem]
  constructor
  · intro h
    obtain ⟨entry, hentry, heq⟩ := List.mem_map.mp h
    obtain ⟨⟨s', id'⟩, hmem, rfl⟩ := List.mem_map.mp hentry
    obtain ⟨rfl, rfl⟩ := SymbolRow.mk.inj heq
    exact hmem
  · intro hmem
    exact List.mem_map.mpr ⟨_, List.mem_map.mpr ⟨(s, id), hmem, rfl⟩, rfl⟩

/-- The number of a symbol leads back to the symbol, whatever stood in the table before. -/
theorem symbolOf?_addedTo (hfree : p.takenId? db = none) {s : Symbol} {id : Int}
    (hid : p.symbolTable.get? s = some id) : (p.addedTo db).symbolOf? id = some s := by
  have hmem : SymbolRow.mk id s ∈ p.database.symbols := mem_symbols_database.mpr hid
  have hold : db.symbols.find? (fun r ↦ r.id = id) = none := by
    obtain ⟨entry, hentry, heq⟩ := List.mem_map.mp hmem
    obtain ⟨rfl, -⟩ := SymbolRow.mk.inj heq
    have hnot := List.find?_eq_none.mp hfree _ (List.mem_map_of_mem (f := Prod.fst) hentry)
    simpa [Database.hasId] using hnot
  rw [Database.symbolOf?, addedTo, List.find?_append, hold, Option.none_or]
  obtain ⟨row, hrow⟩ : ∃ row, p.database.symbols.find? (fun r ↦ r.id = id) = some row :=
    Option.isSome_iff_exists.mp (List.find?_isSome.mpr ⟨_, hmem, by simp⟩)
  have hrowId : row.id = id := by simpa using List.find?_some hrow
  have hget := mem_symbols_database.mp (List.mem_of_find?_eq_some hrow)
  rw [hrow, Option.map_some, p.symbolTable_numbered.get?_inj hget (hrowId ▸ hid)]

/-- A number of the program leads back to its text, also among the symbols that were there
before. -/
theorem textOf?_addedTo (hfree : p.takenId? db = none) {text : String}
    (h : .constant text ∈ p.symbols) :
    (p.addedTo db).textOf? ((p.symbolTable.constant? text).getD 0) = some text := by
  obtain ⟨id, hid⟩ := SymbolTable.exists_get? (mem_symbolTable.mpr h)
  rw [SymbolTable.constant?, hid, Option.getD_some, Database.textOf?, symbolOf?_addedTo hfree hid]
  rfl

/-- The row of a fact leads back to the fact. -/
theorem decode?_addedTo (hp : p.Closed) (hfree : p.takenId? db = none) {f : Fact} (hf : f ∈ p.facts) :
    (p.addedTo db).decode? (f.numbers p.symbolTable) = some f := by
  obtain ⟨hsymbol, hargs⟩ := hp.facts f hf
  obtain ⟨id, hid⟩ := SymbolTable.exists_get? (mem_symbolTable.mpr hsymbol)
  have hrelation : (p.addedTo db).symbolOf? ((p.symbolTable.get? f.symbol).getD 0) = some f.symbol := by
    rw [hid, Option.getD_some, symbolOf?_addedTo hfree hid]
  have htexts : (f.args.map fun a ↦ (p.symbolTable.constant? a).getD 0).mapM (p.addedTo db).textOf? =
      some f.args := mapM_map_eq_some fun a ha ↦ textOf?_addedTo hfree (hargs a ha)
  simp only [Database.decode?, Fact.numbers, hrelation, htexts, Option.bind_eq_bind, Option.bind_some]
  exact if_pos rfl

/-- The facts of the program come behind those of the store, arity by arity. -/
theorem factsOf_addedTo (p : Program) (db : Database) (arity : Nat) :
    (p.addedTo db).factsOf arity = db.factsOf arity ++
      (p.facts.filter fun f ↦ f.args.length = arity).map (Fact.numbers p.symbolTable) := by
  rw [Database.factsOf, addedTo, List.filter_append, Database.factsOf, database, List.filter_map]
  simp [Function.comp_def, Fact.numbers]

/-- **Writing a program is a faithful encoding, and all or nothing.** Take a collected program and a
store with tables, after any history. Writing fails exactly if a fact has more arguments than any table
or one of the numbers for the program's symbols is taken, and it then changes nothing. Otherwise the
symbol table gains the row of each symbol of the program under the symbol's place, and the table for each
arity gains as many rows as there are facts of the arity; read back through the symbol table, in which
every number stands for one symbol, these are the facts in the program's order. -/
theorem materialize_faithful (hp : p.Collected) {ops : List Store.Operation}
    (hdb : (Store.performAll {} ops).database = some db) {m : Materialized}
    (hm : m = p.materialize (Store.performAll {} ops)) :
    ((∃ e, m.symbols = .error e) ↔
        (∃ f ∈ p.facts, Schema.maxArity < f.args.length) ∨
          ∃ id : Int, 1 ≤ id ∧ id ≤ p.symbols.length ∧ db.hasId id = true) ∧
      (∀ e, m.symbols = .error e → m.store.database = some db) ∧
      ∀ t, m.symbols = .ok t → ∃ db', m.store.database = some db' ∧
        db'.symbols = db.symbols ++ p.symbols.zipIdx.map (fun (s, i) ↦ ⟨(i : Int) + 1, s⟩) ∧
        (db'.symbols.map SymbolRow.id).Nodup ∧
        ∀ arity, ∃ rows, db'.factsOf arity = db.factsOf arity ++ rows ∧
          rows.mapM db'.decode? = some (p.facts.filter fun f ↦ f.args.length = arity) := by
  have hclosed := hp.closed
  have hwide : (∃ f ∈ p.facts, Schema.maxArity < f.args.length) ↔ p.wideFact? ≠ none := by
    rw [ne_eq, wideFact?_eq_none_iff]
    push Not
    rfl
  have hempty : Store.Numbered {} := by rintro _ ⟨⟩
  have hnumbered : m.store.Numbered :=
    hm ▸ Store.numbered_materialize (Store.numbered_performAll hempty ops) p
  have hstore : Store.performAll {} ops = ⟨some db⟩ := congrArg Store.mk hdb
  rw [hstore] at hm
  rw [hwide, ← exists_takenId?_iff hclosed]
  -- There are two ways to fail, a fact that is too wide and a number that is taken. Both leave the
  -- store alone.
  obtain ⟨f, hf, heq⟩ | ⟨id, hnone, hid, heq⟩ | ⟨hnone, hfree, hadded, hsymbols⟩ :=
    materialize_cases hclosed db
  · rw [hm, heq]
    refine ⟨iff_of_true ⟨_, rfl⟩ (Or.inl (by simp [hf])), fun _ _ ↦ rfl, ?_⟩
    rintro _ ⟨⟩
  · rw [hm, heq]
    refine ⟨iff_of_true ⟨_, rfl⟩ (Or.inr ⟨id, hid⟩), fun _ _ ↦ rfl, ?_⟩
    rintro _ ⟨⟩
  · rw [hm, hadded] at hnumbered
    rw [hm, hadded, hsymbols, hnone, hfree]
    refine ⟨iff_of_false (by simp) (by simp), by simp, fun _ _ ↦ ⟨_, rfl, ?_, hnumbered _ rfl,
      fun arity ↦ ⟨_, p.factsOf_addedTo db arity, mapM_map_eq_some fun f hf ↦ ?_⟩⟩⟩
    · show db.symbols ++ p.database.symbols = _
      rw [database, SymbolTable.toList, p.symbolTable_numbered, symbols_symbolTable hclosed, List.map_map,
        List.map_map]
      rfl
    · exact decode?_addedTo hclosed hfree (List.mem_of_mem_filter hf)

/-- One text as a constant and as the name of relations of two arities, and a fact that is repeated. -/
def echoProgram : Program where
  symbols := [⟨"a", 1⟩, ⟨"a", 0⟩, ⟨"a", 2⟩, ⟨"b", 0⟩]
  occurrences := [(⟨"a", 1⟩, ["a"]), (⟨"a", 2⟩, ["a", "b"]), (⟨"a", 1⟩, ["a"])]
  facts := [⟨"a", ["a"]⟩, ⟨"a", ["a", "b"]⟩, ⟨"a", ["a"]⟩]
  relations := [⟨"a", 1⟩, ⟨"a", 2⟩]

theorem parse_echoProgram : Program.parse "a(a). a(a, b). a(a)." = .ok ⟨echoProgram, 3, 0⟩ := by
  decide +kernel

/-- Other symbols take the first numbers, a fact refers to no symbol, and all is deleted again. -/
def echoHistory : List Store.Operation :=
  [.clear, .bootstrap, .insertSymbols (.ofList [⟨"b", 0⟩, ⟨"c", 3⟩]), .insertFacts [⟨7, [1]⟩],
    .insertFacts [⟨2, [1, 1, 1]⟩], .materialize echoProgram, .clear]

/-- After the history the program can be written, and both copies of the fact are read back. Before the
tables were cleared it could not. -/
theorem materialize_faithful_echo :
    (∃ db', (echoProgram.materialize (Store.performAll {} echoHistory)).store.database = some db' ∧
        ∃ rows, db'.factsOf 1 = rows ∧
          rows.mapM db'.decode? = some [⟨"a", ["a"]⟩, ⟨"a", ["a"]⟩]) ∧
      (∃ e, (echoProgram.materialize (Store.performAll {} echoHistory.dropLast)).symbols = .error e) ∧
      (echoProgram.materialize (Store.performAll {} echoHistory.dropLast)).store.database =
        some ⟨[⟨1, ⟨"b", 0⟩⟩, ⟨2, ⟨"c", 3⟩⟩], [⟨2, [1, 1, 1]⟩]⟩ := by
  have hcollected := collected_of_parse parse_echoProgram
  have hempty : (Store.performAll {} echoHistory).database = some {} := by decide +kernel
  have hfull : (Store.performAll {} echoHistory.dropLast).database =
      some ⟨[⟨1, ⟨"b", 0⟩⟩, ⟨2, ⟨"c", 3⟩⟩], [⟨2, [1, 1, 1]⟩]⟩ := by decide +kernel
  obtain ⟨hfails, -, hwritten⟩ := materialize_faithful hcollected hempty rfl
  obtain ⟨hfails', hkept, -⟩ := materialize_faithful hcollected hfull rfl
  obtain ⟨e, he⟩ := hfails'.mpr (Or.inr ⟨1, by decide, by decide, by decide⟩)
  refine ⟨?_, ⟨e, he⟩, hkept e he⟩
  cases hsymbols : (echoProgram.materialize (Store.performAll {} echoHistory)).symbols with
  | error e =>
    obtain ⟨f, hf, hwide⟩ | ⟨id, -, -, hid⟩ := hfails.mp ⟨e, hsymbols⟩
    · exact absurd hwide ((by decide : ∀ f ∈ echoProgram.facts, ¬ Schema.maxArity < f.args.length) f hf)
    · cases hid
  | ok t =>
    obtain ⟨db', hdb', -, -, hrows⟩ := hwritten t hsymbols
    obtain ⟨rows, hrows, hdecoded⟩ := hrows 1
    exact ⟨db', hdb', rows, hrows, hdecoded⟩

end Program

end HornQuery
