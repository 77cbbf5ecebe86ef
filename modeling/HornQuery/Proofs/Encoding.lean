import Mathlib
import HornQuery.Proofs.Collected
import HornQuery.Proofs.Names
import HornQuery.Proofs.Substitution
import HornQuery.Session

/-!
# A program as numbers

The store keeps numbers in place of texts. This module says what is in it after a program has been
written to an empty store (`Program.database`, `Program.materialize_eq_ok`), and that nothing is lost:
numbers of symbols are equal only if the symbols are (`SymbolTable.Numbered.get?_inj`), and comparing the cell of
an interned text with another cell is comparing the texts (`SymbolTable.Numbered.equals_cell`).

The two counts at the end are what a scan sees of a program. Among the rows of the symbol table there is
exactly one for each constant, and among the rows of a fact table there are as many for a fact as the
program has copies of it.
-/

namespace HornQuery

/-! ### Numbers of symbols -/

namespace SymbolTable

variable {t : SymbolTable}

/-- The number of a symbol is the one of its entry, of which there is only one. -/
theorem get?_eq_some_iff_mem {s : Symbol} {id : Int} : t.get? s = some id ↔ (s, id) ∈ t.entries := by
  rw [get?, List.lookup_eq_some_iff]
  constructor
  · rintro ⟨before, after, h, -⟩
    rw [h]
    simp
  · intro h
    obtain ⟨before, after, heq⟩ := List.append_of_mem h
    refine ⟨before, after, heq, fun e he ↦ ?_⟩
    have hnodup := t.nodup
    rw [heq, List.map_append, List.nodup_append] at hnodup
    have hne : e.1 ≠ s := hnodup.2.2 _ (List.mem_map_of_mem he) _ (by simp)
    simpa using hne.symm

/-- In a numbered table the number of a symbol is its place. -/
theorem Numbered.get?_eq_some_iff (ht : t.Numbered) {s : Symbol} {id : Int} :
    t.get? s = some id ↔ ∃ i : Nat, t.symbols[i]? = some s ∧ id = (i : Int) + 1 := by
  rw [get?_eq_some_iff_mem, ht, List.mem_map]
  constructor
  · rintro ⟨⟨s', i⟩, hmem, heq⟩
    obtain ⟨rfl, rfl⟩ := Prod.mk.inj heq
    exact ⟨i, List.mem_zipIdx_iff_getElem?.mp hmem, rfl⟩
  · rintro ⟨i, hi, rfl⟩
    exact ⟨(s, i), List.mem_zipIdx_iff_getElem?.mpr hi, rfl⟩

/-- Different symbols have different numbers. -/
theorem Numbered.get?_inj (ht : t.Numbered) {s s' : Symbol} {id : Int} (h : t.get? s = some id)
    (h' : t.get? s' = some id) : s = s' := by
  obtain ⟨i, hi, rfl⟩ := ht.get?_eq_some_iff.mp h
  obtain ⟨j, hj, heq⟩ := ht.get?_eq_some_iff.mp h'
  obtain rfl : i = j := by omega
  exact Option.some.inj (hi.symm.trans hj)

/-- Every symbol of a table has a number. -/
theorem exists_get? {s : Symbol} (h : s ∈ t.symbols) : ∃ id, t.get? s = some id := by
  cases hid : t.get? s with
  | none => exact absurd h (get?_eq_none_iff.mp hid)
  | some id => exact ⟨id, rfl⟩

/-- Only symbols of the table have numbers. -/
theorem mem_of_get? {s : Symbol} {id : Int} (h : t.get? s = some id) : s ∈ t.symbols := by
  exact List.mem_map_of_mem (get?_eq_some_iff_mem.mp h)

/-- The cell that stands for a text: its number as a constant, or nothing. -/
def cell (t : SymbolTable) (text : String) : Cell :=
  match t.constant? text with
  | some id => .integer id
  | none => .null

/-- A constant with a number is stored as that number. -/
theorem cell_of_constant? {text : String} {id : Int} (h : t.constant? text = some id) :
    t.cell text = .integer id := by
  simp [cell, h]

/-- A cell equals the cell of an interned text only if both stand for the same text. -/
theorem Numbered.equals_cell (ht : t.Numbered) {a : String} (ha : .constant a ∈ t.symbols)
    (b : String) : (t.cell a).equals (t.cell b) = decide (a = b) := by
  obtain ⟨id, hid⟩ := exists_get? ha
  rw [cell_of_constant? hid]
  cases hb : t.constant? b with
  | none =>
    have hne : a ≠ b := by
      rintro rfl
      exact absurd (hid.symm.trans hb) (by simp)
    simp [cell, hb, hne]
  | some id' =>
    rw [cell_of_constant? hb, Cell.equals_integer, decide_eq_decide]
    constructor
    · rintro rfl
      exact congrArg Symbol.text (ht.get?_inj hid hb)
    · rintro rfl
      exact Option.some.inj (hid.symm.trans hb)

end SymbolTable

@[simp] theorem Program.mem_symbolTable {p : Program} {s : Symbol} :
    s ∈ p.symbolTable.symbols ↔ s ∈ p.symbols := by
  simp [Program.symbolTable]

/-- The symbols of a program are numbered by their places. -/
theorem Program.symbolTable_numbered (p : Program) : p.symbolTable.Numbered :=
  SymbolTable.numbered_ofList p.symbols

/-! ### The database of a program -/

/-- The row of a fact whose symbols are interned. -/
def Fact.numbers (t : SymbolTable) (f : Fact) : FactRow :=
  ⟨(t.get? f.symbol).getD 0, f.args.map fun a ↦ (t.constant? a).getD 0⟩

/-- The rows of a program. -/
def Program.database (p : Program) : Database where
  symbols := p.symbolTable.toList.map fun (id, s) ↦ ⟨id, s⟩
  facts := p.facts.map (Fact.numbers p.symbolTable)

/-- A number that is required and found is the one in the table. -/
theorem SymbolTable.require_eq_ok {t : SymbolTable} {s : Symbol} {id : Int}
    (h : t.require s = .ok id) : t.get? s = some id := by
  unfold SymbolTable.require at h
  split at h
  · rename_i found heq
    rw [heq, Except.ok.inj h]
  · cases h

/-- Requiring the numbers of texts one by one gives all of them. -/
theorem SymbolTable.mapM_require_eq_ok {t : SymbolTable} {texts : List String} {ids : List Int}
    (h : texts.mapM (fun text ↦ t.require (.constant text)) = .ok ids) :
    ids = texts.map fun a ↦ (t.constant? a).getD 0 := by
  induction texts generalizing ids with
  | nil => exact (Except.ok.inj h).symm
  | cons a texts ih =>
    rw [List.mapM_cons] at h
    obtain ⟨id, hid, h⟩ := except_bind_eq_ok h
    obtain ⟨rest, hrest, h⟩ := except_bind_eq_ok h
    have hget : t.constant? a = some id := require_eq_ok hid
    rw [← Except.ok.inj h, ih hrest, List.map_cons, hget, Option.getD_some]

/-- A fact becomes the row of its numbers, if it is not too wide. -/
theorem Fact.row_eq_ok {t : SymbolTable} {f : Fact} {row : FactRow} (h : f.row t = .ok row) :
    row = f.numbers t ∧ f.args.length ≤ Schema.maxArity := by
  unfold Fact.row at h
  split at h
  · cases h
  · rename_i harity
    obtain ⟨functor, hfunctor, h⟩ := except_bind_eq_ok h
    obtain ⟨args, hargs, h⟩ := except_bind_eq_ok h
    refine ⟨?_, by omega⟩
    rw [← Except.ok.inj h, Fact.numbers, SymbolTable.require_eq_ok hfunctor,
      SymbolTable.mapM_require_eq_ok hargs, Option.getD_some]

/-- Facts become rows in their order, and none of them is too wide. -/
theorem Fact.mapM_row_eq_ok {t : SymbolTable} {facts : List Fact} {rows : List FactRow}
    (h : facts.mapM (Fact.row t) = .ok rows) :
    rows = facts.map (Fact.numbers t) ∧ ∀ f ∈ facts, f.args.length ≤ Schema.maxArity := by
  induction facts generalizing rows with
  | nil => exact ⟨(Except.ok.inj h).symm, by simp⟩
  | cons f facts ih =>
    rw [List.mapM_cons] at h
    obtain ⟨row, hrow, h⟩ := except_bind_eq_ok h
    obtain ⟨rest, hrest, h⟩ := except_bind_eq_ok h
    obtain ⟨rfl, hfirst⟩ := Fact.row_eq_ok hrow
    obtain ⟨rfl, hfacts⟩ := ih hrest
    exact ⟨(Except.ok.inj h).symm, List.forall_mem_cons.mpr ⟨hfirst, hfacts⟩⟩

namespace Database

theorem insertSymbol_eq_ok {db db' : Database} {row : SymbolRow}
    (h : db.insertSymbol row = .ok db') : db' = { db with symbols := db.symbols ++ [row] } := by
  unfold insertSymbol at h
  split at h
  · cases h
  · exact (Except.ok.inj h).symm

theorem insertFact_eq_ok {db db' : Database} {row : FactRow} (h : db.insertFact row = .ok db') :
    db' = { db with facts := db.facts ++ [row] } := by
  unfold insertFact at h
  split at h
  · cases h
  · split at h
    · cases h
    · exact (Except.ok.inj h).symm

/-- Symbols that can all be inserted are appended in their order. -/
theorem foldlM_insertSymbol {entries : List (Int × Symbol)} {db db' : Database}
    (h : entries.foldlM (fun db (id, symbol) ↦ db.insertSymbol ⟨id, symbol⟩) db = .ok db') :
    db' = { db with symbols := db.symbols ++ entries.map fun (id, s) ↦ ⟨id, s⟩ } := by
  induction entries generalizing db with
  | nil => simpa using (Except.ok.inj h).symm
  | cons entry entries ih =>
    rw [List.foldlM_cons] at h
    obtain ⟨next, hnext, h⟩ := except_bind_eq_ok h
    rw [ih h, insertSymbol_eq_ok hnext]
    simp

/-- Facts that can all be inserted are appended in their order, repeats included. -/
theorem foldlM_insertFact {rows : List FactRow} {db db' : Database}
    (h : rows.foldlM insertFact db = .ok db') : db' = { db with facts := db.facts ++ rows } := by
  induction rows generalizing db with
  | nil => simpa using (Except.ok.inj h).symm
  | cons row rows ih =>
    rw [List.foldlM_cons] at h
    obtain ⟨next, hnext, h⟩ := except_bind_eq_ok h
    rw [ih h, insertFact_eq_ok hnext]
    simp

end Database

/-- A store that was cleared is empty, whatever was in it. -/
theorem Store.eq_of_clear_eq_ok {s cleared : Store} (h : s.clear = .ok cleared) :
    cleared = ⟨some {}⟩ := by
  cases hdb : s.database with
  | none => simp [Store.clear, hdb] at h
  | some db =>
    simp only [Store.clear, hdb, Database.clear, Database.deleteSymbols] at h
    split at h
    · cases h
    · exact (Except.ok.inj h).symm

theorem Store.insertFacts_eq_ok {db : Database} {rows : List FactRow} {after : Store}
    (h : Store.insertFacts ⟨some db⟩ rows = .ok after) :
    after = ⟨some { db with facts := db.facts ++ rows }⟩ := by
  cases rows with
  | nil => simpa using (Except.ok.inj h).symm
  | cons row rows =>
    obtain ⟨db', hdb', h⟩ := except_bind_eq_ok (x := (row :: rows).foldlM Database.insertFact db) h
    rw [← Except.ok.inj h, Database.foldlM_insertFact hdb']

/-- A program that is written to an empty store is there as its rows, and no fact of it has more
arguments than any table. -/
theorem Program.materialize_eq_ok {p : Program} {t : SymbolTable}
    (h : (p.materialize ⟨some {}⟩).symbols = .ok t) :
    t = p.symbolTable ∧ (p.materialize ⟨some {}⟩).store = ⟨some p.database⟩ ∧
      ∀ f ∈ p.facts, f.args.length ≤ Schema.maxArity := by
  unfold Program.materialize at h ⊢
  simp only at h ⊢
  cases hrows : p.facts.mapM (Fact.row (p.symbolTable)) with
  | error e => simp [hrows] at h
  | ok rows =>
    obtain ⟨rfl, hfacts⟩ := Fact.mapM_row_eq_ok hrows
    simp only [hrows] at h ⊢
    cases hsymbols : Store.insertSymbols ⟨some {}⟩ p.symbolTable with
    | error e => simp [hsymbols] at h
    | ok store =>
      simp only [hsymbols] at h ⊢
      obtain ⟨db, hdb, heq⟩ := except_bind_eq_ok hsymbols
      obtain rfl : (⟨some db⟩ : Store) = store := Except.ok.inj heq
      cases hafter : Store.insertFacts ⟨some db⟩
          (p.facts.map (Fact.numbers p.symbolTable)) with
      | error e => simp [hafter] at h
      | ok after =>
        simp only [hafter] at h ⊢
        refine ⟨(Except.ok.inj h).symm, ?_, hfacts⟩
        rw [Store.insertFacts_eq_ok hafter, Database.foldlM_insertSymbol hdb]
        rfl

/-! ### Looking up constants -/

/-- The first row of a symbol has the number that is kept for it. -/
theorem SymbolTable.find?_entries (entries : List (Symbol × Int)) (s : Symbol) :
    ((entries.map fun e ↦ SymbolRow.mk e.2 e.1).find? fun r ↦ r.symbol = s).map SymbolRow.id =
      entries.lookup s := by
  induction entries with
  | nil => rfl
  | cons e entries ih =>
    rw [List.map_cons, List.find?_cons, List.lookup_cons, ← ih]
    by_cases he : e.1 = s
    · simp [he]
    · have hne : (s == e.1) = false := by simpa using Ne.symm he
      simp [he, hne]

/-- The store finds the number under which a constant was interned. -/
theorem Program.constantId?_database (p : Program) (text : String) :
    p.database.constantId? text = p.symbolTable.constant? text := by
  rw [SymbolTable.constant?, SymbolTable.get?, ← SymbolTable.find?_entries]
  simp only [Database.constantId?, Program.database, SymbolTable.toList, List.map_map]
  rfl

/-! ### Rows of the symbol table -/

@[simp] theorem Database.sourceTable_symbol (db : Database) (name : String) :
    db.sourceTable ⟨Schema.symbolTable, name⟩ = db.symbolTable := by
  simp [Database.sourceTable, Database.table?]

/-- The table of symbols has one row for each entry: number, text and arity. -/
theorem Program.symbolTable_rows (p : Program) :
    p.database.symbolTable.rows = p.symbolTable.entries.map fun e ↦
      [.integer e.2, .text e.1.text, .integer e.1.arity] := by
  simp [Database.symbolTable, Program.database, SymbolTable.toList]

/-- A drawn row of the symbol table stands for a symbol. -/
theorem Program.symbolTable_row {p : Program} {row : List Cell}
    (h : row ∈ p.database.symbolTable.rows) :
    ∃ s id, p.symbolTable.get? s = some id ∧
      row = [.integer id, .text s.text, .integer s.arity] := by
  rw [Program.symbolTable_rows] at h
  obtain ⟨⟨s, id⟩, hmem, rfl⟩ := List.mem_map.mp h
  exact ⟨s, id, SymbolTable.get?_eq_some_iff_mem.mpr hmem, rfl⟩

/-- The columns of a drawn row of the symbol table. -/
theorem Env.bind_symbol (env : Env) (name : String) (id arity : Cell) (text : Cell) :
    let e := env.bind name Schema.symbolColumns [id, text, arity]
    e.column name "id" = id ∧ e.column name "symbol" = text ∧ e.column name "arity" = arity := by
  simp [Env.bind, Schema.symbolColumns, List.lookup]

/-- Exactly one row of the symbol table stands for a constant of the program. -/
theorem Program.countP_symbolTable {p : Program} (env : Env) (name : String) {text : String}
    (h : .constant text ∈ p.symbols) :
    p.database.symbolTable.rows.countP (fun row ↦
      ((env.bind name Schema.symbolColumns row).column name "arity").equals (.integer 0) &&
        ((env.bind name Schema.symbolColumns row).column name "id").equals
          (p.symbolTable.cell text)) = 1 := by
  obtain ⟨id, hid⟩ := SymbolTable.exists_get? (Program.mem_symbolTable.mpr h)
  rw [Program.symbolTable_rows, List.countP_map, SymbolTable.cell_of_constant? hid]
  have hone : p.symbolTable.symbols.count (.constant text) = 1 :=
    List.count_eq_one_of_mem p.symbolTable.nodup_symbols (Program.mem_symbolTable.mpr h)
  rw [← hone, SymbolTable.symbols, List.count, List.countP_map]
  refine List.countP_congr ?_
  rintro ⟨s, number⟩ hmem
  have hs : p.symbolTable.get? s = some number := SymbolTable.get?_eq_some_iff_mem.mpr hmem
  obtain ⟨hidColumn, -, harity⟩ := env.bind_symbol name (.integer number)
    (.integer s.arity) (.text s.text)
  simp only [Function.comp_apply, hidColumn, harity, Cell.equals_integer, Bool.and_eq_true,
    decide_eq_true_eq, beq_iff_eq]
  constructor
  · rintro ⟨-, rfl⟩
    exact p.symbolTable_numbered.get?_inj hs hid
  · rintro rfl
    exact ⟨rfl, Option.some.inj (hs.symm.trans hid)⟩

/-! ### Rows of the fact tables -/

theorem Database.sourceTable_fact (db : Database) {arity : Nat} (h : arity ≤ Schema.maxArity)
    (name : String) : db.sourceTable ⟨Schema.factTable arity, name⟩ = db.factTable arity := by
  have hfind : Schema.arities.find? (fun n ↦ Schema.factTable n = Schema.factTable arity) =
      some arity := by
    simp only [Schema.factTable_inj, Schema.arities, List.find?_range_eq_some]
    exact ⟨by simp, List.mem_range.mpr (by omega), fun j hj ↦ by simpa using hj.ne⟩
  rw [Database.sourceTable, Database.table?, if_neg (Schema.factTable_ne_symbolTable arity), hfind]
  rfl

/-- The cells of a row are found under the names of their columns, which count from one. -/
theorem Schema.lookup_argColumn {cells : List Cell} (first : Nat) {i : Nat} {cell : Cell}
    (h : cells[i]? = some cell) :
    (((List.range' first cells.length).map fun j ↦ argColumn (j + 1)).zip cells).lookup
      (argColumn (first + i + 1)) = some cell := by
  induction cells generalizing first i with
  | nil => cases h
  | cons c cells ih =>
    rw [List.length_cons, List.range'_succ, List.map_cons, List.zip_cons_cons, List.lookup_cons]
    cases i with
    | zero => simpa using h
    | succ i =>
      have hne : (argColumn (first + (i + 1) + 1) == argColumn (first + 1)) = false := by
        simp only [beq_eq_false_iff_ne, ne_eq, argColumn_inj]
        omega
      have hrest := ih (first + 1) (i := i) (by simpa using h)
      rw [show first + 1 + i + 1 = first + (i + 1) + 1 by omega] at hrest
      simpa [hne] using hrest

/-- The columns of a drawn row of a fact table. -/
theorem Env.bind_fact (env : Env) (name : String) (functor : Cell) (args : List Cell) :
    let e := env.bind name (Schema.factColumns args.length) (functor :: args)
    e.column name Schema.functorColumn = functor ∧
      ∀ i cell, args[i]? = some cell → e.column name (Schema.argColumn (i + 1)) = cell := by
  refine ⟨by simp [Env.bind, Schema.factColumns, List.lookup], fun i cell h ↦ ?_⟩
  have hlookup := Schema.lookup_argColumn 0 h
  rw [Nat.zero_add, ← List.range_eq_range'] at hlookup
  have hne : (Schema.argColumn (i + 1) == Schema.functorColumn) = false := by simp
  simp [Env.bind, Schema.factColumns, List.lookup_cons, hne, hlookup]

/-- The argument columns of a source, from the given place on, equal the given cells. -/
def Env.matchesFrom (e : Env) (source : String) : Nat → List Cell → Bool
  | _, [] => true
  | position, c :: cs =>
    (e.column source (Schema.argColumn position)).equals c && e.matchesFrom source (position + 1) cs

/-- Comparing columns with texts by their numbers is comparing the texts, because different
constants have different numbers. The columns before `k` have been compared already. -/
theorem Env.matchesFrom_eq {t : SymbolTable} (ht : t.Numbered) {e : Env} {source : String}
    {args : List String} (hargs : ∀ a ∈ args, .constant a ∈ t.symbols)
    (hcolumns : ∀ i cell, (args.map t.cell)[i]? = some cell →
      e.column source (Schema.argColumn (i + 1)) = cell)
    (texts : List String) (k : Nat) (hlength : texts.length + k = args.length) :
    e.matchesFrom source (k + 1) (texts.map t.cell) = decide (args.drop k = texts) := by
  induction texts generalizing k with
  | nil =>
    have hnil : args.drop k = [] := List.drop_eq_nil_iff.mpr (by simp at hlength; omega)
    simp [Env.matchesFrom, hnil]
  | cons text texts ih =>
    have hk : k < args.length := by simp at hlength; omega
    have hrest := ih (k + 1) (by simp at hlength; omega)
    have hcell : e.column source (Schema.argColumn (k + 1)) = t.cell args[k] :=
      hcolumns k _ (by simp [List.getElem?_eq_getElem hk])
    rw [List.map_cons, Env.matchesFrom, hcell,
      ht.equals_cell (hargs _ (List.getElem_mem hk)), hrest, List.drop_eq_getElem_cons hk]
    simp only [List.cons.injEq, Bool.decide_and]

/-- The cells of a fact's row: the number of its relation and the cells of its texts. -/
theorem Fact.cells_numbers {t : SymbolTable} {f : Fact} (hf : f.Known t.symbols) {id : Int}
    (hid : t.get? f.symbol = some id) :
    ((f.numbers t).functor :: (f.numbers t).args).map Cell.integer =
      .integer id :: f.args.map t.cell := by
  rw [Fact.numbers, hid, Option.getD_some, List.map_cons, List.map_map]
  refine congrArg _ (List.map_congr_left fun a ha ↦ ?_)
  obtain ⟨id, hid⟩ := SymbolTable.exists_get? (hf.2 a ha)
  have hconstant : t.constant? a = some id := hid
  simp [SymbolTable.cell, hconstant]

/-- The row of a fact matches the number of a relation and the cells of as many texts only if they
make up that fact. -/
theorem Fact.matches_iff {t : SymbolTable} (ht : t.Numbered) {f : Fact} (hf : f.Known t.symbols)
    (env : Env) (name : String) {functor : String} {texts : List String} {id : Int}
    (hid : t.get? ⟨functor, texts.length⟩ = some id) (hlength : f.args.length = texts.length) :
    let e := env.bind name (Schema.factColumns texts.length)
      (((f.numbers t).functor :: (f.numbers t).args).map Cell.integer)
    (e.column name Schema.functorColumn).equals (.integer id) = true ∧
        e.matchesFrom name 1 (texts.map t.cell) = true ↔ f = ⟨functor, texts⟩ := by
  obtain ⟨id', hid'⟩ := SymbolTable.exists_get? hf.1
  obtain ⟨hfunctor, hcolumns⟩ := env.bind_fact name (.integer id') (f.args.map t.cell)
  rw [List.length_map, hlength] at hfunctor hcolumns
  have hmatches := Env.matchesFrom_eq ht hf.2 hcolumns texts 0 (by omega)
  rw [Fact.cells_numbers hf hid']
  simp only [hfunctor, hmatches, Cell.equals_integer, decide_eq_true_eq, List.drop_zero]
  constructor
  · rintro ⟨rfl, rfl⟩
    have hsymbol := ht.get?_inj hid' hid
    obtain ⟨f_functor, f_args⟩ := f
    rw [show f_functor = functor from congrArg Symbol.text hsymbol]
  · rintro rfl
    exact ⟨Option.some.inj (hid'.symm.trans hid), rfl⟩

/-- A fact table has as many rows for a fact as the program has copies of it. -/
theorem Program.countP_factTable {p : Program} (hp : ∀ f ∈ p.facts, f.Known p.symbols) (env : Env)
    (name : String) {functor : String} {texts : List String} {id : Int}
    (hid : p.symbolTable.get? ⟨functor, texts.length⟩ = some id) :
    (p.database.factTable texts.length).rows.countP (fun row ↦
      ((env.bind name (Schema.factColumns texts.length) row).column name
          Schema.functorColumn).equals (.integer id) &&
        (env.bind name (Schema.factColumns texts.length) row).matchesFrom name 1
          (texts.map p.symbolTable.cell)) = p.facts.count ⟨functor, texts⟩ := by
  simp only [Database.factTable, Database.factsOf, Program.database, List.countP_map,
    List.countP_filter, List.count]
  refine List.countP_congr fun f hf ↦ ?_
  have hknown : f.Known p.symbolTable.symbols := by
    obtain ⟨hsymbol, hargs⟩ := hp f hf
    exact ⟨Program.mem_symbolTable.mpr hsymbol, fun a ha ↦ Program.mem_symbolTable.mpr (hargs a ha)⟩
  have hargs : (f.numbers p.symbolTable).args.length = f.args.length := List.length_map _
  simp only [Function.comp_apply, Bool.and_eq_true, decide_eq_true_eq, beq_iff_eq, hargs]
  constructor
  · rintro ⟨hrow, hlength⟩
    exact (Fact.matches_iff p.symbolTable_numbered hknown env name hid hlength).mp hrow
  · rintro rfl
    exact ⟨(Fact.matches_iff p.symbolTable_numbered hknown env name hid rfl).mpr rfl, rfl⟩

end HornQuery
