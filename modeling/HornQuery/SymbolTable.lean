import HornQuery.Distinct
import HornQuery.Symbol

/-!
# Numbering symbols

A symbol table keeps each symbol with the number that it was given when it was first interned. A symbol
is looked up among the entries, and its number is read off there (`get?`, `toList`). The other way round,
a number is taken for a place, counted from one (`lookup?`). Nothing in the type makes the two agree:
that they do is a property of the tables that interning builds (`SymbolTable.Numbered`).
-/

namespace HornQuery

/-- Symbols with the numbers they were given, in the order in which they were interned. -/
structure SymbolTable where
  /-- The symbols, each with its number. -/
  entries : List (Symbol × Int) := []
  /-- No symbol has two entries. -/
  nodup : (entries.map Prod.fst).Nodup := by exact List.nodup_nil
deriving Repr

namespace SymbolTable

/-- The table without symbols. -/
def empty : SymbolTable := {}

/-- The symbols in the order in which they were interned. -/
def symbols (t : SymbolTable) : List Symbol := t.entries.map Prod.fst

/-- The number of symbols. -/
def size (t : SymbolTable) : Nat := t.entries.length

/-- The number that is kept for a symbol. -/
def get? (t : SymbolTable) (s : Symbol) : Option Int := t.entries.lookup s

/-- The number of a constant. -/
def constant? (t : SymbolTable) (text : String) : Option Int :=
  t.get? (.constant text)

/-- The symbol at the place that a number names. -/
def lookup? (t : SymbolTable) (id : Int) : Option Symbol :=
  if 1 ≤ id then t.symbols[(id - 1).toNat]? else none

/-- The entries with a number kept for a symbol: in place of its number if it has one, else behind all
others. -/
def put (entries : List (Symbol × Int)) (s : Symbol) (id : Int) : List (Symbol × Int) :=
  if s ∈ entries.map Prod.fst then entries.map fun e ↦ if e.1 = s then (s, id) else e
  else entries ++ [(s, id)]

theorem map_fst_put (entries : List (Symbol × Int)) (s : Symbol) (id : Int) :
    (put entries s id).map Prod.fst = Distinct.insert (entries.map Prod.fst) s := by
  unfold put Distinct.insert
  split
  · rw [List.map_map]
    refine List.map_congr_left fun e _ ↦ ?_
    by_cases he : e.1 = s <;> simp [he]
  · simp

/-- The table with a number kept for a symbol. -/
def insert (t : SymbolTable) (s : Symbol) (id : Int) : SymbolTable where
  entries := put t.entries s id
  nodup := map_fst_put t.entries s id ▸ Distinct.nodup_insert t.nodup s

/-- The number of a symbol, which is added under the next number unless it is there. -/
def intern (t : SymbolTable) (s : Symbol) : Int × SymbolTable :=
  match t.get? s with
  | some id => (id, t)
  | none => (t.size + 1, t.insert s (t.size + 1))

/-- The table of symbols interned in the given order. -/
def ofList (symbols : List Symbol) : SymbolTable :=
  symbols.foldl (fun t s ↦ (t.intern s).2) empty

/-- Every symbol with the number that is kept for it, in the order of interning. -/
def toList (t : SymbolTable) : List (Int × Symbol) :=
  t.entries.map fun (s, id) ↦ (id, s)

theorem nodup_symbols (t : SymbolTable) : t.symbols.Nodup := t.nodup

theorem length_symbols (t : SymbolTable) : t.symbols.length = t.size := List.length_map _

theorem get?_eq_none_iff {t : SymbolTable} {s : Symbol} : t.get? s = none ↔ s ∉ t.symbols := by
  rw [get?, List.lookup_eq_none_iff, symbols, List.mem_map, not_exists]
  constructor
  · rintro h e ⟨he, rfl⟩
    simpa using h e he
  · intro h e he
    simpa using fun heq ↦ h e ⟨he, heq.symm⟩

@[simp] theorem symbols_insert (t : SymbolTable) (s : Symbol) (id : Int) :
    (t.insert s id).symbols = Distinct.insert t.symbols s :=
  map_fst_put t.entries s id

@[simp] theorem symbols_intern (t : SymbolTable) (s : Symbol) :
    (t.intern s).2.symbols = Distinct.insert t.symbols s := by
  unfold intern
  split <;> rename_i h
  · have hmem : s ∈ t.symbols := by
      refine Classical.not_not.mp fun hnot ↦ ?_
      simp [get?_eq_none_iff.mpr hnot] at h
    simp [Distinct.insert, hmem]
  · exact symbols_insert t s _

theorem symbols_foldl_intern (t : SymbolTable) (symbols : List Symbol) :
    (symbols.foldl (fun t s ↦ (t.intern s).2) t).symbols = Distinct.append t.symbols symbols := by
  induction symbols generalizing t with
  | nil => rfl
  | cons s symbols ih => simpa using ih (t.intern s).2

/-- A table holds the distinct symbols it was built from, in order of first appearance. -/
@[simp] theorem symbols_ofList (symbols : List Symbol) :
    (ofList symbols).symbols = Distinct.ofList symbols :=
  symbols_foldl_intern empty symbols

/-! ### Numbers are places -/

/-- Each number that is kept is the place of its symbol, counted from one. -/
def Numbered (t : SymbolTable) : Prop :=
  t.entries = t.symbols.zipIdx.map fun (s, i) ↦ (s, (i : Int) + 1)

theorem numbered_empty : empty.Numbered := rfl

/-- A symbol that is not there is added under the next free place, and otherwise nothing is kept
anew. -/
theorem Numbered.intern {t : SymbolTable} (h : t.Numbered) (s : Symbol) : (t.intern s).2.Numbered := by
  unfold SymbolTable.intern
  split <;> rename_i hget
  · exact h
  · have hs : s ∉ t.entries.map Prod.fst := get?_eq_none_iff.mp hget
    have hentries : (t.insert s (t.size + 1)).entries = t.entries ++ [(s, (t.size : Int) + 1)] :=
      if_neg hs
    have hsymbols : (t.insert s (t.size + 1)).symbols = t.symbols ++ [s] := by
      rw [symbols_insert]
      exact if_neg hs
    rw [Numbered, hentries, hsymbols, List.zipIdx_append, List.map_append, ← h, ← length_symbols]
    simp

theorem numbered_foldl_intern {t : SymbolTable} (h : t.Numbered) (symbols : List Symbol) :
    (symbols.foldl (fun t s ↦ (t.intern s).2) t).Numbered := by
  induction symbols generalizing t with
  | nil => exact h
  | cons s symbols ih => exact ih (h.intern s)

/-- In a table that was built by interning, numbers are places. -/
theorem numbered_ofList (symbols : List Symbol) : (ofList symbols).Numbered :=
  numbered_foldl_intern numbered_empty symbols

end SymbolTable

end HornQuery
