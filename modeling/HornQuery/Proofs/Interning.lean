import Mathlib
import HornQuery.Proofs.Encoding

/-!
# Interning

Symbols get their numbers by being interned, call after call. A call finds the symbol or puts it behind
all others with a number of its own (`SymbolTable.intern_cases`), so a table only ever grows at its end
(`SymbolTable.Extends`). No entry is written anew, hence no number is taken back: what a call returned is
still the symbol's number after every later call (`SymbolTable.fst_internAll`).

A table is read in two directions, from a symbol to the number that is kept for it and from a number to
the symbol in that place. The two are inverse to each other only because every number that is kept is
the place of its symbol (`SymbolTable.Numbered.lookup?_eq_some_iff`). This invariant holds of the table
without symbols, each call preserves it, and so it holds after any sequence of calls
(`SymbolTable.numbered_internAll`).
-/

namespace HornQuery

/-- Adding entries at the end unless they are present is leaving out those that come again. -/
theorem Distinct.append_eq {α : Type} [DecidableEq α] (s t : List α) :
    Distinct.append s t = s ++ (t.filter (· ∉ s)).eraseDups := by
  induction t generalizing s with
  | nil => simp
  | cons a t ih =>
    rw [Distinct.append_cons, ih, Distinct.insert]
    by_cases ha : a ∈ s
    · simp [ha]
    · -- What remains of `t` once `a` is present lacks `a` and whatever was in `s`.
      have hrest : t.filter (· ∉ s ++ [a]) = (t.filter (· ∉ s)).filter (fun b ↦ !b == a) := by
        rw [List.filter_filter]
        refine List.filter_congr fun b _ ↦ ?_
        rw [Bool.eq_iff_iff]
        simp [and_comm]
      rw [if_neg ha, List.filter_cons_of_pos (by simpa using ha), List.eraseDups_cons, hrest,
        List.append_assoc, List.singleton_append]

theorem Distinct.ofList_eq_eraseDups {α : Type} [DecidableEq α] (t : List α) :
    Distinct.ofList t = t.eraseDups := by
  simp [Distinct.ofList, Distinct.append_eq]

namespace SymbolTable

variable {t t' t'' : SymbolTable}

/-! ### Reading in both directions -/

/-- In a numbered table, the symbol with a number is the one that has this number. -/
theorem Numbered.lookup?_eq_some_iff (ht : t.Numbered) {id : Int} {s : Symbol} :
    t.lookup? id = some s ↔ t.get? s = some id := by
  rw [ht.get?_eq_some_iff, lookup?]
  constructor
  · intro h
    split_ifs at h with hid
    exact ⟨(id - 1).toNat, h, by omega⟩
  · rintro ⟨i, hi, rfl⟩
    have hplace : ((i : Int) + 1 - 1).toNat = i := by omega
    rw [if_pos (by omega), hplace, hi]

/-- The numbers that lead to a symbol are those from one to the size of the table. -/
theorem lookup?_isSome_iff {id : Int} : (t.lookup? id).isSome ↔ 1 ≤ id ∧ id ≤ t.size := by
  rw [lookup?, ← length_symbols]
  split_ifs with hid
  · rw [Option.isSome_iff_exists]
    simp only [List.getElem?_eq_some_iff]
    constructor
    · rintro ⟨s, hlt, -⟩
      omega
    · rintro ⟨-, hle⟩
      exact ⟨_, by omega, rfl⟩
  · simp [hid]

/-! ### Growth -/

/-- The table `t'` came about by adding entries behind those of `t`. -/
def Extends (t t' : SymbolTable) : Prop := t.entries <+: t'.entries

namespace Extends

theorem refl (t : SymbolTable) : Extends t t := List.prefix_rfl

theorem trans (h : Extends t t') (h' : Extends t' t'') : Extends t t'' := List.IsPrefix.trans h h'

/-- Symbols keep their numbers. -/
theorem get? (h : Extends t t') {s : Symbol} {id : Int} (hs : t.get? s = some id) :
    t'.get? s = some id :=
  get?_eq_some_iff_mem.mpr (h.subset (get?_eq_some_iff_mem.mp hs))

/-- What was listed is still listed first, in the same order and with the same numbers. -/
theorem toList (h : Extends t t') : t.toList <+: t'.toList := List.IsPrefix.map _ h

end Extends

/-! ### One call -/

/-- A call finds the symbol, or adds it under the next number. -/
theorem intern_cases (t : SymbolTable) (s : Symbol) :
    (∃ id, t.get? s = some id ∧ t.intern s = (id, t)) ∨
      t.get? s = none ∧ (t.intern s).1 = t.size + 1 ∧
        (t.intern s).2.entries = t.entries ++ [(s, (t.size : Int) + 1)] := by
  cases hs : t.get? s with
  | some id => exact .inl ⟨id, rfl, by simp only [intern, hs]⟩
  | none =>
    refine .inr ⟨rfl, by simp only [intern, hs], ?_⟩
    simp only [intern, hs]
    exact if_neg (get?_eq_none_iff.mp hs)

/-- Interning adds at most one entry at the end. -/
theorem extends_intern (t : SymbolTable) (s : Symbol) : t.Extends (t.intern s).2 := by
  obtain ⟨id, -, h⟩ | ⟨-, -, hentries⟩ := t.intern_cases s
  · rw [h]
    exact .refl t
  · rw [Extends, hentries]
    exact List.prefix_append _ _

/-- So a table that was made from another by interning extends it. -/
theorem extends_foldl_intern (t : SymbolTable) (symbols : List Symbol) :
    t.Extends (symbols.foldl (fun t s ↦ (t.intern s).2) t) := by
  induction symbols generalizing t with
  | nil => exact .refl t
  | cons s symbols ih => exact (t.extends_intern s).trans (ih (t.intern s).2)

/-- A call returns the number that the symbol has from then on. -/
theorem get?_intern (t : SymbolTable) (s : Symbol) : (t.intern s).2.get? s = some (t.intern s).1 := by
  obtain ⟨id, hs, h⟩ | ⟨-, hid, hentries⟩ := t.intern_cases s
  · rw [h]
    exact hs
  · rw [get?_eq_some_iff_mem, hentries, hid]
    simp

/-- A call for a symbol that has a number changes nothing. -/
theorem intern_of_mem {s : Symbol} (hs : s ∈ t.symbols) : (t.intern s).2 = t := by
  obtain ⟨id, -, h⟩ | ⟨hnone, -, -⟩ := t.intern_cases s
  · rw [h]
  · exact absurd hs (get?_eq_none_iff.mp hnone)

/-- A call adds one symbol exactly if its symbol has no number. -/
theorem size_intern_eq_iff {s : Symbol} : (t.intern s).2.size = t.size + 1 ↔ s ∉ t.symbols := by
  rw [← get?_eq_none_iff]
  obtain ⟨id, hs, h⟩ | ⟨hnone, -, hentries⟩ := t.intern_cases s
  · simp [h, hs]
  · simp only [hnone, size, hentries, List.length_append, List.length_singleton]

/-! ### Many calls -/

/-- Intern symbols one after another: the numbers returned, and the table afterwards. -/
def internAll (t : SymbolTable) : List Symbol → List Int × SymbolTable
  | [] => ([], t)
  | s :: calls =>
    let first := t.intern s
    let later := first.2.internAll calls
    (first.1 :: later.1, later.2)

/-- The table afterwards is the one that is made by the calls alone. -/
theorem snd_internAll (t : SymbolTable) (calls : List Symbol) :
    (t.internAll calls).2 = calls.foldl (fun t s ↦ (t.intern s).2) t := by
  induction calls generalizing t with
  | nil => rfl
  | cons s calls ih => exact ih (t.intern s).2

/-- Calls for numbers extend the table, whatever they ask for. -/
theorem extends_internAll (t : SymbolTable) (calls : List Symbol) : t.Extends (t.internAll calls).2 := by
  rw [snd_internAll]
  exact t.extends_foldl_intern calls

/-- The numbers that calls returned are those that their symbols have after all of the calls. -/
theorem fst_internAll (t : SymbolTable) (calls : List Symbol) :
    (t.internAll calls).1.map some = calls.map (t.internAll calls).2.get? := by
  induction calls generalizing t with
  | nil => rfl
  | cons s calls ih =>
    have hfirst : (t.internAll (s :: calls)).2.get? s = some (t.intern s).1 :=
      ((t.intern s).2.extends_internAll calls).get? (t.get?_intern s)
    rw [List.map_cons, hfirst]
    exact congrArg _ (ih (t.intern s).2)

/-- Whatever is interned, the numbers that are kept stay the places of their symbols. -/
theorem numbered_internAll (ht : t.Numbered) (calls : List Symbol) : (t.internAll calls).2.Numbered := by
  rw [snd_internAll]
  exact numbered_foldl_intern ht calls

/-- The symbols stand in the order in which they were first asked for. -/
theorem symbols_internAll_ofList (start calls : List Symbol) :
    ((ofList start).internAll calls).2.symbols = (start ++ calls).eraseDups := by
  rw [snd_internAll, symbols_foldl_intern, symbols_ofList, ← Distinct.ofList_eq_eraseDups]
  exact (List.foldl_append ..).symm

/-- **A symbol table is a stable bijection.** Take the table of any symbols, none of them included, and
intern any further symbols.

* It lists the distinct symbols in order of first appearance, and the numbers that are kept for them are
  those from one on.
* The numbers that the calls returned are those that the symbols have in the end.
* Reading a number and reading a symbol are inverse to each other, and the numbers in use are those from
  one to the size of the table: no others lead to a symbol, neither negative ones nor zero.
* One more call returns the number that its symbol has afterwards. All symbols keep their numbers and
  are listed first and in the same order. The table grows by one exactly if the symbol had never been
  interned, and is the same table otherwise. -/
theorem internAll_bijective (start calls : List Symbol) {ids : List Int} {t : SymbolTable}
    (h : (ofList start).internAll calls = (ids, t)) :
    t.toList = ((start ++ calls).eraseDups.zipIdx 1).map (fun entry ↦ ((entry.2 : Int), entry.1)) ∧
      ids.map some = calls.map t.get? ∧
      (∀ id s, t.lookup? id = some s ↔ t.get? s = some id) ∧
      (∀ id, (t.lookup? id).isSome ↔ 1 ≤ id ∧ id ≤ (start ++ calls).eraseDups.length) ∧
      ∀ s, (t.intern s).2.get? s = some (t.intern s).1 ∧
        (∀ s' id, t.get? s' = some id → (t.intern s).2.get? s' = some id) ∧
        t.toList <+: (t.intern s).2.toList ∧
        ((t.intern s).2.size = t.size + 1 ↔ s ∉ start ++ calls) ∧
        (s ∈ start ++ calls → (t.intern s).2 = t) := by
  have ht : t = ((ofList start).internAll calls).2 := by rw [h]
  have hids : ids = ((ofList start).internAll calls).1 := by rw [h]
  have hsymbols : t.symbols = (start ++ calls).eraseDups := by
    rw [ht, symbols_internAll_ofList]
  have hnumbered : t.Numbered := ht ▸ numbered_internAll (numbered_ofList start) calls
  have hmem : ∀ s, s ∈ t.symbols ↔ s ∈ start ++ calls := fun s ↦ by
    rw [hsymbols, ← Distinct.ofList_eq_eraseDups, Distinct.mem_ofList]
  refine ⟨?_, ?_, fun _ _ ↦ hnumbered.lookup?_eq_some_iff, fun id ↦ ?_, fun s ↦ ?_⟩
  · rw [toList, hnumbered, hsymbols, List.zipIdx_succ, List.map_map, List.map_map]
    exact List.map_congr_left fun entry _ ↦ by simp
  · rw [hids, ht, fst_internAll]
  · rw [lookup?_isSome_iff, ← length_symbols, hsymbols]
  · refine ⟨t.get?_intern s, fun _ _ ↦ (t.extends_intern s).get?, (t.extends_intern s).toList, ?_, ?_⟩
    · rw [size_intern_eq_iff, hmem]
    · exact fun hs ↦ intern_of_mem ((hmem s).mpr hs)

/-- Two symbols share the text `likes`, and both come again before and after others. Interning `tom/1`
next adds it, although `tom/0` is there. -/
theorem internAll_bijective_likes :
    ∃ t, (ofList [⟨"likes", 0⟩, ⟨"likes", 2⟩, ⟨"likes", 0⟩]).internAll
          [⟨"tom", 0⟩, ⟨"likes", 2⟩, ⟨"bob", 0⟩] = ([3, 2, 4], t) ∧
      t.toList = [(1, ⟨"likes", 0⟩), (2, ⟨"likes", 2⟩), (3, ⟨"tom", 0⟩), (4, ⟨"bob", 0⟩)] ∧
      t.lookup? 2 = some ⟨"likes", 2⟩ ∧
      (∀ id, (t.lookup? id).isSome ↔ 1 ≤ id ∧ id ≤ 4) ∧
      (t.intern ⟨"tom", 1⟩).2.get? ⟨"tom", 0⟩ = some 3 ∧
      (t.intern ⟨"tom", 1⟩).2.size = t.size + 1 ∧ (t.intern ⟨"likes", 2⟩).2 = t := by
  obtain ⟨hlist, -, hinverse, hrange, hnext⟩ :=
    internAll_bijective [⟨"likes", 0⟩, ⟨"likes", 2⟩, ⟨"likes", 0⟩]
      [⟨"tom", 0⟩, ⟨"likes", 2⟩, ⟨"bob", 0⟩] rfl
  obtain ⟨-, hkept, -, hgrows, -⟩ := hnext ⟨"tom", 1⟩
  obtain ⟨-, -, -, -, hsame⟩ := hnext ⟨"likes", 2⟩
  exact ⟨_, rfl, hlist, (hinverse _ _).mpr rfl, hrange, hkept _ _ rfl, hgrows.mpr (by decide),
    hsame (by decide)⟩

end SymbolTable

end HornQuery
