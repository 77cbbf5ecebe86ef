import Mathlib
import HornQuery.Proofs.Encoding
import HornQuery.Proofs.Truth

/-!
# When goals compile

Whether goals compile does not depend on the scope that they are added to. A goal is admitted
(`Compiler.Admits`) if its constants have numbers and its relation is either a compiled rule, whose
head then has to consist of known terms too, or a fact relation that no rule shadows. Goals compile
exactly if each of them is admitted (`Compiler.addGoals_isOk_iff`), and so the result is the same
before and after other scopes have been opened.
-/

namespace HornQuery

/-- Constants have numbers exactly if they are in the table. -/
theorem SymbolTable.exists_constant?_iff {t : SymbolTable} {text : String} :
    (∃ id, t.constant? text = some id) ↔ .constant text ∈ t.symbols :=
  ⟨fun ⟨_, h⟩ ↦ mem_of_get? h, exists_get?⟩

namespace Compiler

variable {c : Compiler} {rule : Option Rule}

/-! ### Arguments -/

/-- A constant can be written exactly if it has a number. -/
theorem literal_isOk_iff {text : String} :
    (∃ e, c.literal text = .ok e) ↔ .constant text ∈ c.symbols.symbols := by
  rw [← SymbolTable.exists_constant?_iff]
  constructor
  · rintro ⟨e, h⟩
    obtain ⟨id, hid, -⟩ := literal_eq_ok h
    exact ⟨id, hid⟩
  · rintro ⟨id, hid⟩
    exact ⟨.int id, by simp [literal, hid]⟩

/-- An argument has a value unless it is a constant without a number. -/
theorem argument_isOk_iff {s : Scope} {t : Term} :
    (∃ found, c.argument rule s t = .ok found) ↔ t.Known c.symbols.symbols := by
  cases t with
  | var name =>
    refine iff_of_true ?_ (Term.known_var _ _)
    rw [argument]
    split <;> exact ⟨_, rfl⟩
  | param name => exact iff_of_true ⟨_, rfl⟩ (Term.known_param _ _)
  | const text =>
    rw [Term.known_const, ← literal_isOk_iff, argument]
    constructor
    · rintro ⟨found, h⟩
      obtain ⟨e, he, -⟩ := except_map_eq_ok h
      exact ⟨e, he⟩
    · rintro ⟨e, he⟩
      exact ⟨(e, s), by rw [he]; rfl⟩

/-- Columns can be matched exactly if all constants among the arguments have numbers. -/
theorem matchColumns_isOk_iff {source : String} {position : Nat} {ts : List Term} {s : Scope} :
    (∃ s', c.matchColumns rule source position ts s = .ok s') ↔
      ∀ t ∈ ts, t.Known c.symbols.symbols := by
  induction ts generalizing position s with
  | nil => simp [matchColumns]
  | cons t ts ih =>
    rw [List.forall_mem_cons]
    constructor
    · rintro ⟨s', h⟩
      obtain ⟨value, s₁, harg, hrest⟩ := matchColumns_cons h
      exact ⟨argument_isOk_iff.mp ⟨_, harg⟩, ih.mp ⟨s', hrest⟩⟩
    · rintro ⟨ht, hts⟩
      have hfound : ∃ found, c.argument rule s t = .ok found := argument_isOk_iff.mpr ht
      obtain ⟨⟨value, s₁⟩, hfound⟩ := hfound
      obtain ⟨s', hs'⟩ := ih.mpr hts
      exact ⟨s', by rw [matchColumns, hfound]; exact hs'⟩

/-- For a head, those of the head count as well. -/
theorem matchHead_isOk_iff {key : Symbol} {pairs : List (Term × Term)} {b : Bindings} {s : Scope} :
    (∃ found, c.matchHead rule key pairs b s = .ok found) ↔
      ∀ pair ∈ pairs, pair.1.Known c.symbols.symbols ∧ pair.2.Known c.symbols.symbols := by
  induction pairs generalizing b s with
  | nil => simp [matchHead]
  | cons pair rest ih =>
    obtain ⟨head, arg⟩ := pair
    rw [List.forall_mem_cons]
    constructor
    · -- Whatever the step does with the value, it has looked up the constants of both sides.
      rintro ⟨⟨b', s'⟩, h⟩
      obtain ⟨value, s₁, harg, hrest⟩ := matchHead_cons h
      refine ⟨⟨?_, argument_isOk_iff.mp ⟨_, harg⟩⟩, ?_⟩
      · obtain ⟨_, _, rfl, -, -⟩ | ⟨_, rfl, -, -⟩ | ⟨text, id, rfl, hid, -⟩ | ⟨_, rfl, -⟩ := hrest
        · exact Term.known_var _ _
        · exact Term.known_var _ _
        · exact Term.known_const.mpr (SymbolTable.exists_constant?_iff.mp ⟨id, hid⟩)
        · exact Term.known_param _ _
      · obtain ⟨_, _, -, -, hrest⟩ | ⟨_, -, -, hrest⟩ | ⟨_, _, -, -, hrest⟩ | ⟨_, -, hrest⟩ := hrest <;>
          exact ih.mp ⟨_, hrest⟩
    · rintro ⟨⟨hhead, harg⟩, hrest⟩
      have hfound : ∃ found, c.argument rule s arg = .ok found := argument_isOk_iff.mpr harg
      obtain ⟨⟨value, s₁⟩, hfound⟩ := hfound
      rw [matchHead, hfound]
      cases head with
      | var name =>
        simp only [bind, Except.bind]
        split <;> exact ih.mpr hrest
      | const text =>
        obtain ⟨expected, hexpected⟩ := literal_isOk_iff.mpr (Term.known_const.mp hhead)
        simp only [bind, Except.bind, hexpected]
        exact ih.mpr hrest
      | param name => exact ih.mpr hrest

/-! ### Goals -/

/-- The constants of a goal have numbers, and its relation is a compiled rule with a known head or a
fact relation without a rule. -/
def Admits (c : Compiler) (g : Goal) : Prop :=
  (∀ t ∈ g.args, t.Known c.symbols.symbols) ∧
    ((∃ fragment r, c.fragment? g.symbol = some fragment ∧ c.program.rule? g.symbol = some r ∧
        ∀ t ∈ r.head, t.Known c.symbols.symbols) ∨
      (c.fragment? g.symbol = none ∧ c.failures.lookup g.symbol = none ∧
        c.program.rule? g.symbol = none ∧ c.program.hasFacts g.symbol = true ∧
        g.symbol ∈ c.symbols.symbols))

/-- A goal on a rule compiles exactly if the constants of the head and of the goal have numbers.
Terms without a partner are not looked at. -/
theorem addRule_isOk_iff {s : Scope} {g : Goal} {fragment : Fragment} :
    (∃ s', c.addRule rule s g fragment = .ok s') ↔
      ∃ r, c.program.rule? g.symbol = some r ∧
        ∀ pair ∈ r.head.zip g.args,
          pair.1.Known c.symbols.symbols ∧ pair.2.Known c.symbols.symbols := by
  constructor
  · rintro ⟨s', h⟩
    obtain ⟨r, b, s₁, hr, hmatch, -⟩ := addRule_eq_ok h
    exact ⟨r, hr, matchHead_isOk_iff.mp ⟨_, hmatch⟩⟩
  · rintro ⟨r, hr, hpairs⟩
    have hfound : ∃ found, c.matchHead rule g.symbol (r.head.zip g.args) [] s = .ok found :=
      matchHead_isOk_iff.mpr hpairs
    obtain ⟨⟨b, s₁⟩, hfound⟩ := hfound
    exact ⟨_, by rw [addRule, hr]; simp only [hfound, bind, Except.bind]; rfl⟩

/-- A goal on facts compiles exactly if its symbol and its constants have numbers. -/
theorem addFacts_isOk_iff {s : Scope} {g : Goal} :
    (∃ s', c.addFacts rule s g = .ok s') ↔
      g.symbol ∈ c.symbols.symbols ∧ ∀ t ∈ g.args, t.Known c.symbols.symbols := by
  constructor
  · rintro ⟨s', h⟩
    obtain ⟨id, hid, hcolumns⟩ := addFacts_eq_ok h
    exact ⟨SymbolTable.mem_of_get? hid, matchColumns_isOk_iff.mp ⟨_, hcolumns⟩⟩
  · rintro ⟨hsymbol, hargs⟩
    obtain ⟨id, hid⟩ := SymbolTable.exists_get? hsymbol
    rw [addFacts, hid]
    exact matchColumns_isOk_iff.mpr hargs

/-- A goal compiles exactly if it is admitted. -/
theorem addGoal_isOk_iff {s : Scope} {g : Goal} :
    (∃ s', c.addGoal rule s g = .ok s') ↔ c.Admits g := by
  constructor
  · rintro ⟨s', h⟩
    obtain ⟨fragment, hfragment, hadd⟩ | ⟨hfragment, hfailed, hrule, hfacts, hadd⟩ := addGoal_cases h
    · obtain ⟨r, hr, hpairs⟩ := addRule_isOk_iff.mp ⟨s', hadd⟩
      have hlength := Program.length_of_rule? hr
      refine ⟨fun t ht ↦ ?_, Or.inl ⟨fragment, r, hfragment, hr, fun t ht ↦ ?_⟩⟩
      · have hargs : (r.head.zip g.args).map Prod.snd = g.args := List.map_snd_zip (by omega)
        rw [← hargs] at ht
        obtain ⟨pair, hpair, rfl⟩ := List.mem_map.mp ht
        exact (hpairs _ hpair).2
      · obtain ⟨arg, hmem⟩ := Program.exists_mem_zip hlength ht
        exact (hpairs _ hmem).1
    · obtain ⟨hsymbol, hargs⟩ := addFacts_isOk_iff.mp ⟨s', hadd⟩
      exact ⟨hargs, Or.inr ⟨hfragment, hfailed, hrule, hfacts, hsymbol⟩⟩
  · rintro ⟨hargs, ⟨fragment, r, hfragment, hr, hhead⟩ | ⟨hfragment, hfailed, hrule, hfacts, hsymbol⟩⟩
    · rw [addGoal, hfragment]
      refine addRule_isOk_iff.mpr ⟨r, hr, fun pair hpair ↦ ?_⟩
      obtain ⟨hleft, hright⟩ := List.of_mem_zip hpair
      exact ⟨hhead _ hleft, hargs _ hright⟩
    · simp only [addGoal, hfragment, hfailed, hrule, hfacts, Option.isSome_none, if_true]
      exact addFacts_isOk_iff.mpr ⟨hsymbol, hargs⟩

/-- **Goals compile exactly if each of them is admitted**, in whatever scope. -/
theorem addGoals_isOk_iff {goals : List Goal} {s : Scope} :
    (∃ s', c.addGoals rule goals s = .ok s') ↔ ∀ g ∈ goals, c.Admits g := by
  induction goals generalizing s with
  | nil => simp [addGoals]
  | cons g gs ih =>
    rw [List.forall_mem_cons]
    constructor
    · rintro ⟨s', h⟩
      obtain ⟨s₁, hgoal, hrest⟩ := addGoals_cons h
      exact ⟨addGoal_isOk_iff.mp ⟨s₁, hgoal⟩, ih.mp ⟨s', hrest⟩⟩
    · rintro ⟨hg, hgs⟩
      have hgoal : ∃ s₁, c.addGoal rule s g = .ok s₁ := addGoal_isOk_iff.mpr hg
      obtain ⟨s₁, hgoal⟩ := hgoal
      obtain ⟨s', hs'⟩ := ih.mpr hgs
      exact ⟨s', by rw [addGoals, hgoal]; exact hs'⟩

end Compiler

end HornQuery
