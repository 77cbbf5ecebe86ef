import Mathlib
import HornQuery.Proofs.Encoding
import HornQuery.Proofs.Truth

/-!
# Counting the solutions of a scope

While goals are added to a scope, its solutions change in a way that can be counted. Fix an assignment
and count the solutions that agree with it, that is, in which every variable of the scope is drawn as
the constant that the assignment gives it. A new variable leaves the count as it is, because there is
one row for each constant. A goal on listed facts multiplies the count by the number of copies of the
fact that the goal becomes. A goal on a rule leaves the count if it is true and makes it zero if not.
So the count is the assignment's multiplicity (`Compiler.addGoals_countP`).

Goals are matched column by column, and what has been matched so far must be carried along. The lemmas
therefore count under a further test `Q`, which may look at the sources that the scope already has but
not at later ones (`Scope.Respects`).
-/

namespace HornQuery

open Scope (Valid Grows tableAlias variableAlias rangeCondition)

/-- Only a number is equal to a number; a missing cell is equal to nothing. -/
theorem Cell.eq_of_equals_integer {c : Cell} {n : Int} (h : c.equals (.integer n) = true) :
    c = .integer n := by
  cases c with
  | integer m => simpa using h
  | null => cases h
  | real x => cases h
  | text s => cases h

/-- If each entry that passes a test is continued in `k` ways, and no other entry in any, there are
`k` ways for each entry that passes the test. -/
theorem countP_flatMap_eq_mul {α β : Type} {l : List α} {f : α → List β} {P : β → Bool}
    {q : α → Bool} {k : Nat} (h : ∀ e, (f e).countP P = if q e then k else 0) :
    (l.flatMap f).countP P = k * l.countP q := by
  induction l with
  | nil => simp
  | cons e l ih =>
    rw [List.flatMap_cons, List.countP_append, ih, h, List.countP_cons]
    cases q e <;> simp [Nat.mul_add, Nat.add_comm]

/-- A test that does not depend on the entry keeps the count or makes it zero. -/
theorem countP_and_const {α : Type} (l : List α) (q r : α → Bool) (k : Bool) :
    l.countP (fun e ↦ (q e && k) && r e) = if k then l.countP (fun e ↦ q e && r e) else 0 := by
  cases k <;> simp

namespace Scope

variable {db : Database} {env : Env} {s s' : Scope}

/-! ### Solutions -/

/-- The ways to draw rows for the sources of a scope that make its conditions true. -/
def solutions (s : Scope) (db : Database) (env : Env) : List Env :=
  (db.draws s.sources env).filter fun e ↦ Condition.holdAll db e s.conditions

/-- Without sources and conditions there is one solution, the environment itself. -/
theorem solutions_empty (number : Nat) :
    (Scope.mk number 0 [] [] []).solutions db env = [env] := by
  simp [solutions, Database.draws, Condition.holdAll]

/-- A further condition keeps those solutions for which it is true. -/
theorem solutions_require (s : Scope) (c : Condition) :
    (s.require c).solutions db env = (s.solutions db env).filter (c.holds db) := by
  simp only [solutions, require, List.filter_filter]
  refine List.filter_congr fun e _ ↦ ?_
  rw [Condition.holdAll_append, Condition.holdAll_singleton, Bool.and_comm]

/-- Solutions draw rows and leave placeholders alone. -/
theorem param_of_mem_solutions {e : Env} (h : e ∈ s.solutions db env) : e.param = env.param :=
  Database.param_of_mem_draws (List.mem_of_mem_filter h)

/-- With a further source, every solution goes on with every row of that source. -/
theorem solutions_append (hs : s.Valid) (t : Source) (hnew : ∀ t' ∈ s.sources, t'.name ≠ t.name) :
    ({ s with sources := s.sources ++ [t] } : Scope).solutions db env =
      (s.solutions db env).flatMap fun e ↦
        (db.sourceTable t).rows.map (e.bind t.name (db.sourceTable t).columns) := by
  simp only [solutions, Database.draws_append]
  induction db.draws s.sources env with
  | nil => rfl
  | cons e draws ih =>
    -- The conditions do not read the new source, so a draw keeps or loses all its rows there.
    have hconst : ∀ row, Condition.holdAll db (e.bind t.name (db.sourceTable t).columns row)
        s.conditions = Condition.holdAll db e s.conditions :=
      fun row ↦ Condition.holdAll_bind hs.conditions hnew _ row
    rw [List.flatMap_cons, List.filter_append, ih, List.filter_cons]
    have hrows : db.draws [t] e =
        (db.sourceTable t).rows.map (e.bind t.name (db.sourceTable t).columns) :=
      List.map_eq_flatMap.symm
    cases hholds : Condition.holdAll db e s.conditions with
    | false =>
      rw [hrows, List.filter_eq_nil_iff.mpr]
      · simp
      · intro e' he'
        obtain ⟨row, -, rfl⟩ := List.mem_map.mp he'
        simp [hconst, hholds]
    | true =>
      rw [hrows, List.filter_eq_self.mpr]
      · simp
      · intro e' he'
        obtain ⟨row, -, rfl⟩ := List.mem_map.mp he'
        simp [hconst, hholds]

/-- The alias of a new variable is new. -/
theorem Valid.ne_variableAlias (hs : s.Valid) :
    ∀ t ∈ s.sources, t.name ≠ variableAlias s.number s.vars.length := by
  intro t ht
  obtain ⟨_, i, hi, rfl⟩ | ⟨i, hi, rfl⟩ := hs.source_cases t ht
  · exact tableAlias_ne_variableAlias _ _ _ _
  · intro heq
    have := (variableAlias_inj.mp heq).2
    omega

/-- The alias of a new fact table is new. -/
theorem Valid.ne_tableAlias (hs : s.Valid) :
    ∀ t ∈ s.sources, t.name ≠ tableAlias s.number s.tables := by
  intro t ht
  obtain ⟨_, i, hi, rfl⟩ | ⟨i, hi, rfl⟩ := hs.source_cases t ht
  · intro heq
    have := (tableAlias_inj.mp heq).2
    omega
  · exact variableAlias_ne_tableAlias _ _ _ _

/-- With a new variable, every solution goes on with every row that stands for a constant. -/
theorem solutions_addVariable (hs : s.Valid) (name : String) :
    (s.addVariable name).solutions db env = (s.solutions db env).flatMap fun e ↦
      (db.symbolTable.rows.map
        (e.bind (variableAlias s.number s.vars.length) Schema.symbolColumns)).filter
          ((rangeCondition s.number s.vars.length).holds db) := by
  have happend : (Scope.mk s.number s.tables s.vars (s.sources ++
      [⟨Schema.symbolTable, variableAlias s.number s.vars.length⟩]) s.conditions).solutions db env = _ :=
    solutions_append hs _ hs.ne_variableAlias
  rw [db.sourceTable_symbol] at happend
  rw [← List.filter_flatMap]
  refine Eq.trans ?_
    (congrArg (List.filter ((rangeCondition s.number s.vars.length).holds db)) happend)
  rw [← solutions_require]
  rfl

/-- With a new fact table, every solution goes on with every row of the table. -/
theorem solutions_addTable (hs : s.Valid) {arity : Nat} (harity : arity ≤ Schema.maxArity) :
    (s.addTable arity).2.solutions db env = (s.solutions db env).flatMap fun e ↦
      (db.factTable arity).rows.map
        (e.bind (tableAlias s.number s.tables) (Schema.factColumns arity)) := by
  have happend : (Scope.mk s.number s.tables s.vars (s.sources ++
      [⟨Schema.factTable arity, tableAlias s.number s.tables⟩]) s.conditions).solutions db env = _ :=
    solutions_append hs _ hs.ne_tableAlias
  rw [db.sourceTable_fact harity] at happend
  exact happend

/-! ### Tests that look at a scope's own sources -/

/-- The test does not look at rows drawn for other sources than those of the scope. -/
def Respects (s : Scope) (Q : Env → Bool) : Prop :=
  ∀ e name columns row, (∀ t ∈ s.sources, t.name ≠ name) → Q (e.bind name columns row) = Q e

/-- A test that looks at few sources looks at no more if there are more. -/
theorem Respects.mono {Q : Env → Bool} (h : s.Respects Q) (hsub : ∀ t ∈ s.sources, t ∈ s'.sources) :
    s'.Respects Q :=
  fun e name columns row hname ↦ h e name columns row fun t ht ↦ hname t (hsub t ht)

theorem Respects.and {Q R : Env → Bool} (hQ : s.Respects Q) (hR : s.Respects R) :
    s.Respects fun e ↦ Q e && R e :=
  fun e name columns row hname ↦ by
    simp only [hQ e name columns row hname, hR e name columns row hname]

theorem respects_true (s : Scope) : s.Respects fun _ ↦ true := fun _ _ _ _ _ ↦ rfl

/-- A test of one column looks at one source. -/
theorem respects_column {t : Source} (ht : t ∈ s.sources) (field : String) (value : Cell) :
    s.Respects fun e ↦ (e.column t.name field).equals value :=
  fun e name columns row hname ↦ by simp [Env.bind, hname t ht]

theorem respects_matchesFrom {t : Source} (ht : t ∈ s.sources) (position : Nat)
    (cells : List Cell) : s.Respects fun e ↦ e.matchesFrom t.name position cells := by
  induction cells generalizing position with
  | nil => exact s.respects_true
  | cons cell cells ih => exact (respects_column ht _ cell).and (ih (position + 1))

/-- In `e`, every variable of the scope is drawn as the constant that the assignment gives it. -/
def agrees (s : Scope) (t : SymbolTable) (a : Assignment) (e : Env) : Bool :=
  s.vars.zipIdx.all fun (x, i) ↦
    (e.column (variableAlias s.number i) "id").equals (t.cell (a.var x))

variable {t : SymbolTable} {a : Assignment}

/-- Agreement goes variable by variable, by the numbers of their constants. -/
theorem agrees_iff {e : Env} : s.agrees t a e = true ↔ ∀ i x, s.vars[i]? = some x →
    (e.column (variableAlias s.number i) "id").equals (t.cell (a.var x)) = true := by
  simp only [agrees, List.all_eq_true, Prod.forall, List.mem_zipIdx_iff_getElem?]
  exact ⟨fun h i x hx ↦ h x i hx, fun h x i hx ↦ h i x hx⟩

/-- Agreement looks at the sources of variables only. -/
theorem respects_agrees (hs : s.Valid) : s.Respects (s.agrees t a) := by
  intro e name columns row hname
  rw [Bool.eq_iff_iff, agrees_iff, agrees_iff]
  refine forall_congr' fun i ↦ forall_congr' fun x ↦ forall_congr' fun hx ↦ ?_
  have hi : i < s.vars.length := (List.getElem?_eq_some_iff.mp hx).1
  have hne : variableAlias s.number i ≠ name := hname _ (hs.variable_mem i hi)
  simp [Env.bind, hne]

/-- Agreement on a scope includes agreement on what it was before. -/
theorem agrees_of_grows (h : Grows s s') {e : Env} (he : s'.agrees t a e = true) :
    s.agrees t a e = true := by
  rw [agrees_iff] at he ⊢
  intro i x hx
  obtain ⟨rest, hrest⟩ := h.vars_prefix
  rw [← h.number_eq]
  refine he i x ?_
  rw [← hrest, List.getElem?_append_left (List.getElem?_eq_some_iff.mp hx).1]
  exact hx

/-- A new variable adds one comparison. -/
theorem agrees_addVariable (s : Scope) (name : String) (e : Env) :
    (s.addVariable name).agrees t a e = (s.agrees t a e &&
      (e.column (variableAlias s.number s.vars.length) "id").equals (t.cell (a.var name))) := by
  simp [agrees, addVariable, List.zipIdx_append]

theorem agrees_idxOf {e : Env} {name : String} {i : Nat} (hi : s.vars.idxOf? name = some i)
    (he : s.agrees t a e = true) :
    (e.column (variableAlias s.number i) "id").equals (t.cell (a.var name)) = true := by
  obtain ⟨hlt, hbeq, -⟩ := List.findIdx?_eq_some_iff_getElem.mp hi
  refine agrees_iff.mp he i name ?_
  rw [List.getElem?_eq_getElem hlt, eq_of_beq hbeq]

end Scope

/-! ### Variables and arguments -/

section Program

variable {p : Program} {env : Env} {a : Assignment} {s s' : Scope}

/-- A variable that the assignment sends to a constant of the program does not change the count. -/
theorem Scope.countP_addVariable (hs : s.Valid) {name : String} (hname : a.var name ∈ p.constants)
    {Q : Env → Bool} (hQ : s.Respects Q) :
    ((s.addVariable name).solutions p.database env).countP
        (fun e ↦ Q e && (s.addVariable name).agrees p.symbolTable a e) =
      (s.solutions p.database env).countP fun e ↦ Q e && s.agrees p.symbolTable a e := by
  rw [Scope.solutions_addVariable hs, ← Nat.one_mul (List.countP _ (s.solutions p.database env))]
  refine countP_flatMap_eq_mul fun e ↦ ?_
  have hQe := fun row ↦ hQ e _ Schema.symbolColumns row hs.ne_variableAlias
  have hagrees := fun row ↦
    Scope.respects_agrees (t := p.symbolTable) (a := a) hs e _ Schema.symbolColumns row
      hs.ne_variableAlias
  have hone := Program.countP_symbolTable e (variableAlias s.number s.vars.length)
    (Program.mem_constants.mp hname)
  rw [List.countP_filter, List.countP_map]
  simp only [Function.comp_def, Scope.agrees_addVariable, hQe, hagrees, rangeCondition,
    Condition.holds, Expr.value]
  cases hstart : Q e && s.agrees p.symbolTable a e with
  | false => simp [← Bool.and_assoc, hstart]
  | true =>
    rw [if_pos rfl, ← hone]
    refine List.countP_congr fun row _ ↦ ?_
    simp [← Bool.and_assoc, hstart, and_comm]

/-- The term stands for a constant of the program, and if its value comes from outside the scope, the
environment supplies it: a head variable of the rule, or a parameter. -/
def Assignment.Fits (a : Assignment) (p : Program) (rule : Option Rule) (env : Env) : Term → Prop
  | .var x => a.var x ∈ p.constants ∧ ∀ r, rule = some r → r.isParam x = true →
      env.param (.rule r.key x) = p.symbolTable.cell (a.var x)
  | .const text => text ∈ p.constants
  | .param name => a.param name ∈ p.constants ∧
      env.param (.external name) = p.symbolTable.cell (a.param name)

variable {rule : Option Rule} {c : Compiler}

theorem Assignment.Fits.mem_constants {t : Term} (h : a.Fits p rule env t) :
    a.text t ∈ p.constants := by
  cases t with
  | var x => exact h.1
  | const text => exact h
  | param name => exact h.1

/-- So the text of such a term has a number. -/
theorem Assignment.Fits.mem_symbols {t : Term} (h : a.Fits p rule env t) :
    .constant (a.text t) ∈ p.symbolTable.symbols :=
  Program.mem_symbolTable.mpr (Program.mem_constants.mp h.mem_constants)

/-- The expression has the value of the text wherever the scope's variables agree. -/
def Scope.Denotes (s : Scope) (p : Program) (env : Env) (a : Assignment) (value : Expr)
    (text : String) : Prop :=
  ∀ e : Env, e.param = env.param → s.agrees p.symbolTable a e = true →
    value.value e = p.symbolTable.cell text

/-- An expression keeps its meaning while the scope grows. -/
theorem Scope.Denotes.mono {value : Expr} {text : String} (h : s.Denotes p env a value text)
    (hgrows : Grows s s') : s'.Denotes p env a value text :=
  fun e hparam he ↦ h e hparam (Scope.agrees_of_grows hgrows he)

namespace Compiler

/-- An argument denotes its text, and does not change the count. -/
theorem argument_countP (hc : c.symbols = p.symbolTable) (hs : s.Valid) {t : Term}
    (ht : a.Fits p rule env t) {value : Expr} (h : c.argument rule s t = .ok (value, s')) :
    s'.Denotes p env a value (a.text t) ∧ ∀ Q : Env → Bool, s.Respects Q →
      (s'.solutions p.database env).countP (fun e ↦ Q e && s'.agrees p.symbolTable a e) =
        (s.solutions p.database env).countP fun e ↦ Q e && s.agrees p.symbolTable a e := by
  obtain ⟨r, x, rfl, rfl, hparam, rfl, rfl⟩ | ⟨x, rfl, hparam, hid⟩ | ⟨name, rfl, rfl, rfl⟩ |
    ⟨text, id, rfl, hid, rfl, rfl⟩ := argument_cases h
  · refine ⟨fun e he _ ↦ ?_, fun Q _ ↦ rfl⟩
    rw [Expr.value, he]
    exact ht.2 r rfl hparam
  · -- A variable has a column, which is read again or added here.
    obtain ⟨id, hcell⟩ := SymbolTable.exists_get? ht.mem_symbols
    have hcell : p.symbolTable.cell (a.var x) = .integer id := SymbolTable.cell_of_constant? hcell
    obtain ⟨i, hidx, heq⟩ | ⟨-, heq⟩ := s.idOf_cases x <;> rw [heq] at hid <;>
      obtain ⟨rfl, rfl⟩ := Prod.mk.inj hid
    · refine ⟨fun e _ he ↦ ?_, fun Q _ ↦ rfl⟩
      have hcolumn := Scope.agrees_idxOf hidx he
      rw [hcell] at hcolumn
      show e.column _ _ = p.symbolTable.cell (a.var x)
      rw [Cell.eq_of_equals_integer hcolumn, hcell]
    · refine ⟨fun e _ he ↦ ?_, fun Q hQ ↦ Scope.countP_addVariable hs ht.1 hQ⟩
      rw [Scope.agrees_addVariable, Bool.and_eq_true, hcell] at he
      show e.column _ _ = p.symbolTable.cell (a.var x)
      rw [Cell.eq_of_equals_integer he.2, hcell]
  · refine ⟨fun e he _ ↦ ?_, fun Q _ ↦ rfl⟩
    rw [Expr.value, he]
    exact ht.2
  · refine ⟨fun e _ _ ↦ ?_, fun Q _ ↦ rfl⟩
    rw [hc] at hid
    exact (SymbolTable.cell_of_constant? hid).symm

/-! ### Conditions -/

/-- A condition that comes down to a test under agreement tests the solutions. -/
theorem countP_require {condition : Condition} {Q : Env → Bool} (test : Env → Bool)
    (htest : ∀ e : Env, e.param = env.param → s.agrees p.symbolTable a e = true →
      condition.holds p.database e = test e) :
    ((s.require condition).solutions p.database env).countP
        (fun e ↦ Q e && (s.require condition).agrees p.symbolTable a e) =
      (s.solutions p.database env).countP
        fun e ↦ (Q e && test e) && s.agrees p.symbolTable a e := by
  rw [Scope.solutions_require, List.countP_filter]
  refine List.countP_congr fun e he ↦ ?_
  show ((Q e && s.agrees p.symbolTable a e) && condition.holds p.database e) = true ↔ _
  cases hagrees : s.agrees p.symbolTable a e with
  | false => simp
  | true => simp [htest e (Scope.param_of_mem_solutions he) hagrees]

/-- An equation counts the solutions that pass one more test, if its sides are equal exactly where
the test says so. -/
theorem countP_equate {left right : Expr} {Q : Env → Bool} (test : Env → Bool)
    (htest : ∀ e : Env, e.param = env.param → s.agrees p.symbolTable a e = true →
      (left.value e).equals (right.value e) = test e) :
    ((s.equate left right).solutions p.database env).countP
        (fun e ↦ Q e && (s.equate left right).agrees p.symbolTable a e) =
      (s.solutions p.database env).countP
        fun e ↦ (Q e && test e) && s.agrees p.symbolTable a e :=
  countP_require test fun e hparam he ↦ by rw [Condition.holds, htest e hparam he]

/-- An equation of two expressions keeps the count if they denote the same text, and makes it zero if
they do not. -/
theorem countP_equate_denotes {left right : Expr} {x y : String} {Q : Env → Bool}
    (hx : .constant x ∈ p.symbolTable.symbols) (hleft : s.Denotes p env a left x)
    (hright : s.Denotes p env a right y) :
    ((s.equate left right).solutions p.database env).countP
        (fun e ↦ Q e && (s.equate left right).agrees p.symbolTable a e) =
      if decide (x = y) then
        (s.solutions p.database env).countP fun e ↦ Q e && s.agrees p.symbolTable a e
      else 0 := by
  have htest : ∀ e : Env, e.param = env.param → s.agrees p.symbolTable a e = true →
      (left.value e).equals (right.value e) = decide (x = y) := fun e hparam he ↦ by
    rw [hleft e hparam he, hright e hparam he, p.symbolTable_numbered.equals_cell hx]
  rw [countP_equate _ htest, countP_and_const]

/-! ### Goals on listed facts -/

/-- Matching columns with terms tests the row for their cells. -/
theorem matchColumns_countP (hc : c.symbols = p.symbolTable) {source : String} {arity position : Nat}
    {ts : List Term} (hs : s.Valid) (hsource : ⟨Schema.factTable arity, source⟩ ∈ s.sources)
    (hpos : 1 ≤ position) (hlen : position + ts.length ≤ arity + 1)
    (hts : ∀ t ∈ ts, a.Fits p rule env t)
    (h : c.matchColumns rule source position ts s = .ok s') {Q : Env → Bool} (hQ : s.Respects Q) :
    (s'.solutions p.database env).countP (fun e ↦ Q e && s'.agrees p.symbolTable a e) =
      (s.solutions p.database env).countP fun e ↦
        (Q e && e.matchesFrom source position (ts.map fun t ↦ p.symbolTable.cell (a.text t))) &&
          s.agrees p.symbolTable a e := by
  induction ts generalizing position s with
  | nil =>
    obtain rfl : s = s' := by simpa [matchColumns] using h
    simp [Env.matchesFrom]
  | cons t ts ih =>
    obtain ⟨value, s₁, harg, hrest⟩ := matchColumns_cons h
    obtain ⟨ht, hts⟩ := List.forall_mem_cons.mp hts
    obtain ⟨hs₁, hvalue⟩ := argument_valid hs harg
    obtain ⟨hdenotes, hcount⟩ := argument_countP hc hs ht harg
    have hgrows := argument_grows harg
    have hsource₁ := hgrows.sources_mem _ hsource
    rw [List.length_cons] at hlen
    have hcolumn : (Expr.column source (Schema.argColumn position)).WellScoped s₁.sources :=
      ⟨_, hsource₁, rfl, Or.inr ⟨arity, rfl, Schema.argColumn_mem_factColumns hpos (by omega)⟩⟩
    -- First the remaining columns, then this equation, then the argument itself.
    rw [ih (hs₁.equate hcolumn hvalue) hsource₁ (by omega) (by omega) hts hrest
        (hQ.mono hgrows.sources_mem),
      countP_equate (fun e ↦ (e.column source (Schema.argColumn position)).equals
        (p.symbolTable.cell (a.text t))) fun e hparam he ↦ by rw [hdenotes e hparam he]; rfl,
      hcount _ ((hQ.and (Scope.respects_matchesFrom hsource _ _)).and
        (Scope.respects_column hsource _ _))]
    refine List.countP_congr fun e _ ↦ ?_
    simp only [List.map_cons, Env.matchesFrom, Bool.and_eq_true]
    tauto

/-- A goal on listed facts multiplies the count by the number of copies of its fact. -/
theorem addFacts_countP (hc : c.symbols = p.symbolTable) (hp : ∀ f ∈ p.facts, f.Known p.symbols)
    (hs : s.Valid) {g : Goal} (harity : g.args.length ≤ Schema.maxArity)
    (hg : ∀ t ∈ g.args, a.Fits p rule env t) (h : c.addFacts rule s g = .ok s') {Q : Env → Bool}
    (hQ : s.Respects Q) :
    (s'.solutions p.database env).countP (fun e ↦ Q e && s'.agrees p.symbolTable a e) =
      p.facts.count (a.ground g) *
        (s.solutions p.database env).countP fun e ↦ Q e && s.agrees p.symbolTable a e := by
  obtain ⟨id, hid, hcolumns⟩ := addFacts_eq_ok h
  rw [hc] at hid
  have hsource : ⟨Schema.factTable g.args.length, tableAlias s.number s.tables⟩ ∈
      (s.addTable g.args.length).2.sources :=
    List.mem_append_right _ (List.mem_singleton.mpr rfl)
  have hfunctor : (Expr.column (tableAlias s.number s.tables) Schema.functorColumn).WellScoped
      (s.addTable g.args.length).2.sources :=
    ⟨_, hsource, rfl, Or.inr ⟨g.args.length, rfl, List.mem_cons_self⟩⟩
  have hvalid := (hs.addTable g.args.length).equate hfunctor (Expr.wellScoped_int _ id)
  have hQ' := hQ.mono (s.grows_addTable g.args.length).sources_mem
  rw [matchColumns_countP hc hvalid hsource le_rfl (by omega) hg hcolumns hQ',
    countP_equate _ fun e _ _ ↦ rfl, Scope.solutions_addTable hs harity]
  -- Every earlier solution is continued by the rows that are copies of the fact.
  refine countP_flatMap_eq_mul fun e ↦ ?_
  have hget : p.symbolTable.get? ⟨g.functor, (g.args.map a.text).length⟩ = some id := by
    rw [List.length_map]
    exact hid
  have hcopies := Program.countP_factTable hp e (tableAlias s.number s.tables) hget
  -- Whether the earlier solution counts does not depend on the row.
  have hQe := fun row ↦ hQ e _ (Schema.factColumns g.args.length) row hs.ne_tableAlias
  have hagrees : ∀ row, (s.addTable g.args.length).2.agrees p.symbolTable a
      (e.bind (tableAlias s.number s.tables) (Schema.factColumns g.args.length) row) =
        s.agrees p.symbolTable a e :=
    fun row ↦ Scope.respects_agrees hs e _ _ row hs.ne_tableAlias
  rw [List.countP_map]
  simp only [Function.comp_def, hQe, hagrees]
  rw [List.length_map, List.map_map] at hcopies
  cases hstart : Q e && s.agrees p.symbolTable a e with
  | false =>
    rw [if_neg (by simp), List.countP_eq_zero]
    intro row _
    simp only [Bool.and_eq_false_iff] at hstart
    simp only [Bool.and_eq_true]
    rcases hstart with hstart | hstart <;> simp [hstart]
  | true =>
    rw [Bool.and_eq_true] at hstart
    rw [if_pos rfl, Assignment.ground, ← hcopies]
    refine List.countP_congr fun row _ ↦ ?_
    simp only [hstart.1, hstart.2, Bool.true_and, Bool.and_true, Bool.and_eq_true, Function.comp_def,
      Expr.value]
    exact and_comm

end Compiler

/-! ### Rule heads -/

/-- The head variables of a rule that are bound are those with a text, and each is bound to an
expression that denotes its text. -/
structure Scope.Binds (s : Scope) (p : Program) (env : Env) (a : Assignment) (key : Symbol)
    (b : Bindings) (found : List (String × String)) : Prop where
  unbound : ∀ x, found.lookup x = none → b.lookup (.rule key x) = none
  bound : ∀ x text, found.lookup x = some text → text ∈ p.constants ∧
    ∃ value, b.lookup (.rule key x) = some value ∧ s.Denotes p env a value text

namespace Scope.Binds

variable {key : Symbol} {b : Bindings} {found : List (String × String)}

theorem nil : s.Binds p env a key [] [] :=
  ⟨fun _ _ ↦ rfl, fun _ _ h ↦ nomatch h⟩

/-- What is bound keeps its meaning while the scope grows. -/
theorem mono (h : s.Binds p env a key b found) (hgrows : Grows s s') :
    s'.Binds p env a key b found := by
  refine ⟨h.unbound, fun x text hx ↦ ?_⟩
  obtain ⟨hmem, value, hvalue, hdenotes⟩ := h.bound x text hx
  exact ⟨hmem, value, hvalue, hdenotes.mono hgrows⟩

theorem lookup_eq_none (h : s.Binds p env a key b found) {x : String}
    (hx : b.lookup (.rule key x) = none) : found.lookup x = none := by
  cases hfound : found.lookup x with
  | none => rfl
  | some text =>
    obtain ⟨-, value, hvalue, -⟩ := h.bound x text hfound
    rw [hx] at hvalue
    cases hvalue

/-- A bound variable denotes the text it was found with. -/
theorem lookup_eq_some (h : s.Binds p env a key b found) {x : String} {value : Expr}
    (hx : b.lookup (.rule key x) = some value) :
    ∃ text ∈ p.constants, found.lookup x = some text ∧ s.Denotes p env a value text := by
  cases hfound : found.lookup x with
  | none =>
    rw [h.unbound x hfound] at hx
    cases hx
  | some text =>
    obtain ⟨htext, value', hvalue', hdenotes⟩ := h.bound x text hfound
    obtain rfl := Option.some.inj (hx.symm.trans hvalue')
    exact ⟨text, htext, rfl, hdenotes⟩

/-- A variable that has a text keeps it. -/
theorem again (h : s.Binds p env a key b found) {x text : String} (hx : found.lookup x = some text)
    (later : String) : s.Binds p env a key b (found ++ [(x, later)]) := by
  have hsame : ∀ y, (found ++ [(x, later)]).lookup y = found.lookup y := by
    intro y
    rw [lookup_append_singleton]
    by_cases hy : y = x
    · rw [hy, hx, Option.some_or]
    · simp [hy]
  exact ⟨fun y hy ↦ h.unbound y (hsame y ▸ hy), fun y text hy ↦ h.bound y text (hsame y ▸ hy)⟩

/-- A variable that has no text is bound to the argument it meets. -/
theorem extend (h : s.Binds p env a key b found) {x text : String} {value : Expr}
    (hx : found.lookup x = none) (htext : text ∈ p.constants)
    (hvalue : s.Denotes p env a value text) :
    s.Binds p env a key (b ++ [(.rule key x, value)]) (found ++ [(x, text)]) := by
  refine ⟨fun y hy ↦ ?_, fun y text' hy ↦ ?_⟩ <;> rw [lookup_append_singleton] at hy ⊢
  · obtain ⟨hfound, hne⟩ := Option.or_eq_none_iff.mp hy
    have hne : y ≠ x := fun heq ↦ by simp [heq] at hne
    simp [h.unbound y hfound, hne]
  · cases hfound : found.lookup y with
    | some earlier =>
      rw [hfound, Option.some_or] at hy
      obtain rfl := Option.some.inj hy
      obtain ⟨hmem, value', hvalue', hdenotes⟩ := h.bound y earlier hfound
      exact ⟨hmem, value', by rw [hvalue', Option.some_or], hdenotes⟩
    | none =>
      rw [hfound, Option.none_or] at hy
      obtain ⟨rfl, rfl⟩ : y = x ∧ text = text' := by simpa using hy
      exact ⟨htext, value, by simp [h.unbound y hx], hvalue⟩

end Scope.Binds

namespace Compiler

/-- Matching a head leaves the count if every head term meets an argument with its text, and makes it
zero if not. -/
theorem matchHead_countP (hc : c.symbols = p.symbolTable) {key : Symbol}
    {pairs : List (Term × Term)} {b b' : Bindings} {found : List (String × String)} (hs : s.Valid)
    (hb : ∀ entry ∈ b, entry.2.WellScoped s.sources) (hbinds : s.Binds p env a key b found)
    (hpairs : ∀ pair ∈ pairs, a.Fits p rule env pair.2)
    (h : c.matchHead rule key pairs b s = .ok (b', s')) :
    s'.Binds p env a key b' (found ++ a.headTexts pairs) ∧ ∀ Q : Env → Bool, s.Respects Q →
      (s'.solutions p.database env).countP (fun e ↦ Q e && s'.agrees p.symbolTable a e) =
        if a.headAgrees (found ++ a.headTexts pairs) pairs then
          (s.solutions p.database env).countP fun e ↦ Q e && s.agrees p.symbolTable a e
        else 0 := by
  induction pairs generalizing b s found with
  | nil =>
    obtain ⟨rfl, rfl⟩ : b = b' ∧ s = s' := by simpa [matchHead] using h
    exact ⟨by simpa [Assignment.headTexts] using hbinds, fun Q _ ↦ by simp [Assignment.headAgrees]⟩
  | cons pair rest ih =>
    obtain ⟨head, arg⟩ := pair
    obtain ⟨value, s₁, harg, hrest⟩ := matchHead_cons h
    obtain ⟨hfits, hothers⟩ := List.forall_mem_cons.mp hpairs
    obtain ⟨hs₁, hvalue⟩ := argument_valid hs harg
    obtain ⟨hdenotes, hcount⟩ := argument_countP hc hs hfits harg
    have hgrows := argument_grows harg
    have hb₁ : ∀ entry ∈ b, entry.2.WellScoped s₁.sources :=
      fun entry hentry ↦ (hb entry hentry).mono hgrows.sources_mem
    have hbinds₁ := hbinds.mono hgrows
    obtain ⟨x, previous, rfl, hlookup, hrest⟩ | ⟨x, rfl, hlookup, hrest⟩ |
      ⟨text, id, rfl, hid, hrest⟩ | ⟨name, rfl, hrest⟩ := hrest
    · -- A head variable that comes again is compared with its first text.
      obtain ⟨text, htext, hx, hprevious⟩ := hbinds₁.lookup_eq_some hlookup
      have hwell := hb₁ _ (mem_of_lookup_eq_some hlookup)
      obtain ⟨hbinds', hcount'⟩ := ih (hs₁.equate hwell hvalue) hb₁
        ((hbinds₁.again hx (a.text arg)).mono (s₁.grows_equate _ _)) hothers hrest
      rw [List.append_assoc, List.singleton_append] at hbinds' hcount'
      refine ⟨hbinds', fun Q hQ ↦ ?_⟩
      have hsymbol := Program.mem_symbolTable.mpr (Program.mem_constants.mp htext)
      rw [hcount' Q (hQ.mono hgrows.sources_mem), countP_equate_denotes hsymbol hprevious hdenotes,
        hcount Q hQ, Assignment.headAgrees_cons, Assignment.headTexts_var,
        Assignment.meets_var_of_some a hx]
      cases a.headAgrees _ rest <;> simp
    · -- A new head variable takes the argument's text, which it meets.
      have hx := hbinds.lookup_eq_none hlookup
      have hb' : ∀ entry ∈ b ++ [(.rule key x, value)], entry.2.WellScoped s₁.sources :=
        List.forall_mem_append.mpr ⟨hb₁, List.forall_mem_singleton.mpr hvalue⟩
      obtain ⟨hbinds', hcount'⟩ :=
        ih hs₁ hb' (hbinds₁.extend hx hfits.mem_constants hdenotes) hothers hrest
      rw [List.append_assoc, List.singleton_append] at hbinds' hcount'
      refine ⟨hbinds', fun Q hQ ↦ ?_⟩
      rw [hcount' Q (hQ.mono hgrows.sources_mem), hcount Q hQ, Assignment.headAgrees_cons,
        Assignment.headTexts_var, Assignment.meets_var_of_none a hx, Bool.true_and]
    · -- A constant in the head is compared with the argument.
      obtain ⟨hbinds', hcount'⟩ := ih (hs₁.equate hvalue (Expr.wellScoped_int _ id)) hb₁
        (hbinds₁.mono (s₁.grows_equate _ _)) hothers hrest
      refine ⟨hbinds', fun Q hQ ↦ ?_⟩
      have hconstant : s₁.Denotes p env a (.int id) text := fun e _ _ ↦
        (SymbolTable.cell_of_constant? (hc ▸ hid)).symm
      rw [hcount' Q (hQ.mono hgrows.sources_mem),
        countP_equate_denotes hfits.mem_symbols hdenotes hconstant, hcount Q hQ,
        Assignment.headAgrees_cons, Assignment.headTexts_const, Assignment.meets]
      cases a.headAgrees _ rest <;> simp
    · -- A parameter in the head takes anything.
      obtain ⟨hbinds', hcount'⟩ := ih hs₁ hb₁ hbinds₁ hothers hrest
      refine ⟨hbinds', fun Q hQ ↦ ?_⟩
      rw [hcount' Q (hQ.mono hgrows.sources_mem), hcount Q hQ]
      rfl

end Compiler

/-! ### Goals on rules -/

/-- The scan says what the rule for `key` says: it has a combination exactly if the body is true
where the head variables have the texts that the environment supplies. -/
def Program.Sound (p : Program) (policy : BodyPolicy) (key : Symbol) (scan : Scan) : Prop :=
  ∀ r, p.rule? key = some r → ∀ (value : String → String) (env : Env),
    (∀ x, .var x ∈ r.head →
      value x ∈ p.constants ∧ env.param (.rule key x) = p.symbolTable.cell (value x)) →
    (scan.holds p.database env = true ↔ p.BodyHolds policy r value)

/-- What every program that was read from a text and written to the store satisfies. -/
structure Program.WellFormed (p : Program) : Prop where
  closed : p.Closed
  /-- A rule without arguments has its name among the constants. -/
  named : ∀ r ∈ p.rules, r.head = [] → .constant r.name ∈ p.symbols
  /-- Every fact has a table. -/
  arities : ∀ f ∈ p.facts, f.args.length ≤ Schema.maxArity

namespace Compiler

variable {policy : BodyPolicy}

/-- What is bound for head variables belongs to the scope, so a scan from an earlier scope does not
declare it. -/
theorem avoid_declared (hs : s.Valid) {b : Bindings}
    (hb : ∀ entry ∈ b, entry.2.WellScoped s.sources) {scan : Scan}
    (hscan : ∀ name ∈ scan.declared, Scope.Earlier s.number name) : b.Avoid scan.declared := by
  intro entry hentry source field heq hmem
  have hwell := hb entry hentry
  rw [heq] at hwell
  obtain ⟨t, ht, rfl, -⟩ := hwell
  exact (hs.owns ht).not_earlier (hscan _ hmem)

/-- What a head binds refers to the current scope, and nested scans to earlier ones: nothing is
captured. -/
theorem matchHead_avoid (hs : s.Valid) {scan : Scan}
    (hscan : ∀ name ∈ scan.declared, Scope.Earlier s.number name) {key : Symbol}
    {pairs : List (Term × Term)} {b : Bindings}
    (h : c.matchHead rule key pairs [] s = .ok (b, s')) : b.Avoid scan.declared := by
  obtain ⟨hs', hb⟩ := matchHead_valid hs (by simp) h
  refine avoid_declared hs' hb ?_
  rwa [(matchHead_grows h).number_eq]

open Classical in
/-- A goal on a rule leaves the count if it is true, and makes it zero if not. -/
theorem addRule_countP (hc : c.symbols = p.symbolTable) (hprogram : c.program = p)
    (hp : p.WellFormed) (hs : s.Valid) {g : Goal} {fragment : Fragment}
    (hsound : p.Sound policy g.symbol fragment.scan)
    (hscan : ∀ name ∈ fragment.scan.declared, Scope.Earlier s.number name)
    (hg : ∀ t ∈ g.args, a.Fits p rule env t) (h : c.addRule rule s g fragment = .ok s')
    {Q : Env → Bool} (hQ : s.Respects Q) :
    (s'.solutions p.database env).countP (fun e ↦ Q e && s'.agrees p.symbolTable a e) =
      if p.Holds policy (a.ground g) then
        (s.solutions p.database env).countP fun e ↦ Q e && s.agrees p.symbolTable a e
      else 0 := by
  obtain ⟨r, b, s₁, hrule, hmatch, rfl⟩ := addRule_eq_ok h
  rw [hprogram] at hrule
  have hr := Program.mem_of_rule? hrule
  have hlength := Program.length_of_rule? hrule
  have hpairs : ∀ pair ∈ r.head.zip g.args, a.Fits p rule env pair.2 :=
    fun pair hpair ↦ hg _ (List.of_mem_zip hpair).2
  obtain ⟨hbinds, hcount⟩ := matchHead_countP hc hs (by simp) .nil hpairs hmatch
  -- The subquery tests the body, with the texts of the arguments for the head variables.
  have htest : ∀ e : Env, e.param = env.param → s₁.agrees p.symbolTable a e = true →
      (Condition.exists (fragment.scan.substitute b)).holds p.database e =
        decide (p.BodyHolds policy r (a.headValue (r.head.zip g.args))) := by
    intro e hparam he
    rw [Condition.holds, Scan.holds_substitute _ (matchHead_avoid hs hscan hmatch), Bool.eq_iff_iff,
      decide_eq_true_iff]
    refine hsound r hrule _ _ fun x hx ↦ ?_
    obtain ⟨arg, hmem⟩ := Program.exists_mem_zip hlength hx
    obtain ⟨text, htext⟩ := Assignment.exists_lookup_of_mem (a := a) hmem
    obtain ⟨hconstant, value, hvalue, hdenotes⟩ := hbinds.bound x text htext
    rw [Assignment.headValue_eq htext, Env.rebind_param_of_lookup hvalue, hdenotes e hparam he]
    exact ⟨hconstant, rfl⟩
  -- The goal holds if its arguments match the head and the body holds.
  have hholds : p.Holds policy (a.ground g) ↔ _ := Program.holds_ground_iff hrule
    (fun t ht ↦ (hp.closed.rules r hr t (List.mem_append_left _ ht)).2) (hp.named r hr)
    fun t ht ↦ (hg t ht).mem_constants
  rw [countP_require _ htest, hcount _ (hQ.and fun _ _ _ _ _ ↦ rfl), countP_and_const]
  rw [List.nil_append]
  by_cases hbody : p.BodyHolds policy r (a.headValue (r.head.zip g.args))
  · cases hagrees : a.headAgrees (a.headTexts (r.head.zip g.args)) (r.head.zip g.args) <;>
      simp [hholds, hbody, hagrees]
  · simp [hholds, hbody]

/-! ### Lists of goals -/

/-- The compiler works on the program with the program's own numbers, and everything it keeps says
what the rules say. -/
structure Faithful (c : Compiler) (p : Program) (π : BodyPolicy) : Prop extends c.WorksOn p π where
  sound : ∀ entry ∈ c.fragments, p.Sound π entry.1 entry.2.scan

/-- With the same task, only what is kept has to be sound. -/
theorem Faithful.of_sameTask {d : Compiler} (hc : c.Faithful p policy) (h : SameTask c d)
    (hsound : ∀ entry ∈ d.fragments, p.Sound policy entry.1 entry.2.scan) : d.Faithful p policy :=
  ⟨hc.toWorksOn.of_sameTask h, hsound⟩

/-- A goal multiplies the count by its own multiplicity. -/
theorem addGoal_countP (hc : c.Faithful p policy) (hp : p.WellFormed)
    (hcache : c.CacheBefore s.number) (hs : s.Valid) {g : Goal}
    (hg : ∀ t ∈ g.args, a.Fits p rule env t) (h : c.addGoal rule s g = .ok s') {Q : Env → Bool}
    (hQ : s.Respects Q) :
    (s'.solutions p.database env).countP (fun e ↦ Q e && s'.agrees p.symbolTable a e) =
      p.multiplicity policy a [g] *
        (s.solutions p.database env).countP fun e ↦ Q e && s.agrees p.symbolTable a e := by
  obtain ⟨fragment, hfragment, hadd⟩ | ⟨-, -, hrule, hfacts, hadd⟩ := addGoal_cases h
  · have hsound := hc.sound _ (mem_of_lookup_eq_some hfragment)
    obtain ⟨r, -, -, hrule, -, -⟩ := addRule_eq_ok hadd
    rw [hc.program] at hrule
    rw [addRule_countP hc.symbols hc.program hp hs hsound (hcache.fragment hfragment).2 hg hadd hQ,
      Program.multiplicity_cons_rule (by simp [hrule]), Program.multiplicity_nil]
    split <;> simp
  · rw [hc.program] at hrule hfacts
    obtain ⟨f, hf, hsymbol⟩ := hp.closed.hasFacts_iff.mp hfacts
    have harity : g.args.length ≤ Schema.maxArity := by
      have hlength : f.args.length = g.args.length := congrArg Symbol.arity hsymbol
      rw [← hlength]
      exact hp.arities f hf
    rw [addFacts_countP hc.symbols hp.closed.facts hs harity hg hadd hQ,
      Program.multiplicity_cons_listed hrule, Program.multiplicity_nil, Nat.mul_one]

/-- **Goals multiply the count by the assignment's multiplicity.** -/
theorem addGoals_countP (hc : c.Faithful p policy) (hp : p.WellFormed)
    (hcache : c.CacheBefore s.number) (hs : s.Valid) {goals : List Goal}
    (hgoals : ∀ g ∈ goals, ∀ t ∈ g.args, a.Fits p rule env t)
    (h : c.addGoals rule goals s = .ok s') {Q : Env → Bool} (hQ : s.Respects Q) :
    (s'.solutions p.database env).countP (fun e ↦ Q e && s'.agrees p.symbolTable a e) =
      p.multiplicity policy a goals *
        (s.solutions p.database env).countP fun e ↦ Q e && s.agrees p.symbolTable a e := by
  induction goals generalizing s with
  | nil =>
    obtain rfl : s = s' := by simpa [addGoals] using h
    simp
  | cons g gs ih =>
    obtain ⟨s₁, hgoal, hrest⟩ := addGoals_cons h
    obtain ⟨hg, hgs⟩ := List.forall_mem_cons.mp hgoals
    have hgrows := addGoal_grows hgoal
    have hcache₁ : c.CacheBefore s₁.number := by rwa [hgrows.number_eq]
    have hmul : p.multiplicity policy a (g :: gs) = _ := Program.multiplicity_cons
    rw [ih hcache₁ (addGoal_valid hcache hs hgoal) hgs hrest (hQ.mono hgrows.sources_mem),
      addGoal_countP hc hp hcache hs hg hgoal hQ, hmul, ← Nat.mul_assoc,
      Nat.mul_comm (p.multiplicity policy a gs)]

end Compiler

end Program

end HornQuery
