import Mathlib
import HornQuery.Proofs.Solutions

/-!
# Compiled rules say what the rules say

Every scan that resolution leaves in the cache is sound (`Compiler.faithful_resolve`): wherever the
head variables of its rule have texts of constants, the scan has a combination exactly if some values
for the other variables make the goals of the body true.

No induction on how rules depend on each other is needed. A rule is compiled from scans that are in
the cache already, which are sound by the invariant, and the truth of a goal unfolds to the truth of
the body of its rule.

The count of `Compiler.addGoals_countP` is about one assignment at a time. To know that there is a
solution only where some assignment is found, an assignment is read off a solution
(`Scope.exists_assignment`).
-/

namespace HornQuery

open Scope (Valid Grows tableAlias variableAlias rangeCondition)

/-! ### The variables of a scope -/

/-- The rule, if there is one, does not supply the variable through its head. -/
def FreeIn (rule : Option Rule) (x : String) : Prop :=
  ∀ r, rule = some r → r.isParam x = false

namespace Compiler

variable {c : Compiler} {rule : Option Rule} {s s' : Scope}

/-- An argument adds its variable, unless the rule's head supplies it. -/
theorem argument_vars {t : Term} {value : Expr} (h : c.argument rule s t = .ok (value, s'))
    (x : String) : x ∈ s'.vars ↔ x ∈ s.vars ∨ t = .var x ∧ FreeIn rule x := by
  obtain ⟨r, y, rfl, rfl, hparam, rfl, rfl⟩ | ⟨y, rfl, hfree, hid⟩ | ⟨name, rfl, rfl, rfl⟩ |
    ⟨text, id, rfl, hid, rfl, rfl⟩ := argument_cases h
  · refine ⟨Or.inl, ?_⟩
    rintro (hx | ⟨heq, hfree⟩)
    · exact hx
    · rw [Term.var.inj heq, hfree r rfl] at hparam
      cases hparam
  · obtain ⟨i, hidx, heq⟩ | ⟨-, heq⟩ := s.idOf_cases y <;> rw [heq] at hid <;>
      obtain ⟨rfl, rfl⟩ := Prod.mk.inj hid
    · obtain ⟨hlt, hbeq, -⟩ := List.findIdx?_eq_some_iff_getElem.mp hidx
      have hy : y ∈ s.vars := eq_of_beq hbeq ▸ List.getElem_mem hlt
      refine ⟨Or.inl, ?_⟩
      rintro (hx | ⟨heq, -⟩)
      · exact hx
      · rwa [← Term.var.inj heq]
    · simp only [Scope.addVariable, List.mem_append, List.mem_singleton, Term.var.injEq]
      exact or_congr Iff.rfl ⟨fun h ↦ ⟨h.symm, h ▸ hfree⟩, fun h ↦ h.1.symm⟩
  · simp
  · simp

theorem matchColumns_vars {source : String} {position : Nat} {ts : List Term}
    (h : c.matchColumns rule source position ts s = .ok s') (x : String) :
    x ∈ s'.vars ↔ x ∈ s.vars ∨ .var x ∈ ts ∧ FreeIn rule x := by
  induction ts generalizing position s with
  | nil =>
    obtain rfl : s = s' := by simpa [matchColumns] using h
    simp
  | cons t ts ih =>
    obtain ⟨value, s₁, harg, hrest⟩ := matchColumns_cons h
    rw [ih hrest, show (s₁.equate _ value).vars = s₁.vars from rfl, argument_vars harg, List.mem_cons,
      eq_comm]
    tauto

/-- Matching a head adds variables of the goal, not of the head. -/
theorem matchHead_vars {key : Symbol} {pairs : List (Term × Term)} {b b' : Bindings}
    (h : c.matchHead rule key pairs b s = .ok (b', s')) (x : String) :
    x ∈ s'.vars ↔ x ∈ s.vars ∨ .var x ∈ pairs.map Prod.snd ∧ FreeIn rule x := by
  induction pairs generalizing b s with
  | nil =>
    obtain ⟨-, rfl⟩ : b = b' ∧ s = s' := by simpa [matchHead] using h
    simp
  | cons pair rest ih =>
    obtain ⟨head, arg⟩ := pair
    obtain ⟨value, s₁, harg, hrest⟩ := matchHead_cons h
    have hafter : x ∈ s'.vars ↔ x ∈ s₁.vars ∨ .var x ∈ rest.map Prod.snd ∧ FreeIn rule x := by
      obtain ⟨_, _, -, -, hrest⟩ | ⟨_, -, -, hrest⟩ | ⟨_, _, -, -, hrest⟩ | ⟨_, -, hrest⟩ := hrest <;>
        have hvars := ih hrest <;> exact hvars
    rw [hafter, argument_vars harg, List.map_cons, List.mem_cons, eq_comm]
    tauto

/-- Either way, a goal adds its own variables. -/
theorem addGoal_vars {g : Goal} (h : c.addGoal rule s g = .ok s') (x : String) :
    x ∈ s'.vars ↔ x ∈ s.vars ∨ .var x ∈ g.args ∧ FreeIn rule x := by
  obtain ⟨fragment, -, hrule⟩ | ⟨-, -, -, -, hfacts⟩ := addGoal_cases h
  · obtain ⟨r, b, s₁, hr, hhead, rfl⟩ := addRule_eq_ok hrule
    have hlength := Program.length_of_rule? hr
    rw [show (s₁.require _).vars = s₁.vars from rfl, matchHead_vars hhead,
      List.map_snd_zip (by omega)]
  · obtain ⟨id, -, hcolumns⟩ := addFacts_eq_ok hfacts
    exact matchColumns_vars hcolumns x

/-- The variables of a scope are those of its goals that are not supplied from outside. -/
theorem addGoals_vars {goals : List Goal} (h : c.addGoals rule goals s = .ok s') (x : String) :
    x ∈ s'.vars ↔ x ∈ s.vars ∨ (∃ g ∈ goals, .var x ∈ g.args) ∧ FreeIn rule x := by
  induction goals generalizing s with
  | nil =>
    obtain rfl : s = s' := by simpa [addGoals] using h
    simp
  | cons g gs ih =>
    obtain ⟨s₁, hgoal, hrest⟩ := addGoals_cons h
    rw [ih hrest, addGoal_vars hgoal, List.exists_mem_cons_iff]
    tauto

end Compiler

/-! ### Assignments read off solutions -/

section Program

variable {p : Program} {env : Env} {s : Scope}

/-- In a solution, a variable that ranges over constants is drawn as one. -/
theorem Scope.exists_text (hs : s.Valid) {e : Env} (he : e ∈ s.solutions p.database env) {i : Nat}
    (hi : i < s.vars.length) (hrange : rangeCondition s.number i ∈ s.conditions) :
    ∃ text ∈ p.constants,
      e.column (variableAlias s.number i) "id" = p.symbolTable.cell text ∧
        e.column (variableAlias s.number i) "symbol" = .text text := by
  obtain ⟨hdraw, hholds⟩ := List.mem_filter.mp he
  obtain ⟨row, hrow, hcolumn⟩ :=
    Database.exists_row_of_mem_draws hs.nodup hdraw (hs.variable_mem i hi)
  rw [Database.sourceTable_symbol] at hrow hcolumn
  obtain ⟨⟨text, arity⟩, id, hid, rfl⟩ := Program.symbolTable_row hrow
  have harity : arity = 0 := by
    have heq := Condition.holdAll_eq_true.mp hholds _ hrange
    have hcell : e.column (variableAlias s.number i) "arity" = .integer arity :=
      (hcolumn "arity").trans rfl
    simpa [rangeCondition, Condition.holds, Expr.value, hcell] using heq
  subst harity
  have hmem := Program.mem_symbolTable.mp (SymbolTable.mem_of_get? hid)
  refine ⟨text, Program.mem_constants.mpr hmem, ?_, (hcolumn "symbol").trans rfl⟩
  rw [SymbolTable.cell_of_constant? hid]
  exact (hcolumn "id").trans rfl

/-- A solution agrees with an assignment of the scope's variables to constants, which may be chosen
freely for other variables and for parameters. -/
theorem Scope.exists_assignment (hs : s.Valid) (hnodup : s.vars.Nodup)
    (hrange : ∀ i < s.vars.length, rangeCondition s.number i ∈ s.conditions) {e : Env}
    (he : e ∈ s.solutions p.database env) (value param : String → String) :
    ∃ a : Assignment, a.param = param ∧ (∀ x ∉ s.vars, a.var x = value x) ∧
      (∀ x ∈ s.vars, a.var x ∈ p.constants) ∧ s.agrees p.symbolTable a e = true ∧
      ∀ i x, s.vars[i]? = some x →
        e.column (variableAlias s.number i) "symbol" = .text (a.var x) := by
  -- The range condition of a variable says that its row is that of a symbol.
  have hread : ∀ i, ∃ text, i < s.vars.length → text ∈ p.constants ∧
      e.column (variableAlias s.number i) "id" = p.symbolTable.cell text ∧
        e.column (variableAlias s.number i) "symbol" = .text text := by
    intro i
    by_cases hi : i < s.vars.length
    · obtain ⟨text, htext⟩ := Scope.exists_text hs he hi (hrange i hi)
      exact ⟨text, fun _ ↦ htext⟩
    · exact ⟨"", fun h ↦ absurd h hi⟩
  choose text htext using hread
  -- The assignment is read off the row of the solution.
  let a : Assignment := ⟨fun x ↦ if x ∈ s.vars then text (s.vars.idxOf x) else value x, param⟩
  have hvar : ∀ i x, s.vars[i]? = some x → i < s.vars.length ∧ a.var x = text i := by
    intro i x hx
    obtain ⟨hi, rfl⟩ := List.getElem?_eq_some_iff.mp hx
    refine ⟨hi, ?_⟩
    show (if s.vars[i] ∈ s.vars then text (s.vars.idxOf s.vars[i]) else _) = text i
    rw [if_pos (List.getElem_mem hi), hnodup.idxOf_getElem i hi]
  refine ⟨a, rfl, fun x hx ↦ if_neg hx, fun x hx ↦ ?_, Scope.agrees_iff.mpr fun i x hx ↦ ?_,
    fun i x hx ↦ ?_⟩
  · obtain ⟨i, hi, rfl⟩ := List.mem_iff_getElem.mp hx
    rw [(hvar i _ (List.getElem?_eq_getElem hi)).2]
    exact (htext i hi).1
  · obtain ⟨hi, heq⟩ := hvar i x hx
    obtain ⟨hmem, hid, -⟩ := htext i hi
    rw [hid, heq, p.symbolTable_numbered.equals_cell
      (Program.mem_symbolTable.mpr (Program.mem_constants.mp hmem)), decide_eq_true_iff]
  · obtain ⟨hi, heq⟩ := hvar i x hx
    rw [(htext i hi).2.2, heq]

/-- A finished scope has a combination exactly if the scope has a solution. -/
theorem Scope.finish_holds_iff {db : Database} (s : Scope) (names : List String) :
    (s.finish names).scan.holds db env = true ↔ ∃ e, e ∈ s.solutions db env := by
  simp only [Scope.finish, Scan.holds, List.any_eq_true, Scope.solutions, List.mem_filter]

/-! ### Goals in a scope of their own -/

namespace Compiler

variable {c : Compiler} {policy : BodyPolicy} {rule : Option Rule} {goals : List Goal}
  {a : Assignment}

/-- What holds of a scope that was opened for goals. -/
theorem opened (hscoped : c.Scoped) (h : c.openScope.2.addGoals rule goals c.openScope.1 = .ok s) :
    s.Valid ∧ s.vars.Nodup ∧ (∀ i < s.vars.length, rangeCondition s.number i ∈ s.conditions) ∧
      ∀ x, x ∈ s.vars ↔ (∃ g ∈ goals, .var x ∈ g.args) ∧ FreeIn rule x := by
  have hcache : c.openScope.2.CacheBefore c.openScope.1.number := hscoped
  have hgrows := addGoals_grows h
  refine ⟨addGoals_valid hcache (Scope.Valid.empty _) h, hgrows.vars_nodup List.nodup_nil,
    fun i hi ↦ hgrows.ranged i (Nat.zero_le i) hi, fun x ↦ ?_⟩
  rw [addGoals_vars h x]
  simp [openScope_fst]

/-- Solutions that agree with an assignment are as many as its multiplicity. -/
theorem countP_solutions (hc : c.Faithful p policy) (hscoped : c.Scoped) (hp : p.WellFormed)
    (hgoals : ∀ g ∈ goals, ∀ t ∈ g.args, a.Fits p rule env t)
    (h : c.openScope.2.addGoals rule goals c.openScope.1 = .ok s) :
    (s.solutions p.database env).countP (s.agrees p.symbolTable a) =
      p.multiplicity policy a goals := by
  have hopen : c.openScope.2.Faithful p policy := hc.of_sameTask ⟨rfl, rfl, rfl⟩ hc.sound
  have hcache : c.openScope.2.CacheBefore c.openScope.1.number := hscoped
  have hcount := addGoals_countP hopen hp hcache (Scope.Valid.empty _) hgoals h
    (Scope.respects_true c.openScope.1)
  simp only [Bool.true_and] at hcount
  rw [hcount, openScope_fst, Scope.solutions_empty]
  simp [Scope.agrees]

/-- An assignment that gives the head variables their values fits the goals of a rule. -/
theorem fits_of_head (hp : p.WellFormed) {r : Rule} (hr : p.rule? r.key = some r)
    {value : String → String}
    (henv : ∀ x, .var x ∈ r.head →
      value x ∈ p.constants ∧ env.param (.rule r.key x) = p.symbolTable.cell (value x))
    (hhead : ∀ x, .var x ∈ r.head → a.var x = value x)
    (hconstants : ∀ g ∈ policy.select r.body, ∀ x, .var x ∈ g.args → a.var x ∈ p.constants) :
    ∀ g ∈ policy.select r.body, ∀ t ∈ g.args, a.Fits p (some r) env t := by
  intro g hg t ht
  obtain ⟨hconst, hnotparam⟩ :=
    hp.closed.rules r (Program.mem_of_rule? hr) t (Rule.mem_terms_of_mem_select hg ht)
  cases t with
  | var x =>
    refine ⟨hconstants g hg x ht, fun r' hr' hx ↦ ?_⟩
    obtain rfl := Option.some.inj hr'
    rw [Rule.isParam_iff] at hx
    rw [hhead x hx]
    exact (henv x hx).2
  | const text => exact Program.mem_constants.mpr (Term.known_const.mp hconst)
  | param name => simp [Term.isParam] at hnotparam

/-- A rule's scope has a solution exactly if the rule's body is true. -/
theorem sound_finish (hc : c.Faithful p policy) (hscoped : c.Scoped) (hp : p.WellFormed) {r : Rule}
    (hr : p.rule? r.key = some r)
    (h : c.openScope.2.addGoals (some r) (policy.select r.body) c.openScope.1 = .ok s)
    (names : List String) : p.Sound policy r.key (s.finish names).scan := by
  intro r' hr' value env henv
  obtain rfl := Option.some.inj (hr.symm.trans hr')
  obtain ⟨hvalid, hnodup, hrange, hvars⟩ := opened hscoped h
  rw [Scope.finish_holds_iff]
  constructor
  · rintro ⟨e, he⟩
    obtain ⟨a, -, hother, hin, hagrees, -⟩ :=
      Scope.exists_assignment hvalid hnodup hrange he value id
    -- A head variable has no source in the scope, so its value is kept.
    have hhead : ∀ x, .var x ∈ r.head → a.var x = value x := by
      intro x hx
      refine hother x fun hmem ↦ ?_
      have hfree := ((hvars x).mp hmem).2 r rfl
      rw [Rule.isParam_iff.mpr hx] at hfree
      cases hfree
    have hconstants : ∀ g ∈ policy.select r.body, ∀ x, .var x ∈ g.args → a.var x ∈ p.constants := by
      intro g hg x hx
      by_cases hxhead : .var x ∈ r.head
      · rw [hhead x hxhead]
        exact (henv x hxhead).1
      · refine hin x ((hvars x).mpr ⟨⟨g, hg, hx⟩, fun r' hr' ↦ ?_⟩)
        obtain rfl := Option.some.inj hr'
        exact Bool.eq_false_iff.mpr fun htrue ↦ hxhead (Rule.isParam_iff.mp htrue)
    have hpos : 0 < (s.solutions p.database env).countP (s.agrees p.symbolTable a) :=
      List.countP_pos_iff.mpr ⟨e, he, hagrees⟩
    rw [countP_solutions hc hscoped hp (fits_of_head hp hr henv hhead hconstants) h,
      Program.multiplicity_pos_iff] at hpos
    exact ⟨a, hhead, hconstants, hpos⟩
  · rintro ⟨a, hhead, hconstants, hbody⟩
    have hpos := Program.multiplicity_pos_iff.mpr hbody
    rw [← countP_solutions hc hscoped hp (fits_of_head hp hr henv hhead hconstants) h] at hpos
    obtain ⟨e, he, -⟩ := List.countP_pos_iff.mp hpos
    exact ⟨e, he⟩

/-! ### Resolution -/

/-- A rule whose goals refer to sound scans has a sound scan itself. -/
theorem faithful_compileRule (hp : p.WellFormed) {r : Rule} (hr : r ∈ c.program.rules)
    (hc : c.Faithful p policy ∧ c.Scoped) :
    (c.compileRule r).1.Faithful p policy ∧ (c.compileRule r).1.Scoped := by
  obtain ⟨hc, hscoped⟩ := hc
  refine ⟨?_, (scoped_compileRule hscoped r).1⟩
  refine hc.of_sameTask (c.sameTask_compileRule r) ?_
  obtain ⟨_, -, h⟩ | ⟨-, s, hgoals, h⟩ | ⟨-, _, -, h⟩ := c.compileRule_cases r <;> rw [h]
  · exact hc.sound
  · intro entry hentry
    rcases List.mem_append.mp hentry with hentry | hentry
    · exact hc.sound entry hentry
    · rw [List.mem_singleton.mp hentry]
      rw [hc.program] at hr
      rw [hc.policy] at hgoals
      exact sound_finish hc hscoped hp (Program.rule?_of_mem hp.closed hr) hgoals _
  · exact hc.sound

/-- **Resolution leaves sound scans only.** -/
theorem faithful_resolve (hp : p.WellFormed) (maxPasses : Nat) :
    ((p.compiler policy).resolve maxPasses).compiler.Faithful p policy ∧
      ((p.compiler policy).resolve maxPasses).compiler.Scoped := by
  have hempty : ∀ entry ∈ ([] : List (Symbol × Fragment)), False := by simp
  refine resolve_induction (P := fun c ↦ c.Faithful p policy ∧ c.Scoped)
    (fun c r hr hc ↦ faithful_compileRule hp hr hc)
    (fun c key reason hc ↦ ⟨hc.1.of_sameTask (c.sameTask_markFailed key reason) hc.1.sound, hc.2⟩)
    ⟨⟨worksOn_compiler p policy, fun entry hentry ↦ absurd hentry (hempty entry)⟩,
      fun entry hentry ↦ absurd hentry (hempty entry)⟩ maxPasses

/-! ### More scopes -/

/-- The compiler after some more scopes have been opened. -/
def later (c : Compiler) (scopes : Nat) : Compiler :=
  { c with scopes := c.scopes + scopes }

theorem Scoped.later (hscoped : c.Scoped) (scopes : Nat) : (c.later scopes).Scoped :=
  fun entry hentry ↦ ScopedUpTo.mono (hscoped entry hentry) (Nat.le_add_right _ _)

/-- Opening scopes changes nothing that is kept. -/
theorem Faithful.later (hc : c.Faithful p policy) (scopes : Nat) :
    (c.later scopes).Faithful p policy :=
  hc.of_sameTask ⟨rfl, rfl, rfl⟩ hc.sound

end Compiler

end Program

end HornQuery
