import Mathlib
import HornQuery.Proofs.Levels
import HornQuery.Proofs.Progress

/-!
# Passes compute levels

After `n` passes the compiled rules are those of height at most `n`, each compiled in the pass that is
its height; faulty rules have failed in the first pass, and the others are pending
(`Program.StateAfter`). One pass takes this from `n` to `n + 1` (`Resolution.tracks_pass`), because a
pass judges by the states before it, and because a rule whose goals are ready does compile: a collected
program has a number for every constant and every fact relation that it mentions.

A pass without progress leaves the states as they are, so no rule has the next height. Heights have no
gaps, so no pending rule has any height, and nothing is lost by stopping.
-/

namespace HornQuery

namespace Program

variable {p : Program} {policy : BodyPolicy} {r : Rule} {n : Nat} {state : RuleState}

/-! ### States after so many passes -/

/-- The goal is the first one of a wrong arity that takes part in the rule. -/
def FirstFault (p : Program) (policy : BodyPolicy) (r : Rule) (g : Goal) : Prop :=
  ∃ before after, policy.select r.body = before ++ g :: after ∧
    (∀ g' ∈ before, ¬ p.WrongArity g') ∧ p.WrongArity g

/-- The error for a goal of a wrong arity. -/
def arityFault (p : Program) (g : Goal) : CompileError :=
  .arityMismatch g.symbol (p.definedArities g.functor)

/-- A rule with a first faulty goal is faulty. -/
theorem FirstFault.faulty {g : Goal} (h : p.FirstFault policy r g) : p.Faulty policy r := by
  obtain ⟨before, after, heq, -, hg⟩ := h
  exact ⟨g, by simp [heq], hg⟩

/-- The state of a rule after `n` passes: compiled in the pass that is its height, failed if it is
faulty and there was a pass, and pending otherwise. -/
inductive StateAfter (p : Program) (policy : BodyPolicy) (n : Nat) (r : Rule) : RuleState → Prop where
  | compiled {m : Nat} (hm : m ≤ n) (h : p.Height policy r.key m) :
    StateAfter p policy n r (.compiled m)
  | failed {g : Goal} (hn : 1 ≤ n) (h : p.FirstFault policy r g) :
    StateAfter p policy n r (.failed (p.arityFault g).message)
  | pending (hfaulty : 1 ≤ n → ¬ p.Faulty policy r) (h : ∀ m ≤ n, ¬ p.Height policy r.key m) :
    StateAfter p policy n r .pending

/-- After `n` passes a rule is compiled if it has a height of at most `n`, in the pass of that
number. -/
theorem StateAfter.compiled_iff (h : p.StateAfter policy n r state)
    (hrule : p.rule? r.key = some r) {m : Nat} :
    state = .compiled m ↔ m ≤ n ∧ p.Height policy r.key m := by
  cases h with
  | compiled hm hheight =>
    constructor
    · rintro ⟨⟩
      exact ⟨hm, hheight⟩
    · rintro ⟨-, hheight'⟩
      rw [hheight.unique hheight']
  | failed hn hfault =>
    exact iff_of_false nofun fun h ↦ h.2.not_faulty hrule hfault.faulty
  | pending hfaulty hnone => exact iff_of_false nofun fun h ↦ hnone m h.1 h.2

/-- What has been settled stays settled. -/
theorem StateAfter.mono {k : Nat} (h : p.StateAfter policy n r state) (hle : n ≤ k)
    (hne : state ≠ .pending) : p.StateAfter policy k r state := by
  cases h with
  | compiled hm hheight => exact .compiled (hm.trans hle) hheight
  | failed hn hfault => exact .failed (hn.trans hle) hfault
  | pending hfaulty hnone => exact absurd rfl hne

/-- Before the first pass all rules are pending. -/
theorem stateAfter_zero (hrule : p.rule? r.key = some r) : p.StateAfter policy 0 r .pending := by
  refine .pending (by omega) fun m hm h ↦ ?_
  have := h.one_le hrule
  omega

/-- A rule that is pending and has a height is higher than the passes so far. -/
theorem StateAfter.lt_of_pending (h : p.StateAfter policy n r .pending) {m : Nat}
    (hheight : p.Height policy r.key m) : n < m := by
  cases h with
  | pending hfaulty hnone => exact Nat.lt_of_not_le fun hle ↦ hnone m hle hheight

/-- After a pass, a rule is pending only if it is not faulty and has not been reached yet. -/
theorem StateAfter.ne_pending_iff (h : p.StateAfter policy n r state) (hn : 1 ≤ n) :
    state ≠ .pending ↔ (¬ p.Faulty policy r → ∃ m ≤ n, p.Height policy r.key m) := by
  cases h with
  | compiled hm hheight => exact iff_of_true nofun fun _ ↦ ⟨_, hm, hheight⟩
  | failed _ hfault => exact iff_of_true nofun fun h ↦ absurd hfault.faulty h
  | pending hfaulty hnone =>
    refine iff_of_false (fun h ↦ h rfl) fun h ↦ ?_
    obtain ⟨m, hm, hheight⟩ := h (hfaulty hn)
    exact hnone m hm hheight

/-- A settled rule is compiled unless it is faulty. -/
theorem StateAfter.exists_compiled_iff (h : p.StateAfter policy n r state) (hne : state ≠ .pending)
    (hrule : p.rule? r.key = some r) : (∃ m, state = .compiled m) ↔ ¬ p.Faulty policy r := by
  cases h with
  | compiled hm hheight => exact iff_of_true ⟨_, rfl⟩ (hheight.not_faulty hrule)
  | failed _ hfault => exact iff_of_false (fun ⟨_, h⟩ ↦ nomatch h) fun h ↦ h hfault.faulty
  | pending hfaulty hnone => exact absurd rfl hne

/-- The height of a settled rule is at most the number of passes made. -/
theorem StateAfter.height_le (h : p.StateAfter policy n r state) (hne : state ≠ .pending)
    (hrule : p.rule? r.key = some r) {m : Nat} (hheight : p.Height policy r.key m) : m ≤ n := by
  cases h with
  | compiled hm hheight' => exact hheight.unique hheight' ▸ hm
  | failed hn hfault => exact absurd hfault.faulty (hheight.not_faulty hrule)
  | pending hfaulty hnone => exact absurd rfl hne

/-- It takes a pass to settle a rule. -/
theorem StateAfter.one_le (h : p.StateAfter policy n r state) (hne : state ≠ .pending)
    (hrule : p.rule? r.key = some r) : 1 ≤ n := by
  cases h with
  | compiled hm hheight => exact (hheight.one_le hrule).trans hm
  | failed hn hfault => exact hn
  | pending hfaulty hnone => exact absurd rfl hne

/-- A rule that is settled by the last of several passes has their number as its height. -/
theorem StateAfter.height_eq (hbefore : p.StateAfter policy n r .pending) (hn : 1 ≤ n)
    (h : p.StateAfter policy (n + 1) r state) (hne : state ≠ .pending) :
    p.Height policy r.key (n + 1) := by
  cases h with
  | @compiled m hm hheight =>
    obtain rfl : m = n + 1 := Nat.le_antisymm hm (hbefore.lt_of_pending hheight)
    exact hheight
  | failed _ hfault =>
    cases hbefore with
    | pending hfaulty _ => exact absurd hfault.faulty (hfaulty hn)
  | pending _ _ => exact absurd rfl hne

/-- The states of the rules, in order of declaration. -/
def statesOf (p : Program) (f : Rule → RuleState) : RuleStates :=
  p.rules.map fun r ↦ (r.key, f r)

/-- A symbol has the state of its rule. -/
theorem lookup_statesOf (p : Program) (f : Rule → RuleState) (s : Symbol) :
    (p.statesOf f).lookup s = (p.rule? s).map f := by
  unfold statesOf rule?
  induction p.rules with
  | nil => rfl
  | cons r rules ih =>
    by_cases h : r.key = s
    · simp [h]
    · have hbeq : (s == r.key) = false := beq_eq_false_iff_ne.mpr (Ne.symm h)
      simp [List.lookup_cons, h, hbeq, ih]

/-- States with the one of a rule replaced. -/
def withState (f : Rule → RuleState) (r : Rule) (state : RuleState) (x : Rule) : RuleState :=
  if x.key = r.key then state else f x

/-- Setting the state of one rule changes the states as a function of the rules. -/
theorem setState_statesOf (p : Program) (f : Rule → RuleState) (r : Rule) (state : RuleState) :
    Resolution.setState (p.statesOf f) r.key state = p.statesOf (withState f r state) := by
  simp only [Resolution.setState, statesOf, List.map_map]
  refine List.map_congr_left fun x _ ↦ ?_
  by_cases h : x.key = r.key <;> simp [withState, h]

@[simp] theorem withState_self (f : Rule → RuleState) (r : Rule) (state : RuleState) :
    withState f r state r = state := if_pos rfl

theorem withState_of_ne {f : Rule → RuleState} {x : Rule} (h : x.key ≠ r.key) :
    withState f r state x = f x := if_neg h

/-- Something is pending if some rule is. -/
theorem anyPending_statesOf {f : Rule → RuleState} :
    Resolution.anyPending (p.statesOf f) = true ↔ ∃ r ∈ p.rules, f r = .pending := by
  simp [Resolution.anyPending, statesOf]

theorem anyPending_statesOf_eq_false {f : Rule → RuleState} :
    Resolution.anyPending (p.statesOf f) = false ↔ ∀ r ∈ p.rules, f r ≠ .pending := by
  simp [Resolution.anyPending, statesOf]

end Program

namespace Resolution

open Program

variable {p : Program} {policy : BodyPolicy} {n : Nat} {f : Rule → RuleState}

/-! ### What goals refer to -/

/-- A relation is ready after `n` passes exactly if its height is at most `n`. -/
theorem classify_eq_ready_iff (hf : ∀ r ∈ p.rules, p.StateAfter policy n r (f r)) {s : Symbol} :
    classify p (p.statesOf f) s = .ready ↔ ∃ m ≤ n, p.Height policy s m := by
  rw [classify, lookup_statesOf]
  cases hrule : p.rule? s with
  | some r =>
    obtain rfl := key_of_rule? hrule
    simp_rw [← (hf r (mem_of_rule? hrule)).compiled_iff hrule]
    cases hstate : f r <;> simp [hstate]
  | none =>
    simp_rw [height_facts_iff hrule]
    cases p.hasFacts s with
    | true => simp
    | false =>
      simp only [Option.map_none, Bool.false_eq_true, if_false]
      split <;> simp

/-- States do not matter for a wrong arity: it is decided by the program. -/
theorem classify_eq_wrongArity_iff {g : Goal} {defined : List Nat} :
    classify p (p.statesOf f) g.symbol = .wrongArity defined ↔
      p.WrongArity g ∧ defined = p.definedArities g.functor := by
  rw [wrongArity_iff, classify, lookup_statesOf]
  cases hrule : p.rule? g.symbol with
  | some r => cases hstate : f r <;> simp [hstate]
  | none =>
    cases p.hasFacts g.symbol with
    | true => simp
    | false =>
      have htext : g.symbol.text = g.functor := rfl
      rw [htext]
      cases p.definedArities g.functor <;> simp [eq_comm]

/-- A goal of a wrong arity is found, or all goals are ready, or they have to wait. -/
theorem readiness_cases (p : Program) (f : Rule → RuleState) (goals : List Goal) :
    (∃ before g after, goals = before ++ g :: after ∧ (∀ g' ∈ before, ¬ p.WrongArity g') ∧
        p.WrongArity g ∧
        readiness p (p.statesOf f) goals = .mismatch g.symbol (p.definedArities g.functor)) ∨
      ((∀ g ∈ goals, ¬ p.WrongArity g) ∧
        (∃ g ∈ goals, classify p (p.statesOf f) g.symbol ≠ .ready) ∧
        readiness p (p.statesOf f) goals = .waiting) ∨
      ((∀ g ∈ goals, classify p (p.statesOf f) g.symbol = .ready) ∧
        readiness p (p.statesOf f) goals = .ready) := by
  induction goals with
  | nil => exact Or.inr (Or.inr ⟨by simp, rfl⟩)
  | cons g gs ih =>
    by_cases hwrong : p.WrongArity g
    · refine Or.inl ⟨[], g, gs, rfl, by simp, hwrong, ?_⟩
      rw [readiness, classify_eq_wrongArity_iff.mpr ⟨hwrong, rfl⟩]
    · -- The rest decides, unless it is ready and this goal is not.
      have hreadiness : readiness p (p.statesOf f) (g :: gs) =
          if classify p (p.statesOf f) g.symbol = .ready ∨
              readiness p (p.statesOf f) gs ≠ .ready then readiness p (p.statesOf f) gs
          else .waiting := by
        cases hclass : classify p (p.statesOf f) g.symbol with
        | wrongArity defined => exact absurd (classify_eq_wrongArity_iff.mp hclass).1 hwrong
        | ready => simp [readiness, hclass]
        | _ => cases hrest : readiness p (p.statesOf f) gs <;> simp [readiness, hclass, hrest]
      rw [hreadiness]
      obtain ⟨before, g', after, rfl, hbefore, hg', hrest⟩ | ⟨hnone, ⟨g', hg', hne⟩, hrest⟩ |
        ⟨hall, hrest⟩ := ih
      · refine Or.inl ⟨g :: before, g', after, rfl, ?_, hg', by simp [hrest]⟩
        exact List.forall_mem_cons.mpr ⟨hwrong, hbefore⟩
      · refine Or.inr (Or.inl ⟨List.forall_mem_cons.mpr ⟨hwrong, hnone⟩, ?_, by simp [hrest]⟩)
        exact ⟨g', List.mem_cons_of_mem _ hg', hne⟩
      · by_cases hready : classify p (p.statesOf f) g.symbol = .ready
        · exact Or.inr (Or.inr ⟨List.forall_mem_cons.mpr ⟨hready, hall⟩, by simp [hready, hrest]⟩)
        · have hnone : ∀ g' ∈ gs, ¬ p.WrongArity g' := fun g' hg' h ↦ by
            have hclass := hall g' hg'
            rw [classify_eq_wrongArity_iff.mpr ⟨h, rfl⟩] at hclass
            cases hclass
          refine Or.inr (Or.inl ⟨List.forall_mem_cons.mpr ⟨hwrong, hnone⟩, ?_, by simp [hready, hrest]⟩)
          exact ⟨g, List.mem_cons_self, hready⟩

/-! ### One rule in a pass -/

/-- The compiler and the states of the rules go together: the cache holds the rules whose state is
compiled, and failures are remembered of the rules whose state is failed, for the same reason. -/
structure Tracks (p : Program) (policy : BodyPolicy) (f : Rule → RuleState) (c : Compiler)
    (states : RuleStates) : Prop extends c.WorksOn p policy where
  states : states = p.statesOf f
  cache : ∀ s, c.isCompiled s = true ↔ ∃ r m, p.rule? s = some r ∧ f r = .compiled m
  failures : ∀ s reason, c.failures.lookup s = some reason ↔
    ∃ r, p.rule? s = some r ∧ f r = .failed reason

variable {c : Compiler} {states : RuleStates} {r : Rule}

/-- The compiler works for the program: it knows the program's own symbols, and what it remembers,
fragments and failures, is about rules of the program. -/
structure Serves (p : Program) (policy : BodyPolicy) (c : Compiler) : Prop
    extends c.WorksOn p policy where
  cache : ∀ s, c.isCompiled s = true → ∃ r, p.rule? s = some r
  failures : ∀ s reason, c.failures.lookup s = some reason → ∃ r, p.rule? s = some r

/-- A compiler that works for a closed program knows the constants of its rules. -/
theorem Serves.known (hp : p.Closed) (h : Serves p policy c) (hr : r ∈ p.rules) {t : Term}
    (ht : t ∈ r.terms) : t.Known c.symbols.symbols := by
  intro text heq
  rw [h.symbols, mem_symbolTable]
  exact (hp.rules r hr t ht).1 text heq

/-- A goal whose constants have numbers compiles if its relation is a compiled rule, or has facts and no
rule. -/
theorem Serves.admits_of_known (hp : p.Closed) (h : Serves p policy c) {g : Goal}
    (hargs : ∀ t ∈ g.args, t.Known c.symbols.symbols)
    (hcompiled : ∀ x, p.rule? g.symbol = some x → c.isCompiled g.symbol = true)
    (hfacts : p.rule? g.symbol = none → p.hasFacts g.symbol = true) : c.Admits g := by
  refine ⟨hargs, ?_⟩
  cases hrule : p.rule? g.symbol with
  | some x =>
    obtain ⟨fragment, hfragment⟩ := Option.isSome_iff_exists.mp (hcompiled x hrule)
    refine Or.inl ⟨fragment, x, hfragment, h.program ▸ hrule, fun t ht ↦ ?_⟩
    exact h.known hp (mem_of_rule? hrule) (List.mem_append_left _ ht)
  | none =>
    have hnone : ¬ ∃ x, p.rule? g.symbol = some x := by simp [hrule]
    refine Or.inr ⟨?_, ?_, h.program ▸ hrule, h.program ▸ hfacts hrule, ?_⟩
    · exact Option.not_isSome_iff_eq_none.mp fun hsome ↦ hnone (h.cache _ hsome)
    · exact Option.eq_none_iff_forall_ne_some.mpr fun reason hreason ↦
        hnone (h.failures _ reason hreason)
    · obtain ⟨fact, hfact, hsymbol⟩ := hp.hasFacts_iff.mp (hfacts hrule)
      rw [h.symbols, mem_symbolTable, ← hsymbol]
      exact (hp.facts fact hfact).1

/-- The constants in a goal of a rule have numbers. -/
theorem Serves.admits (hp : p.Closed) (h : Serves p policy c) (hr : r ∈ p.rules) {g : Goal}
    (hg : g ∈ policy.select r.body)
    (hcompiled : ∀ x, p.rule? g.symbol = some x → c.isCompiled g.symbol = true)
    (hfacts : p.rule? g.symbol = none → p.hasFacts g.symbol = true) : c.Admits g :=
  h.admits_of_known hp (fun _ ht ↦ h.known hp hr (Rule.mem_terms_of_mem_select hg ht)) hcompiled hfacts

/-- Keeping track of the states is working for the program. -/
theorem Tracks.serves (h : Tracks p policy f c states) : Serves p policy c where
  toWorksOn := h.toWorksOn
  cache s hs := by
    obtain ⟨x, -, hx, -⟩ := (h.cache s).mp hs
    exact ⟨x, hx⟩
  failures s reason hs := by
    obtain ⟨x, hx, -⟩ := (h.failures s reason).mp hs
    exact ⟨x, hx⟩

/-- A goal compiles if it has a height and, where there is a rule for it, the rule is compiled. -/
theorem Tracks.admits (hp : p.Closed) (h : Tracks p policy f c states) (hr : r ∈ p.rules) {g : Goal}
    (hg : g ∈ policy.select r.body) (hheight : ∃ m, p.Height policy g.symbol m)
    (hcompiled : ∀ x, p.rule? g.symbol = some x → ∃ m, f x = .compiled m) : c.Admits g := by
  refine h.serves.admits hp hr hg (fun x hx ↦ ?_) fun hrule ↦ ?_
  · obtain ⟨m, hm⟩ := hcompiled x hx
    exact (h.cache _).mpr ⟨x, m, hx, hm⟩
  · obtain ⟨m, hm⟩ := hheight
    exact ((height_facts_iff hrule).mp hm).1

/-- After one rule's state was set, a symbol's state is the new one for that rule and the old one
otherwise. -/
theorem exists_withState (hrule : p.rule? r.key = some r) {s : Symbol} {state : RuleState}
    {P : RuleState → Prop} :
    (∃ x, p.rule? s = some x ∧ P (withState f r state x)) ↔
      (s = r.key ∧ P state) ∨ (s ≠ r.key ∧ ∃ x, p.rule? s = some x ∧ P (f x)) := by
  by_cases hs : s = r.key
  · subst hs
    simp [hrule]
  · simp only [hs, false_and, ne_eq, not_false_eq_true, true_and, false_or]
    refine exists_congr fun x ↦ and_congr_right fun hx ↦ ?_
    rw [withState_of_ne (key_of_rule? hx ▸ hs)]

theorem exists_compiled_withState (hrule : p.rule? r.key = some r) {s : Symbol} {state : RuleState} :
    (∃ x m, p.rule? s = some x ∧ withState f r state x = .compiled m) ↔
      (s = r.key ∧ ∃ m, state = .compiled m) ∨
        (s ≠ r.key ∧ ∃ x m, p.rule? s = some x ∧ f x = .compiled m) := by
  simp only [exists_and_left]
  exact exists_withState hrule (P := fun state ↦ ∃ m, state = .compiled m)

/-- A rule whose goals are admitted is compiled. -/
theorem Tracks.compileRule (h : Tracks p policy f c states) (hrule : p.rule? r.key = some r)
    (hnot : ∀ reason, f r ≠ .failed reason) (hadmits : ∀ g ∈ policy.select r.body, c.Admits g)
    (m : Nat) :
    ∃ c' fragment, c.compileRule r = (c', .ok fragment) ∧
      Tracks p policy (withState f r (.compiled m)) c' (setState states r.key (.compiled m)) := by
  have hopen : ∀ g ∈ c.policy.select r.body, c.openScope.2.Admits g := h.policy ▸ hadmits
  have hstates : setState states r.key (.compiled m) = p.statesOf (withState f r (.compiled m)) := by
    rw [h.states, setState_statesOf]
  have hfailures : ∀ s reason, c.failures.lookup s = some reason ↔
      ∃ x, p.rule? s = some x ∧ withState f r (.compiled m) x = .failed reason := fun s reason ↦ by
    rw [h.failures, exists_withState hrule (P := (· = .failed reason))]
    by_cases hs : s = r.key
    · simp [hs, hrule, hnot]
    · simp [hs]
  obtain ⟨fragment, hfragment, heq⟩ | ⟨-, s, -, heq⟩ | ⟨-, e, herror, -⟩ := c.compileRule_cases r
  · refine ⟨c, fragment, heq, h.toWorksOn, hstates, fun s ↦ ?_, hfailures⟩
    rw [exists_compiled_withState hrule]
    by_cases hs : s = r.key
    · simp [hs, Compiler.isCompiled, hfragment]
    · simp [hs, h.cache s]
  · have hworks : (c.compileRule r).1.WorksOn p policy :=
      h.toWorksOn.of_sameTask (c.sameTask_compileRule r)
    rw [heq] at hworks
    refine ⟨_, _, heq, hworks, hstates, fun s ↦ ?_, hfailures⟩
    rw [exists_compiled_withState hrule, ← h.cache s, Compiler.isCompiled, Compiler.isCompiled,
      Compiler.fragment?, lookup_append_singleton]
    by_cases hs : s = r.key
    · simp [hs]
    · simp [hs, Compiler.fragment?]
  · obtain ⟨s', hs'⟩ := Compiler.addGoals_isOk_iff.mpr hopen
    rw [herror] at hs'
    cases hs'

/-- A rule that was not compiled may be marked as failed. -/
theorem Tracks.markFailed (h : Tracks p policy f c states) (hrule : p.rule? r.key = some r)
    (hnot : ∀ m, f r ≠ .compiled m) (reason : String) :
    Tracks p policy (withState f r (.failed reason)) (c.markFailed r.key reason)
      (setState states r.key (.failed reason)) := by
  refine ⟨h.toWorksOn.of_sameTask (c.sameTask_markFailed _ _), by rw [h.states, setState_statesOf],
    fun s ↦ ?_, fun s reason' ↦ ?_⟩
  · rw [exists_compiled_withState hrule]
    refine (h.cache s).trans ?_
    by_cases hs : s = r.key
    · subst hs
      simp [hrule, hnot]
    · simp [hs]
  · rw [exists_withState hrule (P := (· = .failed reason')), ← h.failures]
    by_cases hkey : s = r.key
    · simp [Compiler.markFailed, hkey]
    · have hbeq : (s == r.key) = false := beq_eq_false_iff_ne.mpr hkey
      simp [Compiler.markFailed, List.lookup_cons, hbeq, hkey]

/-- Replacing the state of one rule by a settled one leaves the other rules alone. -/
theorem withState_settled (hp : p.Closed) (hr : r ∈ p.rules) {state : RuleState}
    (h : p.StateAfter policy n r state) {x : Rule} (hx : x ∈ p.rules) :
    withState f r state x = f x ∨ p.StateAfter policy n x (withState f r state x) := by
  by_cases hkey : x.key = r.key
  · obtain rfl : x = r := List.inj_on_of_nodup_map hp.keys_nodup hx hr hkey
    rw [withState_self]
    exact Or.inr h
  · exact Or.inl (withState_of_ne hkey)

section Attempt

variable {g : Rule → RuleState} {q : Pass} (hp : p.Closed) (hr : r ∈ p.rules)
  (hf : ∀ x ∈ p.rules, p.StateAfter policy n x (f x))
  (hg : ∀ x ∈ p.rules, g x = f x ∨ p.StateAfter policy (n + 1) x (g x))

include hp hr in
/-- A pending rule is tried by what its goals refer to before the pass. -/
theorem attempt_of_pending (hq : Tracks p policy g q.compiler q.states) (hpending : f r = .pending) :
    attempt (n + 1) (p.statesOf f) q r =
      match readiness p (p.statesOf f) (policy.select r.body) with
      | .mismatch used defined => q.fail r.key (.arityMismatch used defined)
      | .waiting => q
      | .ready =>
        match q.compiler.compileRule r with
        | (compiler, .ok fragment) => q.succeed (n + 1) r.key compiler fragment
        | (compiler, .error e) => { q with compiler }.fail r.key e := by
  have hlookup : (p.statesOf f).lookup r.key = some .pending := by
    rw [lookup_statesOf, rule?_of_mem hp hr, Option.map_some, hpending]
  have htried : attempt (n + 1) (p.statesOf f) q r = _ := if_pos hlookup
  rw [hq.program, hq.policy] at htried
  exact htried

include hf in
/-- A rule that has to wait has not the next height. -/
theorem stateAfter_of_waiting (hrule : p.rule? r.key = some r)
    (hfaulty : ∀ a ∈ policy.select r.body, ¬ p.WrongArity a)
    (hwaiting : ∃ a ∈ policy.select r.body, classify p (p.statesOf f) a.symbol ≠ .ready) :
    p.StateAfter policy (n + 1) r .pending := by
  refine .pending (fun _ ⟨a, ha, hwrong⟩ ↦ hfaulty a ha hwrong) fun m hm hheight ↦ ?_
  obtain ⟨a, ha, hne⟩ := hwaiting
  exact hne ((classify_eq_ready_iff hf).mpr ((exists_height_le_iff hrule).mp ⟨m, hm, hheight⟩ a ha))

/-- A rule whose goals are ready has the next height. -/
theorem height_of_ready (hrule : p.rule? r.key = some r) (hpending : p.StateAfter policy n r .pending)
    (hready : ∀ a ∈ policy.select r.body, ∃ m ≤ n, p.Height policy a.symbol m) :
    p.Height policy r.key (n + 1) := by
  obtain ⟨m, hm, hheight⟩ := (exists_height_le_iff hrule).mpr hready
  obtain rfl : m = n + 1 := Nat.le_antisymm hm (hpending.lt_of_pending hheight)
  exact hheight

include hf hg in
/-- A rule that was compiled before the pass is compiled all through it. -/
theorem compiled_of_height {s : Symbol} {x : Rule} (hx : p.rule? s = some x) {m : Nat} (hm : m ≤ n)
    (hheight : p.Height policy s m) : g x = .compiled m := by
  obtain rfl := key_of_rule? hx
  rcases hg x (mem_of_rule? hx) with hsame | hafter
  · rw [hsame]
    exact ((hf x (mem_of_rule? hx)).compiled_iff hx).mpr ⟨hm, hheight⟩
  · exact (hafter.compiled_iff hx).mpr ⟨by omega, hheight⟩

include hp hr hf hg in
/-- An attempt settles its rule for the pass and leaves the other rules alone. Where it makes no
progress it changes nothing. -/
theorem tracks_attempt (hq : Tracks p policy g q.compiler q.states) :
    ∃ g', Tracks p policy g' (attempt (n + 1) (p.statesOf f) q r).compiler
        (attempt (n + 1) (p.statesOf f) q r).states ∧
      p.StateAfter policy (n + 1) r (g' r) ∧
      (∀ x ∈ p.rules, g' x = g x ∨ p.StateAfter policy (n + 1) x (g' x)) ∧
      ((attempt (n + 1) (p.statesOf f) q r).progress = false → q.progress = false ∧ g' = g) := by
  have hrule := rule?_of_mem hp hr
  by_cases hpending : f r = .pending
  · have hbefore : p.StateAfter policy n r .pending := hpending ▸ hf r hr
    have hattempt := attempt_of_pending (n := n) hp hr hq hpending
    obtain ⟨before, a, after, heq, hfirst, hwrong, hread⟩ | ⟨hfaulty, hwaiting, hread⟩ |
      ⟨hready, hread⟩ := readiness_cases p f (policy.select r.body)
    · -- The rule fails. It cannot have been compiled, because a faulty rule has no height.
      have hfault : p.FirstFault policy r a := ⟨before, after, heq, hfirst, hwrong⟩
      have hnot : ∀ m, g r ≠ .compiled m := by
        intro m hm
        rcases hg r hr with hsame | hafter
        · rw [← hsame, hm] at hpending
          cases hpending
        · exact ((hafter.compiled_iff hrule).mp hm).2.not_faulty hrule hfault.faulty
      have hafter : p.StateAfter policy (n + 1) r (.failed (p.arityFault a).message) :=
        .failed (by omega) hfault
      rw [hattempt, hread]
      exact ⟨_, hq.markFailed hrule hnot _, by rwa [withState_self],
        fun x hx ↦ withState_settled hp hr hafter hx, nofun⟩
    · -- Some goal is not ready, so nothing happens.
      rw [hattempt, hread]
      refine ⟨g, hq, ?_, fun x _ ↦ Or.inl rfl, fun h ↦ ⟨h, rfl⟩⟩
      rcases hg r hr with hsame | hafter
      · rw [hsame, hpending]
        exact stateAfter_of_waiting hf hrule hfaulty hwaiting
      · exact hafter
    · -- What was ready before the pass is still in the cache, so the rule compiles.
      have hheights : ∀ a ∈ policy.select r.body, ∃ m ≤ n, p.Height policy a.symbol m :=
        fun a ha ↦ (classify_eq_ready_iff hf).mp (hready a ha)
      have hadmits : ∀ a ∈ policy.select r.body, q.compiler.Admits a := fun a ha ↦ by
        obtain ⟨m, hm, hheight⟩ := hheights a ha
        exact hq.admits hp hr ha ⟨m, hheight⟩ fun x hx ↦ ⟨m, compiled_of_height hf hg hx hm hheight⟩
      have hheight := height_of_ready hrule hbefore hheights
      have hafter : p.StateAfter policy (n + 1) r (.compiled (n + 1)) := .compiled le_rfl hheight
      have hnot : ∀ reason, g r ≠ .failed reason := by
        intro reason hreason
        rcases hg r hr with hsame | hafter'
        · rw [← hsame, hreason] at hpending
          cases hpending
        · rw [(hafter'.compiled_iff hrule).mpr ⟨le_rfl, hheight⟩] at hreason
          cases hreason
      obtain ⟨c', fragment, hcompile, htracks⟩ := hq.compileRule hrule hnot hadmits (n + 1)
      rw [hattempt, hread]
      simp only [hcompile]
      exact ⟨_, htracks, by rwa [withState_self],
        fun x hx ↦ withState_settled hp hr hafter hx, nofun⟩
  · have hattempt : attempt (n + 1) (p.statesOf f) q r = q := by
      rw [attempt, if_neg]
      rw [lookup_statesOf, hrule, Option.map_some, Option.some.injEq]
      exact hpending
    rw [hattempt]
    refine ⟨g, hq, ?_, fun x _ ↦ Or.inl rfl, fun h ↦ ⟨h, rfl⟩⟩
    rcases hg r hr with hsame | hafter
    · rw [hsame]
      exact (hf r hr).mono (Nat.le_succ n) hpending
    · exact hafter

end Attempt

/-! ### All passes -/

/-- What one attempt does, attempts at several rules do for all of them. -/
theorem tracks_foldl_attempt (hp : p.Closed) (hf : ∀ x ∈ p.rules, p.StateAfter policy n x (f x))
    {rules : List Rule} (hrules : ∀ x ∈ rules, x ∈ p.rules) {q : Pass} {g : Rule → RuleState}
    (hg : ∀ x ∈ p.rules, g x = f x ∨ p.StateAfter policy (n + 1) x (g x))
    (hq : Tracks p policy g q.compiler q.states) :
    ∃ g', Tracks p policy g' (rules.foldl (attempt (n + 1) (p.statesOf f)) q).compiler
        (rules.foldl (attempt (n + 1) (p.statesOf f)) q).states ∧
      (∀ x ∈ rules, p.StateAfter policy (n + 1) x (g' x)) ∧
      (∀ x ∈ p.rules, g' x = g x ∨ p.StateAfter policy (n + 1) x (g' x)) ∧
      ((rules.foldl (attempt (n + 1) (p.statesOf f)) q).progress = false →
        q.progress = false ∧ g' = g) := by
  induction rules generalizing q g with
  | nil => exact ⟨g, hq, by simp, fun _ _ ↦ Or.inl rfl, fun h ↦ ⟨h, rfl⟩⟩
  | cons r rules ih =>
    obtain ⟨hr, hrules⟩ := List.forall_mem_cons.mp hrules
    obtain ⟨g₁, hq₁, hr₁, hothers₁, hstall₁⟩ := tracks_attempt hp hr hf hg hq
    have hg₁ : ∀ x ∈ p.rules, g₁ x = f x ∨ p.StateAfter policy (n + 1) x (g₁ x) := fun x hx ↦
      (hothers₁ x hx).elim (fun hsame ↦ hsame ▸ hg x hx) Or.inr
    obtain ⟨g₂, hq₂, hrules₂, hothers₂, hstall₂⟩ := ih hrules hg₁ hq₁
    refine ⟨g₂, hq₂, List.forall_mem_cons.mpr ⟨?_, hrules₂⟩, fun x hx ↦ ?_, fun h ↦ ?_⟩
    · -- Later attempts leave this rule alone or settle it in the same way.
      exact (hothers₂ r hr).elim (fun hsame ↦ hsame ▸ hr₁) id
    · exact (hothers₂ x hx).elim (fun hsame ↦ hsame ▸ hothers₁ x hx) Or.inr
    · obtain ⟨hprogress, rfl⟩ := hstall₂ h
      exact hstall₁ hprogress

/-- A pass takes the states after `n` passes to those after `n + 1`. -/
theorem tracks_pass (hp : p.Closed) (hf : ∀ x ∈ p.rules, p.StateAfter policy n x (f x))
    (h : Tracks p policy f c states) :
    ∃ g, Tracks p policy g (pass (n + 1) c states).compiler (pass (n + 1) c states).states ∧
      (∀ x ∈ p.rules, p.StateAfter policy (n + 1) x (g x)) ∧
      ((pass (n + 1) c states).progress = false → g = f) := by
  obtain rfl := h.program
  obtain rfl := h.states
  obtain ⟨g, hg, hall, -, hstall⟩ := tracks_foldl_attempt hp hf (fun _ hx ↦ hx)
    (fun _ _ ↦ Or.inl rfl) (q := { compiler := c, states := c.program.statesOf f }) h
  exact ⟨g, hg, hall, fun hprogress ↦ (hstall hprogress).2⟩

/-- If a pass changes nothing, a pending rule has no height at all. -/
theorem no_height_of_stalled (hf : ∀ x ∈ p.rules, p.StateAfter policy n x (f x))
    (hf' : ∀ x ∈ p.rules, p.StateAfter policy (n + 1) x (f x)) (hp : p.Closed)
    (hpending : p.StateAfter policy (n + 1) r .pending) (m : Nat) : ¬ p.Height policy r.key m := by
  intro hheight
  -- Otherwise some rule would have the next height, and be compiled without having been so before.
  obtain ⟨x, hx, hnext⟩ :=
    hheight.exists_rule (by omega : 1 ≤ n + 1) (hpending.lt_of_pending hheight).le
  have hrule := rule?_of_mem hp hx
  have hcompiled := ((hf' x hx).compiled_iff hrule).mpr ⟨le_rfl, hnext⟩
  have hle := (((hf x hx).compiled_iff hrule).mp hcompiled).1
  omega

/-- Where passes stand: the states are those after so many passes, and the last pass was needed. -/
structure Reached (p : Program) (policy : BodyPolicy) (f : Rule → RuleState) (q : Passes) : Prop where
  tracks : Tracks p policy f q.compiler q.states
  after : ∀ x ∈ p.rules, p.StateAfter policy q.count x (f x)
  needed : q.count = 0 ∨ ∃ x ∈ p.rules, p.StateAfter policy (q.count - 1) x .pending

/-- Stopping early makes no difference: the states are also those after all passes allowed. -/
theorem reached_run (hp : p.Closed) (left : Nat) {q : Passes} (hq : Reached p policy f q) :
    ∃ g, Reached p policy g (run left q) ∧
      ∀ x ∈ p.rules, p.StateAfter policy (q.count + left) x (g x) := by
  induction left generalizing q f with
  | zero => exact ⟨f, hq, hq.after⟩
  | succ left ih =>
    rw [run]
    by_cases hany : anyPending q.states = true
    · obtain ⟨g, hg, hafter, hstall⟩ := tracks_pass hp hq.after hq.tracks
      rw [if_pos hany]
      rw [hq.tracks.states, anyPending_statesOf] at hany
      obtain ⟨x, hx, hpending⟩ := hany
      -- The pass was needed, since a rule was pending before it.
      have hnext : Reached p policy g ⟨q.count + 1, (pass (q.count + 1) q.compiler q.states).compiler,
          (pass (q.count + 1) q.compiler q.states).states,
          q.log ++ (pass (q.count + 1) q.compiler q.states).log⟩ :=
        ⟨hg, hafter, Or.inr ⟨x, hx, hpending ▸ hq.after x hx⟩⟩
      simp only
      split
      · obtain ⟨g', hg', hall⟩ := ih hnext
        refine ⟨g', hg', fun x hx ↦ ?_⟩
        rw [show q.count + (left + 1) = q.count + 1 + left by omega]
        exact hall x hx
      · -- Without progress a pending rule has no height, and no further pass would settle it.
        rename_i hprogress
        obtain rfl := hstall (by simpa using hprogress)
        refine ⟨g, hnext, fun x hx ↦ ?_⟩
        by_cases hstate : g x = .pending
        · have hxafter := hafter x hx
          rw [hstate] at hxafter ⊢
          have hno := no_height_of_stalled hq.after hafter hp hxafter
          cases hxafter with
          | pending hfaulty _ => exact .pending (fun _ ↦ hfaulty (by omega)) fun m _ ↦ hno m
        · exact (hafter x hx).mono (by omega) hstate
    · rw [if_neg hany]
      refine ⟨f, hq, fun x hx ↦ (hq.after x hx).mono (by omega) fun hpending ↦ hany ?_⟩
      rw [hq.tracks.states, anyPending_statesOf]
      exact ⟨x, hx, hpending⟩

/-- Resolution fails if a rule is pending after all passes, and says why; else it reports every
state. -/
theorem resolve_cases (c : Compiler) (maxPasses : Nat) {q : Passes}
    (hq : q = run maxPasses ⟨0, c, c.program.statesOf fun _ ↦ .pending, []⟩) :
    (c.resolve maxPasses).compiler = q.compiler ∧
      ((anyPending q.states = true ∧
          (c.resolve maxPasses).report = .error (stuckError q.compiler q.states q.count)) ∨
        (anyPending q.states = false ∧ (c.resolve maxPasses).report =
          .ok ⟨q.count, q.states.map fun (key, state) ↦ ⟨key.display, outcome state⟩⟩)) := by
  subst hq
  unfold Compiler.resolve
  simp only
  split
  · rename_i hany
    exact ⟨rfl, Or.inl ⟨hany, rfl⟩⟩
  · rename_i hany
    exact ⟨rfl, Or.inr ⟨eq_false_of_ne_true hany, rfl⟩⟩

/-- Before the first pass over a program. -/
def start (p : Program) (policy : BodyPolicy) : Passes :=
  ⟨0, p.compiler policy, p.statesOf fun _ ↦ .pending, []⟩

/-- `resolve_cases` for the compiler that starts on a program. -/
theorem resolve_start_cases (p : Program) (policy : BodyPolicy) (maxPasses : Nat) :
    let q := run maxPasses (start p policy)
    let result := (p.compiler policy).resolve maxPasses
    result.compiler = q.compiler ∧
      ((anyPending q.states = true ∧
          result.report = .error (stuckError q.compiler q.states q.count)) ∨
        (anyPending q.states = false ∧ result.report =
          .ok ⟨q.count, q.states.map fun (key, state) ↦ ⟨key.display, outcome state⟩⟩)) :=
  resolve_cases (p.compiler policy) maxPasses rfl

/-- From the start, all passes allowed lead to the states after them. -/
theorem reached_start (hp : p.Closed) (policy : BodyPolicy) (maxPasses : Nat) :
    ∃ f, Reached p policy f (run maxPasses (start p policy)) ∧
      ∀ x ∈ p.rules, p.StateAfter policy maxPasses x (f x) := by
  have hstart : Reached p policy (fun _ ↦ .pending) (start p policy) :=
    ⟨⟨Compiler.worksOn_compiler p policy, rfl, fun s ↦ iff_of_false nofun (by simp), fun s reason ↦
        iff_of_false nofun (by simp)⟩,
      fun x hx ↦ stateAfter_zero (rule?_of_mem hp hx), Or.inl rfl⟩
  obtain ⟨f, hreached, hall⟩ := reached_run hp maxPasses hstart
  refine ⟨f, hreached, fun x hx ↦ ?_⟩
  have hafter : p.StateAfter policy (0 + maxPasses) x (f x) := hall x hx
  rwa [Nat.zero_add] at hafter

/-- What resolution reports are the states after all passes allowed. -/
theorem reached_resolve (hp : p.Closed) (policy : BodyPolicy) (maxPasses : Nat) :
    ∃ f q, Reached p policy f q ∧ (∀ x ∈ p.rules, p.StateAfter policy maxPasses x (f x)) ∧
      ((p.compiler policy).resolve maxPasses).compiler = q.compiler ∧
      (((∃ x ∈ p.rules, f x = .pending) ∧
          ∃ e, ((p.compiler policy).resolve maxPasses).report = .error e) ∨
        ((∀ x ∈ p.rules, f x ≠ .pending) ∧
          ((p.compiler policy).resolve maxPasses).report =
            .ok ⟨q.count, p.rules.map fun x ↦ ⟨x.key.display, outcome (f x)⟩⟩)) := by
  obtain ⟨f, hreached, hall⟩ := reached_start hp policy maxPasses
  obtain ⟨hcompiler, hreport⟩ := resolve_start_cases p policy maxPasses
  refine ⟨f, _, hreached, hall, hcompiler, hreport.imp ?_ ?_⟩
  · rintro ⟨hany, herror⟩
    rw [hreached.tracks.states] at hany
    exact ⟨anyPending_statesOf.mp hany, _, herror⟩
  · rintro ⟨hany, hok⟩
    rw [hreached.tracks.states] at hany hok
    exact ⟨anyPending_statesOf_eq_false.mp hany, hok.trans (by simp [statesOf])⟩

/-- If no rule is pending, the number of passes is the greatest height, or one. -/
theorem isGreatest_count (hp : p.Closed) {q : Passes} (h : Reached p policy f q)
    (hsettled : ∀ x ∈ p.rules, f x ≠ .pending) (hr : r ∈ p.rules) :
    IsGreatest (insert 1 {n | ∃ x ∈ p.rules, p.Height policy x.key n}) q.count := by
  have hpos : 1 ≤ q.count := (h.after r hr).one_le (hsettled r hr) (rule?_of_mem hp hr)
  constructor
  · obtain hzero | ⟨x, hx, hpending⟩ := h.needed
    · omega
    · rcases Nat.lt_or_ge q.count 2 with hlt | hge
      · exact Or.inl (by omega)
      · -- The rule for which the last pass was needed has its number as height.
        obtain ⟨k, hk⟩ : ∃ k, q.count = k + 1 := ⟨q.count - 1, by omega⟩
        have hafter := h.after x hx
        rw [hk] at hpending hafter ⊢
        exact Or.inr ⟨x, hx, hpending.height_eq (by omega) hafter (hsettled x hx)⟩
  · rintro n (rfl | ⟨x, hx, hheight⟩)
    · exact hpos
    · exact (h.after x hx).height_le (hsettled x hx) (rule?_of_mem hp hx) hheight

end Resolution

namespace Program

variable {p : Program} {policy : BodyPolicy} {r : Rule} {n : Nat} {state : RuleState}

/-- What a report says of a rule: it is compiled in the pass that is its height, or it is faulty and
fails with the error for its first goal of a wrong arity. -/
def Reported (p : Program) (policy : BodyPolicy) (r : Rule) (entry : RuleReport) : Prop :=
  entry.rule = r.key.display ∧
    (¬ p.Faulty policy r → ∃ n, p.Height policy r.key n ∧ entry.outcome = .compiled n) ∧
    (p.Faulty policy r → ∃ g, p.FirstFault policy r g ∧
      entry.outcome = .failed (p.arityFault g).message)

/-- A rule that is reported as compiled has the height that is reported. -/
theorem Reported.height {entry : RuleReport} (h : p.Reported policy r entry)
    (hcompiled : entry.outcome = .compiled n) : p.Height policy r.key n := by
  obtain ⟨-, hheight, hfailed⟩ := h
  by_cases hfaulty : p.Faulty policy r
  · obtain ⟨g, -, houtcome⟩ := hfailed hfaulty
    rw [hcompiled] at houtcome
    cases houtcome
  · obtain ⟨m, hm, houtcome⟩ := hheight hfaulty
    rw [hcompiled] at houtcome
    cases houtcome
    exact hm

/-- A rule whose state is settled is reported as it should be. -/
theorem reported_outcome (hrule : p.rule? r.key = some r) (h : p.StateAfter policy n r state)
    (hne : state ≠ .pending) :
    p.Reported policy r ⟨r.key.display, Resolution.outcome state⟩ := by
  refine ⟨rfl, fun hfaulty ↦ ?_, fun hfaulty ↦ ?_⟩
  · cases h with
    | compiled _ hheight => exact ⟨_, hheight, rfl⟩
    | failed _ hfault => exact absurd hfault.faulty hfaulty
    | pending _ _ => exact absurd rfl hne
  · cases h with
    | compiled _ hheight => exact absurd hfaulty (hheight.not_faulty hrule)
    | failed _ hfault => exact ⟨_, hfault, rfl⟩
    | pending _ _ => exact absurd rfl hne

/-- **Resolution computes levels.** Take a collected program and allow at least one pass. Resolution
succeeds exactly if every rule that is not faulty has a height, and no greater one than the number of
passes allowed. It then reports every rule in order of declaration, compiled in the pass that is its
height or failed if it is faulty, and the greatest height as the number of passes; the cache holds the
rules that are not faulty. A rule has no height exactly if it reaches itself or another cycle, a faulty
rule, or a relation that is not defined. -/
theorem resolve_computes_levels (hp : p.Collected) (policy : BodyPolicy) {maxPasses : Nat}
    (hmax : 1 ≤ maxPasses) {result : Resolution.Result}
    (hresult : result = (p.compiler policy).resolve maxPasses) :
    ((∃ report, result.report = .ok report) ↔
        ∀ r ∈ p.rules, ¬ p.Faulty policy r → ∃ n ≤ maxPasses, p.Height policy r.key n) ∧
      (∀ report, result.report = .ok report →
        List.Forall₂ (p.Reported policy) p.rules report.rules ∧
          (p.rules = [] → report.passes = 0) ∧
          (p.rules ≠ [] →
            IsGreatest (insert 1 {n | ∃ r ∈ p.rules, p.Height policy r.key n}) report.passes) ∧
          ∀ r ∈ p.rules, result.compiler.isCompiled r.key = true ↔ ¬ p.Faulty policy r) ∧
      ∀ r ∈ p.rules, (∃ n, p.Height policy r.key n) ↔
        ∀ s, Relation.ReflTransGen (p.Refers policy) r.key s → ¬ p.Blocked policy s := by
  have hclosed := hp.closed
  obtain ⟨f, q, hreached, hall, hcompiler, hreport⟩ :=
    Resolution.reached_resolve hclosed policy maxPasses
  rw [← hresult] at hcompiler hreport
  -- Resolution succeeds exactly if no rule is left pending.
  have hsettled : (∃ report, result.report = .ok report) ↔ ∀ x ∈ p.rules, f x ≠ .pending := by
    obtain ⟨⟨x, hx, hpending⟩, e, herror⟩ | ⟨hne, hok⟩ := hreport
    · rw [herror]
      exact iff_of_false (fun ⟨_, h⟩ ↦ nomatch h) fun h ↦ h x hx hpending
    · exact iff_of_true ⟨_, hok⟩ hne
  refine ⟨hsettled.trans (forall₂_congr fun x hx ↦ (hall x hx).ne_pending_iff hmax),
    fun report hok ↦ ?_, fun r hr ↦ exists_height_iff ⟨r, rule?_of_mem hclosed hr⟩⟩
  have hne := hsettled.mp ⟨report, hok⟩
  obtain ⟨⟨x, hx, hpending⟩, -⟩ | ⟨-, heq⟩ := hreport
  · exact absurd hpending (hne x hx)
  obtain rfl := Except.ok.inj (hok.symm.trans heq)
  refine ⟨?_, fun hnil ↦ ?_, fun hrules ↦ ?_, fun r hr ↦ ?_⟩
  · exact List.forall₂_map_right_iff.mpr (List.forall₂_same.mpr fun r hr ↦
      reported_outcome (rule?_of_mem hclosed hr) (hall r hr) (hne r hr))
  · obtain hzero | ⟨x, hx, -⟩ := hreached.needed
    · exact hzero
    · rw [hnil] at hx
      cases hx
  · obtain ⟨r, hr⟩ := List.exists_mem_of_ne_nil _ hrules
    exact Resolution.isGreatest_count hclosed hreached hne hr
  · have hrule := rule?_of_mem hclosed hr
    rw [hcompiler, hreached.tracks.cache, ← (hall r hr).exists_compiled_iff (hne r hr) hrule, hrule]
    simp

/-- A program with a rule on facts, a rule on that rule, and a rule that uses `edge` with one argument
only. -/
def hopProgram : Program where
  symbols := [⟨"edge", 2⟩, .constant "a", .constant "b"]
  vars := ["X", "Y", "Z"]
  occurrences :=
    [(⟨"edge", 2⟩, ["a", "b"]), (⟨"far", 2⟩, ["X", "Y"]), (⟨"hop", 2⟩, ["X", "Z"]),
      (⟨"edge", 2⟩, ["Z", "Y"]), (⟨"hop", 2⟩, ["X", "Y"]), (⟨"edge", 2⟩, ["X", "Y"]),
      (⟨"odd", 1⟩, ["X"]), (⟨"hop", 2⟩, ["X", "X"]), (⟨"edge", 1⟩, ["X"])]
  facts := [⟨"edge", ["a", "b"]⟩]
  relations := [⟨"edge", 2⟩]
  rules :=
    [⟨"far", [.var "X", .var "Y"], [⟨"hop", [.var "X", .var "Z"]⟩, ⟨"edge", [.var "Z", .var "Y"]⟩]⟩,
      ⟨"hop", [.var "X", .var "Y"], [⟨"edge", [.var "X", .var "Y"]⟩]⟩,
      ⟨"odd", [.var "X"], [⟨"hop", [.var "X", .var "X"]⟩, ⟨"edge", [.var "X"]⟩]⟩]

theorem parse_hopProgram :
    Program.parse ("edge(a, b). far(X, Y) :- hop(X, Z), edge(Z, Y). hop(X, Y) :- edge(X, Y). " ++
      "odd(X) :- hop(X, X), edge(X).") = .ok ⟨hopProgram, 4, 0⟩ := by
  decide +kernel

/-- Two passes are enough, and `far` has height two although it is declared first. -/
theorem resolve_computes_levels_hop :
    ((hopProgram.compiler .joinAll).resolve 2).report =
        .ok ⟨2, [⟨"far/2", .compiled 2⟩, ⟨"hop/2", .compiled 1⟩,
          ⟨"odd/1", .failed "Arity mismatch: edge/1 used, but edge is defined with arity [2]"⟩]⟩ ∧
      hopProgram.Height .joinAll ⟨"far", 2⟩ 2 ∧ hopProgram.Height .joinAll ⟨"hop", 2⟩ 1 := by
  have hreport : ((hopProgram.compiler .joinAll).resolve 2).report =
      .ok ⟨2, [⟨"far/2", .compiled 2⟩, ⟨"hop/2", .compiled 1⟩,
        ⟨"odd/1", .failed "Arity mismatch: edge/1 used, but edge is defined with arity [2]"⟩]⟩ := by
    decide +kernel
  obtain ⟨hrules, -⟩ := (resolve_computes_levels (collected_of_parse parse_hopProgram) .joinAll
    (by decide : 1 ≤ 2) rfl).2.1 _ hreport
  obtain ⟨hfar, hrest⟩ := List.forall₂_cons.mp hrules
  obtain ⟨hhop, -⟩ := List.forall₂_cons.mp hrest
  exact ⟨hreport, hfar.height rfl, hhop.height rfl⟩

end Program

end HornQuery
