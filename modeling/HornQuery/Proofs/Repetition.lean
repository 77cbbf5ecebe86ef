import Mathlib
import HornQuery.Proofs.Diagnosis

/-!
# Resolving again

A compiler remembers fragments and failures, and one that has been used before starts a resolution with
those of its history. Nothing of this shows in the result (`Program.resolve_forgets_history`).

A pass judges rules by their states, never by what the compiler remembers, and compiling a rule whose
goals are ready succeeds with any compiler that works for the program (`Serves.compileRule_isOk`). So the
states after a pass are a function of the states before it (`states_pass`), and two resolutions of one
program go through the same states. What a pass does to the compiler is said once (`Works`): it records
failures of rules, and compiles rules that are not faulty. After a success all of those are in the cache,
hence resolving again finds each of them there and opens no scope.
-/

namespace HornQuery

namespace Resolution

open Program

variable {p : Program} {policy : BodyPolicy} {c c' : Compiler} {r : Rule}
  {states before : RuleStates}

/-! ### Compilers with a history -/

theorem serves_compiler (p : Program) (policy : BodyPolicy) : Serves p policy (p.compiler policy) where
  toWorksOn := Compiler.worksOn_compiler p policy
  cache _ h := absurd h Bool.false_ne_true
  failures := nofun

theorem Serves.openScope (h : Serves p policy c) : Serves p policy c.openScope.2 :=
  ⟨h.toWorksOn.of_sameTask ⟨rfl, rfl, rfl⟩, h.cache, h.failures⟩

/-- Recording the failure of a rule of the program keeps a compiler at work for it. -/
theorem Serves.markFailed (h : Serves p policy c) (hr : r ∈ p.rules) (reason : String) :
    Serves p policy (c.markFailed r.key reason) := by
  refine ⟨h.toWorksOn.of_sameTask (c.sameTask_markFailed _ _), h.cache, fun s reason' hs ↦ ?_⟩
  by_cases hkey : s = r.key
  · rw [hkey]
    exact mem_keys_iff.mp (List.mem_map_of_mem hr)
  · have hbeq : (s == r.key) = false := beq_eq_false_iff_ne.mpr hkey
    rw [Compiler.markFailed, List.lookup_cons, hbeq] at hs
    exact h.failures s reason' hs

/-- Compiling a rule adds nothing to the cache but the rule itself. -/
theorem isCompiled_compileRule {s : Symbol} (hs : (c.compileRule r).1.isCompiled s = true) :
    c.isCompiled s = true ∨ s = r.key := by
  obtain ⟨_, -, heq⟩ | ⟨-, scope, -, heq⟩ | ⟨-, _, -, heq⟩ := c.compileRule_cases r
  · rw [heq] at hs
    exact Or.inl hs
  · rw [heq, Compiler.isCompiled, Compiler.fragment?, lookup_append_singleton] at hs
    by_cases hkey : s = r.key
    · exact Or.inr hkey
    · rw [if_neg hkey, Option.or_none] at hs
      exact Or.inl hs
  · rw [heq] at hs
    exact Or.inl hs

/-- Compiling such a rule does, too, whether it succeeds or not. -/
theorem Serves.compileRule (h : Serves p policy c) (hr : r ∈ p.rules) :
    Serves p policy (c.compileRule r).1 := by
  refine ⟨h.toWorksOn.of_sameTask (c.sameTask_compileRule r), fun s hs ↦ ?_, ?_⟩
  · obtain hs | rfl := isCompiled_compileRule hs
    · exact h.cache s hs
    · exact mem_keys_iff.mp (List.mem_map_of_mem hr)
  · obtain ⟨_, -, heq⟩ | ⟨-, _, -, heq⟩ | ⟨-, _, -, heq⟩ := c.compileRule_cases r <;> rw [heq] <;>
      exact h.failures

/-- Compiling a rule changes no fragment that is in the cache. -/
theorem fragment?_compileRule {s : Symbol} {fragment : Fragment}
    (h : c.fragment? s = some fragment) : (c.compileRule r).1.fragment? s = some fragment := by
  obtain ⟨_, -, heq⟩ | ⟨-, _, -, heq⟩ | ⟨-, _, -, heq⟩ := c.compileRule_cases r <;> rw [heq]
  · exact h
  · rw [Compiler.fragment?, lookup_append_singleton]
    exact Option.or_eq_some_iff.mpr (Or.inl h)
  · exact h

/-- Everything in the first cache is in the second one, and is the same there. -/
def CacheKept (c c' : Compiler) : Prop :=
  ∀ s fragment, c.fragment? s = some fragment → c'.fragment? s = some fragment

theorem CacheKept.isCompiled (h : CacheKept c c') {s : Symbol} (hs : c.isCompiled s = true) :
    c'.isCompiled s = true := by
  obtain ⟨fragment, hfragment⟩ := Option.isSome_iff_exists.mp hs
  exact Option.isSome_iff_exists.mpr ⟨fragment, h s fragment hfragment⟩

/-- Resolution removes nothing from the cache and changes nothing in it. -/
theorem cacheKept_resolve (c : Compiler) (maxPasses : Nat) :
    CacheKept c (c.resolve maxPasses).compiler :=
  Compiler.resolve_induction (P := CacheKept c)
    (fun _ _ _ h s fragment hs ↦ fragment?_compileRule (h s fragment hs))
    (fun _ _ _ h ↦ h) (fun _ _ h ↦ h) maxPasses

/-! ### What an attempt does -/

/-- Every rule whose state is compiled is in the cache. -/
def Covers (c : Compiler) (states : RuleStates) : Prop :=
  ∀ s n, states.lookup s = some (.compiled n) → c.isCompiled s = true

/-- States that a cache covers are covered by every larger one. -/
theorem Covers.mono (h : Covers c states) (hkept : CacheKept c c') : Covers c' states :=
  fun s n hs ↦ hkept.isCompiled (h s n hs)

/-- Setting a state does not add any: a key without a state remains without one. -/
theorem lookup_setState (states : RuleStates) (key s : Symbol) (state : RuleState) :
    (setState states key state).lookup s =
      if s = key then (states.lookup s).map fun _ ↦ state else states.lookup s := by
  induction states with
  | nil => simp [setState]
  | cons entry states ih =>
    obtain ⟨k, old⟩ := entry
    rw [setState] at ih ⊢
    by_cases hs : s = k
    · by_cases hk : k = key <;> simp [hs, hk]
    · have hbeq : (s == k) = false := beq_eq_false_iff_ne.mpr hs
      by_cases hk : k = key
      · subst hk
        simp [List.lookup_cons, hbeq, hs, ih]
      · simp [List.lookup_cons, hbeq, hk, ih]

/-- A state that is set to compiled has to be covered itself. -/
theorem Covers.setState (h : Covers c states) {key : Symbol} {state : RuleState}
    (hkey : ∀ n, state = .compiled n → c.isCompiled key = true) :
    Covers c (setState states key state) := by
  intro s n hs
  rw [lookup_setState] at hs
  split_ifs at hs with heq
  · obtain ⟨_, -, hstate⟩ := Option.map_eq_some_iff.mp hs
    rw [heq]
    exact hkey n hstate
  · exact h s n hs

/-- A relation is ready if its rule is compiled, or if it has facts and no rule. -/
theorem classify_ready_iff {s : Symbol} : classify p states s = .ready ↔
    (∃ n, states.lookup s = some (.compiled n)) ∨
      (states.lookup s = none ∧ p.hasFacts s = true) := by
  cases hlookup : states.lookup s with
  | none =>
    rw [classify_of_lookup_eq_none hlookup]
    split_ifs <;> simp [*]
  | some state => cases state <;> simp [classify, hlookup]

/-- Goals that are ready together are ready one by one. -/
theorem classify_of_ready (hkeyed : Keyed p before) {goals : List Goal}
    (hready : readiness p before goals = .ready) {g : Goal} (hg : g ∈ goals) :
    classify p before g.symbol = .ready := by
  obtain ⟨state, rfl⟩ := hkeyed
  obtain ⟨_, _, _, -, -, -, hread⟩ | ⟨-, -, hread⟩ | ⟨hall, -⟩ :=
    readiness_cases p (fun r ↦ state r.key) goals
  · cases hread.symm.trans hready
  · cases hread.symm.trans hready
  · exact hall g hg

/-- Goals that are ready have no wrong arities among them. -/
theorem not_faulty_of_ready (hkeyed : Keyed p before)
    (hready : readiness p before (policy.select r.body) = .ready) : ¬ p.Faulty policy r := by
  rintro ⟨g, hg, hwrong⟩
  have hclass := classify_of_ready hkeyed hready hg
  obtain ⟨state, rfl⟩ := hkeyed
  cases hclass.symm.trans (classify_eq_wrongArity_iff.mpr ⟨hwrong, rfl⟩)

/-- A rule whose goals are ready compiles, whatever else the compiler has done before. -/
theorem Serves.compileRule_isOk (hp : p.Closed) (h : Serves p policy c) (hkeyed : Keyed p before)
    (hcovers : Covers c before) (hr : r ∈ p.rules)
    (hready : readiness p before (policy.select r.body) = .ready) :
    ∃ c' fragment, c.compileRule r = (c', .ok fragment) ∧ c'.isCompiled r.key = true := by
  have hadmits : ∀ g ∈ c.policy.select r.body, c.openScope.2.Admits g := by
    rw [h.policy]
    intro g hg
    obtain ⟨n, hstate⟩ | ⟨hnone, hfacts⟩ :=
      classify_ready_iff.mp (classify_of_ready hkeyed hready hg)
    · refine h.openScope.admits hp hr hg (fun _ _ ↦ hcovers _ n hstate) fun hrule ↦ ?_
      obtain ⟨x, hx, hkey⟩ := hkeyed.exists_rule hstate
      exact absurd ⟨x, hx, hkey⟩ (rule?_eq_none_iff.mp hrule)
    · refine h.openScope.admits hp hr hg (fun x hx ↦ ?_) fun _ ↦ hfacts
      obtain ⟨state, hstate, -⟩ := hkeyed.exists_lookup (mem_of_rule? hx)
      rw [key_of_rule? hx, hnone] at hstate
      cases hstate
  obtain ⟨fragment, hfragment, heq⟩ | ⟨-, scope, -, heq⟩ | ⟨-, e, herror, -⟩ := c.compileRule_cases r
  · exact ⟨c, fragment, heq, Option.isSome_iff_exists.mpr ⟨fragment, hfragment⟩⟩
  · refine ⟨_, _, heq, ?_⟩
    rw [Compiler.isCompiled, Compiler.fragment?, lookup_append_singleton, if_pos rfl]
    cases List.lookup r.key c.fragments <;> rfl
  · obtain ⟨scope, hscope⟩ := Compiler.addGoals_isOk_iff.mpr hadmits
    cases herror.symm.trans hscope

/-- What a resolution does to its compiler: it records that a rule failed, or compiles a rule that is
not faulty. -/
inductive Works (p : Program) (policy : BodyPolicy) : Compiler → Compiler → Prop where
  | fail {r : Rule} (hr : r ∈ p.rules) (c : Compiler) (reason : String) :
    Works p policy c (c.markFailed r.key reason)
  | compile {r : Rule} (hr : r ∈ p.rules) (hfaulty : ¬ p.Faulty policy r) (c : Compiler) :
    Works p policy c (c.compileRule r).1

/-- How a pass settles a rule, by the states before it. -/
def verdict (p : Program) (policy : BodyPolicy) (number : Nat) (before : RuleStates) (r : Rule) :
    Option RuleState :=
  if before.lookup r.key = some .pending then
    match readiness p before (policy.select r.body) with
    | .mismatch used defined => some (.failed (CompileError.arityMismatch used defined).message)
    | .waiting => none
    | .ready => some (.compiled number)
  else none

/-- States with a verdict on a rule entered, if there is one. -/
def settle (states : RuleStates) (key : Symbol) : Option RuleState → RuleStates
  | some state => setState states key state
  | none => states

/-- The compiler works for the program and has in its cache what the states before a pass and those
that the pass has led to so far say. -/
structure Fit (p : Program) (policy : BodyPolicy) (before : RuleStates) (q : Pass) : Prop where
  serves : Serves p policy q.compiler
  before : Covers q.compiler before
  states : Covers q.compiler q.states

/-- An attempt enters the verdict on its rule, which does not depend on the compiler. -/
theorem attempt_verdict (hp : p.Closed) (number : Nat) (hkeyed : Keyed p before) (hr : r ∈ p.rules)
    {q : Pass} (hq : Fit p policy before q) :
    (attempt number before q r).states =
        settle q.states r.key (verdict p policy number before r) ∧
      (attempt number before q r).progress =
        (q.progress || (verdict p policy number before r).isSome) ∧
      Relation.ReflGen (Works p policy) q.compiler (attempt number before q r).compiler ∧
      Covers (attempt number before q r).compiler (attempt number before q r).states := by
  unfold attempt verdict
  rw [hq.serves.program, hq.serves.policy]
  split_ifs
  · cases hread : readiness p before (policy.select r.body) with
    | mismatch used defined =>
      refine ⟨rfl, (Bool.or_true _).symm, .single (.fail hr _ _), ?_⟩
      exact Covers.setState (c := q.compiler) hq.states (by rintro n ⟨⟩)
    | waiting => exact ⟨rfl, (Bool.or_false _).symm, .refl, hq.states⟩
    | ready =>
      obtain ⟨c', fragment, heq, hcompiled⟩ :=
        hq.serves.compileRule_isOk hp hkeyed hq.before hr hread
      have hwork := Works.compile hr (not_faulty_of_ready hkeyed hread) q.compiler
      have hkept : CacheKept q.compiler (q.compiler.compileRule r).1 :=
        fun _ _ ↦ fragment?_compileRule
      rw [heq] at hwork hkept
      simp only [heq]
      refine ⟨rfl, (Bool.or_true _).symm, .single hwork, ?_⟩
      exact (hq.states.mono hkept).setState fun _ _ ↦ hcompiled
  · exact ⟨rfl, (Bool.or_false _).symm, .refl, hq.states⟩

/-! ### What passes do -/

/-- Whatever a resolution does keeps a compiler at work for the program. -/
theorem Works.serves (h : Works p policy c c') (hc : Serves p policy c) : Serves p policy c' := by
  obtain ⟨hr, _, reason⟩ | ⟨hr, -, _⟩ := h
  · exact hc.markFailed hr reason
  · exact hc.compileRule hr

/-- And keeps its cache. -/
theorem Works.cacheKept (h : Works p policy c c') : CacheKept c c' := by
  obtain ⟨-, _, _⟩ | ⟨-, -, _⟩ := h
  · exact fun _ _ h ↦ h
  · exact fun _ _ ↦ fragment?_compileRule

/-- What a resolution does to its compiler in the course of time. -/
abbrev Worked (p : Program) (policy : BodyPolicy) : Compiler → Compiler → Prop :=
  Relation.ReflTransGen (Works p policy)

theorem Worked.serves (h : Worked p policy c c') (hc : Serves p policy c) : Serves p policy c' :=
  Relation.ReflTransGen.head_induction_on h id (fun hwork _ ih hc ↦ ih (hwork.serves hc)) hc

theorem Worked.cacheKept (h : Worked p policy c c') : CacheKept c c' := by
  induction h with
  | refl => exact fun _ _ h ↦ h
  | tail _ hwork ih => exact fun s fragment hs ↦ hwork.cacheKept s fragment (ih s fragment hs)

/-- States with the verdicts on rules entered, by the states before a pass. -/
def settleAll (p : Program) (policy : BodyPolicy) (number : Nat) (before : RuleStates)
    (rules : List Rule) (states : RuleStates) : RuleStates :=
  rules.foldl (fun states r ↦ settle states r.key (verdict p policy number before r)) states

/-- Attempts enter the verdicts on their rules. -/
theorem foldl_attempt_verdict (hp : p.Closed) (number : Nat) (hkeyed : Keyed p before)
    {rules : List Rule} (hrules : ∀ r ∈ rules, r ∈ p.rules) {q : Pass} (hq : Fit p policy before q) :
    (rules.foldl (attempt number before) q).states =
        settleAll p policy number before rules q.states ∧
      (rules.foldl (attempt number before) q).progress =
        (q.progress || rules.any fun r ↦ (verdict p policy number before r).isSome) ∧
      Worked p policy q.compiler (rules.foldl (attempt number before) q).compiler ∧
      Covers (rules.foldl (attempt number before) q).compiler
        (rules.foldl (attempt number before) q).states := by
  induction rules generalizing q with
  | nil => exact ⟨rfl, (Bool.or_false _).symm, .refl, hq.states⟩
  | cons r rules ih =>
    obtain ⟨hr, hrules⟩ := List.forall_mem_cons.mp hrules
    obtain ⟨hstates, hprogress, hwork, hcovers⟩ := attempt_verdict hp number hkeyed hr hq
    have hworked : Worked p policy q.compiler (attempt number before q r).compiler :=
      hwork.to_reflTransGen
    have hfit : Fit p policy before (attempt number before q r) :=
      ⟨hworked.serves hq.serves, hq.before.mono hworked.cacheKept, hcovers⟩
    obtain ⟨hstates', hprogress', hworked', hcovers'⟩ := ih hrules hfit
    refine ⟨?_, ?_, hworked.trans hworked', hcovers'⟩
    · rw [List.foldl_cons, hstates', hstates]
      rfl
    · rw [List.foldl_cons, hprogress', hprogress, List.any_cons, Bool.or_assoc]

/-- The compiler has in its cache what the states say, and those are states of the program's rules. -/
structure Passes.Fit (p : Program) (policy : BodyPolicy) (q : Passes) : Prop where
  serves : Serves p policy q.compiler
  keyed : Keyed p q.states
  covers : Covers q.compiler q.states

/-- A pass changes the states in a way that does not depend on the compiler. -/
theorem states_pass (hp : p.Closed) (number : Nat) {q : Passes} (hq : q.Fit p policy) :
    (pass number q.compiler q.states).states =
        settleAll p policy number q.states p.rules q.states ∧
      (pass number q.compiler q.states).progress =
        (p.rules.any fun r ↦ (verdict p policy number q.states r).isSome) ∧
      Worked p policy q.compiler (pass number q.compiler q.states).compiler ∧
      Covers (pass number q.compiler q.states).compiler (pass number q.compiler q.states).states := by
  have hpass := foldl_attempt_verdict hp number hq.keyed (fun _ hr ↦ hr)
    (q := { compiler := q.compiler, states := q.states }) ⟨hq.serves, hq.covers, hq.covers⟩
  rw [pass, hq.serves.program]
  simpa using hpass

/-- Another pass keeps passes fit, and does nothing but work. -/
theorem Passes.Fit.next (hp : p.Closed) {q : Passes} (hq : q.Fit p policy) :
    q.next.Fit p policy ∧ Worked p policy q.compiler q.next.compiler := by
  obtain ⟨-, -, hworked, hcovers⟩ := states_pass hp (q.count + 1) hq
  refine ⟨⟨hworked.serves hq.serves, ?_, hcovers⟩, hworked⟩
  exact keyed_foldl_attempt (q := { compiler := q.compiler, states := q.states }) _ hq.keyed

/-- **The states that passes go through do not depend on the compiler.** -/
theorem run_agrees (hp : p.Closed) (left : Nat) {q q' : Passes} (hq : q.Fit p policy)
    (hq' : q'.Fit p policy) (hcount : q.count = q'.count) (hstates : q.states = q'.states) :
    (run left q).count = (run left q').count ∧ (run left q).states = (run left q').states := by
  induction left generalizing q q' with
  | zero => exact ⟨hcount, hstates⟩
  | succ left ih =>
    obtain ⟨hnext, hprogress, -, -⟩ := states_pass hp (q.count + 1) hq
    obtain ⟨hnext', hprogress', -, -⟩ := states_pass hp (q'.count + 1) hq'
    have hcounts : q.next.count = q'.next.count := congrArg (· + 1) hcount
    have hsame : q.next.states = q'.next.states :=
      hnext.trans (by rw [hcount, hstates]; exact hnext'.symm)
    rw [run_succ, run_succ, hprogress, hprogress', hcount, hstates]
    split_ifs
    · exact ih (hq.next hp).1 (hq'.next hp).1 hcounts hsame
    · exact ⟨hcounts, hsame⟩
    · exact ⟨hcount, hstates⟩

/-- A run of passes does nothing but work, by induction on the passes that are left. -/
theorem worked_run (hp : p.Closed) (left : Nat) {q : Passes} (hq : q.Fit p policy) :
    (run left q).Fit p policy ∧ Worked p policy q.compiler (run left q).compiler := by
  induction left generalizing q with
  | zero => exact ⟨hq, .refl⟩
  | succ left ih =>
    obtain ⟨hnext, hworked⟩ := hq.next hp
    rw [run_succ]
    split_ifs
    · obtain ⟨hfit, hrest⟩ := ih hnext
      exact ⟨hfit, hworked.trans hrest⟩
    · exact ⟨hnext, hworked⟩
    · exact ⟨hq, .refl⟩

/-- The diagnosis of rules that are left over is about their states, not about the compiler. -/
theorem stuckError_congr (hprogram : c.program = c'.program) (hpolicy : c.policy = c'.policy)
    (states : RuleStates) (passes : Nat) :
    stuckError c states passes = stuckError c' states passes := by
  simp only [stuckError, stuckRules, hopeless?, hprogram, hpolicy]

/-! ### Resolution with a history -/

theorem Serves.fit (h : Serves p policy c) :
    (⟨0, c, c.program.statesOf fun _ ↦ .pending, []⟩ : Passes).Fit p policy := by
  rw [h.program]
  refine ⟨h, keyed_pending p, fun s n hs ↦ ?_⟩
  rw [lookup_statesOf, Option.map_eq_some_iff] at hs
  obtain ⟨_, -, ⟨⟩⟩ := hs

/-- What a resolution reports depends on the program and the policy alone. -/
theorem report_eq_of_serves (hp : p.Closed) (h : Serves p policy c) (h' : Serves p policy c')
    (maxPasses : Nat) : (c.resolve maxPasses).report = (c'.resolve maxPasses).report := by
  have hstart : c.program.statesOf (fun _ ↦ .pending) = c'.program.statesOf fun _ ↦ .pending := by
    rw [h.program, h'.program]
  obtain ⟨hcount, hstates⟩ := run_agrees hp maxPasses h.fit h'.fit rfl hstart
  have hserves := ((worked_run hp maxPasses h.fit).1).serves
  have hserves' := ((worked_run hp maxPasses h'.fit).1).serves
  obtain ⟨-, ⟨hany, hreport⟩ | ⟨hnone, hreport⟩⟩ := resolve_cases c maxPasses rfl <;>
    obtain ⟨-, ⟨hany', hreport'⟩ | ⟨hnone', hreport'⟩⟩ := resolve_cases c' maxPasses rfl
  · rw [hreport, hreport', hcount, hstates]
    rw [stuckError_congr (hserves.program.trans hserves'.program.symm)
      (hserves.policy.trans hserves'.policy.symm)]
  · rw [hstates, hnone'] at hany
    cases hany
  · rw [hstates, hany'] at hnone
    cases hnone
  · rw [hreport, hreport', hcount, hstates]

/-- So resolution does nothing but work. -/
theorem worked_resolve (hp : p.Closed) (h : Serves p policy c) (maxPasses : Nat) :
    Worked p policy c (c.resolve maxPasses).compiler := by
  rw [(resolve_cases c maxPasses rfl).1]
  exact (worked_run hp maxPasses h.fit).2

/-- All rules are in the cache except those that fail. -/
def Complete (p : Program) (policy : BodyPolicy) (c : Compiler) : Prop :=
  ∀ r ∈ p.rules, ¬ p.Faulty policy r → c.isCompiled r.key = true

theorem Complete.mono (h : Complete p policy c) (hkept : CacheKept c c') : Complete p policy c' :=
  fun r hr hfaulty ↦ hkept.isCompiled (h r hr hfaulty)

/-- A success leaves a complete cache: no rule is pending, and only faulty ones have failed. -/
theorem complete_of_report (hp : p.Closed) (h : Serves p policy c) {maxPasses : Nat}
    {report : ResolutionReport} (hok : (c.resolve maxPasses).report = .ok report) :
    Complete p policy (c.resolve maxPasses).compiler := by
  intro r hr hfaulty
  obtain ⟨f, hreached, -⟩ := reached_start hp policy maxPasses
  obtain ⟨-, hstates⟩ := run_agrees hp maxPasses h.fit (serves_compiler p policy).fit rfl
    (congrArg (Program.statesOf · fun _ ↦ .pending) h.program)
  obtain ⟨hcompiler, ⟨-, herror⟩ | ⟨hnone, -⟩⟩ := resolve_cases c maxPasses rfl
  · cases herror.symm.trans hok
  · have hfinal := hstates.trans hreached.tracks.states
    have hrule := rule?_of_mem hp hr
    rw [hfinal, anyPending_statesOf_eq_false] at hnone
    obtain ⟨n, hn⟩ := ((hreached.after r hr).exists_compiled_iff (hnone r hr) hrule).mpr hfaulty
    rw [hcompiler]
    refine (worked_run hp maxPasses h.fit).1.covers r.key n ?_
    rw [hfinal, lookup_statesOf, hrule, Option.map_some, hn]

/-- With a complete cache there is nothing to compile. -/
theorem Works.of_complete (h : Works p policy c c') (hc : Complete p policy c) :
    c'.scopes = c.scopes ∧ c'.fragments = c.fragments := by
  obtain ⟨-, _, _⟩ | ⟨hr, hfaulty, _⟩ := h
  · exact ⟨rfl, rfl⟩
  · have hcompiled := hc _ hr hfaulty
    rw [Compiler.isCompiled] at hcompiled
    obtain ⟨_, -, heq⟩ | ⟨hnone, -⟩ | ⟨hnone, -⟩ := Compiler.compileRule_cases c _
    · rw [heq]
      exact ⟨rfl, rfl⟩
    · rw [hnone] at hcompiled
      cases hcompiled
    · rw [hnone] at hcompiled
      cases hcompiled

/-- With all rules in the cache but those that fail, work opens no scope and caches nothing: only
failures can still be recorded. -/
theorem Worked.of_complete (h : Worked p policy c c') (hc : Complete p policy c) :
    c'.scopes = c.scopes ∧ c'.fragments = c.fragments := by
  induction h with
  | refl => exact ⟨rfl, rfl⟩
  | tail hworked hwork ih =>
    obtain ⟨hscopes, hfragments⟩ := hwork.of_complete (hc.mono (Worked.cacheKept hworked))
    exact ⟨hscopes.trans ih.1, hfragments.trans ih.2⟩

end Resolution

namespace Compiler

open Resolution

variable {p : Program} {policy : BodyPolicy} {c : Compiler}

/-- A success needs no more passes than it reports. -/
theorem resolve_of_le {maxPasses bound : Nat} {report : ResolutionReport}
    (hok : (c.resolve maxPasses).report = .ok report) (hbound : report.passes ≤ bound) :
    c.resolve bound = c.resolve maxPasses := by
  obtain ⟨-, ⟨-, herror⟩ | ⟨hnone, hreport⟩⟩ := resolve_cases c maxPasses rfl
  · cases herror.symm.trans hok
  · obtain rfl := Except.ok.inj (hok.symm.trans hreport)
    refine resolve_congr (run_eq_run (Or.inr hnone) ?_)
    rw [Nat.zero_add]
    exact hbound

/-- The operation is about rules of the program, where it is about rules. -/
def Operation.Within (p : Program) : Operation → Prop
  | .compileRule r => r ∈ p.rules
  | .markFailed key _ => ∃ r ∈ p.rules, r.key = key
  | _ => True

theorem Operation.Within.own {op : Operation} (h : op.Within p) : op.Own p := by
  cases op with
  | compileRule r => exact h
  | _ => trivial

/-- A compiler stays at work for its program, whatever is asked of it within the program. -/
theorem invariant_serves (hp : p.Closed) :
    Invariant (Operation.Within p) (Serves p policy) fun _ ↦ True where
  resolve _ maxPasses hc := (worked_resolve hp hc maxPasses).serves hc
  compileRule _ _ hr hc := hc.compileRule hr
  markFailed _ _ reason hkey hc := by
    obtain ⟨r, hr, rfl⟩ := hkey
    exact hc.markFailed hr reason
  openScope _ hc := hc.openScope

/-- A history keeps the cache. -/
theorem cacheKept_performAll {ops : List Operation} (hops : ∀ op ∈ ops, op.Own c.program) :
    CacheKept c (c.performAll ops).1 :=
  performAll_induction (P := CacheKept c)
    (fun _ _ _ h s fragment hs ↦ fragment?_compileRule (h s fragment hs))
    (fun _ _ _ h ↦ h) (fun _ h ↦ h) hops fun _ _ h ↦ h

end Compiler

namespace Program

open Resolution Compiler

variable {p : Program} {c : Compiler} {ops : List Operation}

/-- **Resolution does not depend on the compiler's history.** Take a collected program and a compiler
over its own symbols, after any operations: resolutions, successful or not, rules of the program
compiled out of turn or marked as failed, queries and patterns. It reports the same as a fresh compiler,
or fails with the same error, and changes no fragment in the cache. After a success, whatever is done in
between, resolving again reports the same if as many passes are allowed as were made; it opens no scope
and leaves the cache as it is. -/
theorem resolve_forgets_history (hp : p.Collected) (policy : BodyPolicy)
    (hops : ∀ op ∈ ops, op.Within p) (hc : c = ((p.compiler policy).performAll ops).1) (maxPasses : Nat) :
    (c.resolve maxPasses).report = ((p.compiler policy).resolve maxPasses).report ∧
      (∀ s fragment, c.fragment? s = some fragment →
        (c.resolve maxPasses).compiler.fragment? s = some fragment) ∧
      ∀ report, (c.resolve maxPasses).report = .ok report →
        ∀ later : List Operation, (∀ op ∈ later, op.Within p) →
        ∀ c', c' = ((c.resolve maxPasses).compiler.performAll later).1 →
        ∀ bound, report.passes ≤ bound →
          (c'.resolve bound).report = .ok report ∧
            (c'.resolve bound).compiler.scopes = c'.scopes ∧
            (c'.resolve bound).compiler.fragments = c'.fragments := by
  have hclosed := hp.closed
  have hserves : Serves p policy c := hc ▸ ((invariant_serves hclosed).performAll hops (serves_compiler p policy)).1
  refine ⟨report_eq_of_serves hclosed hserves (serves_compiler p policy) maxPasses,
    cacheKept_resolve c maxPasses, ?_⟩
  rintro report hok later hlater c' rfl bound hbound
  have hresolved := (worked_resolve hclosed hserves maxPasses).serves hserves
  have hserves' := ((invariant_serves hclosed).performAll hlater hresolved).1
  have hreport := (report_eq_of_serves hclosed hserves' hserves maxPasses).trans hok
  -- The cache was complete after the success, and it only grows.
  have hcomplete := (complete_of_report hclosed hserves hok).mono
    (cacheKept_performAll fun op hop ↦ hresolved.program.symm ▸ (hlater op hop).own)
  rw [resolve_of_le hreport hbound]
  exact ⟨hreport, (worked_resolve hclosed hserves' maxPasses).of_complete hcomplete⟩

/-- A history of `hopProgram`: a rule is marked as failed, another one is compiled too early, one pass is
not enough, a query has a wrong arity, and a rule is compiled by hand. -/
def hopHistory : List Operation :=
  [.markFailed ⟨"hop", 2⟩ "not wanted",
    .compileRule
      ⟨"far", [.var "X", .var "Y"], [⟨"hop", [.var "X", .var "Z"]⟩, ⟨"edge", [.var "Z", .var "Y"]⟩]⟩,
    .resolve 1,
    .compileQuery ⟨[⟨"edge", [.var "X"]⟩], "edge(X)"⟩,
    .compileRule ⟨"hop", [.var "X", .var "Y"], [⟨"edge", [.var "X", .var "Y"]⟩]⟩]

theorem hopHistory_within : ∀ op ∈ hopHistory, op.Within hopProgram := by
  simp [hopHistory, Operation.Within, hopProgram, Rule.key]

/-- The report of a fresh compiler comes out of a compiler with a history too, and once more from a
compiler that has been asked a query since. -/
theorem resolve_forgets_history_hop :
    ((hopProgram.compiler .joinAll).performAll hopHistory).1.scopes = 3 ∧
      (((hopProgram.compiler .joinAll).performAll hopHistory).1.resolve 2).report =
        .ok ⟨2, [⟨"far/2", .compiled 2⟩, ⟨"hop/2", .compiled 1⟩,
          ⟨"odd/1", .failed "Arity mismatch: edge/1 used, but edge is defined with arity [2]"⟩]⟩ ∧
      ∀ bound, 2 ≤ bound → ∀ c', c' =
        ((((hopProgram.compiler .joinAll).performAll hopHistory).1.resolve 2).compiler.performAll
          [.compileQuery ⟨[⟨"far", [.var "X", .var "Y"]⟩], "far(X, Y)"⟩]).1 →
        (c'.resolve bound).compiler.scopes = c'.scopes := by
  have hhistory := resolve_forgets_history (collected_of_parse parse_hopProgram) .joinAll
    hopHistory_within rfl 2
  have hreport : ((hopProgram.compiler .joinAll).resolve 2).report =
      .ok ⟨2, [⟨"far/2", .compiled 2⟩, ⟨"hop/2", .compiled 1⟩,
        ⟨"odd/1", .failed "Arity mismatch: edge/1 used, but edge is defined with arity [2]"⟩]⟩ := by
    decide +kernel
  refine ⟨by decide +kernel, hhistory.1.trans hreport, fun bound hbound c' hc' ↦ ?_⟩
  exact (hhistory.2.2 _ (hhistory.1.trans hreport) _ (by simp [Operation.Within]) c' hc' bound hbound).2.1

end Program

end HornQuery
