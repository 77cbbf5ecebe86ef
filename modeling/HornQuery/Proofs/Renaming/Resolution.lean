import Mathlib
import HornQuery.Proofs.Renaming.Compilation

/-!
# Resolving programs that correspond

Resolution goes through programs that correspond in step: in every pass the same rules are ready, the
same rules are compiled or fail, and the same rules are left over (`Resolution.run_corresponds`). So
both resolutions end in the same way, with reports that correspond or with errors that do, and both
have logged the same SQL on the way (`Compiler.resolve_corresponds`).
-/

namespace HornQuery

variable {ρ : Renaming} {π π' : BodyPolicy}

/-! ### Errors and reports -/

/-- The errors are of the same kind, with the names changed. -/
inductive Error.Corresponds (ρ : Renaming) : Error → Error → Prop
  | compile {e e' : CompileError} (h : e.Corresponds ρ e') : Corresponds ρ (.compile e) (.compile e')
  | unsupportedArity (fact : Symbol) :
    Corresponds ρ (.unsupportedArity fact) (.unsupportedArity (fact.rename ρ))
  | cascade (rule reference : Symbol) :
    Corresponds ρ (.cascade rule reference) (.cascade (rule.rename ρ) (reference.rename ρ))
  | cycle (passes : Nat) (pending : List Symbol) :
    Corresponds ρ (.cycle passes pending) (.cycle passes (pending.map (Symbol.rename ρ)))
  | missingBinding (key : Placeholder) :
    Corresponds ρ (.missingBinding key) (.missingBinding (key.rename ρ))
  | storage (e : StorageError) : Corresponds ρ (.storage e) (.storage e)

/-- The rules were compiled in the same pass, or failed for reasons that correspond. -/
inductive RuleOutcome.Corresponds (ρ : Renaming) : RuleOutcome → RuleOutcome → Prop
  | compiled (pass : Nat) : Corresponds ρ (.compiled pass) (.compiled pass)
  | failed {reason reason' : String} (h : CorrespondingReasons ρ reason reason') :
    Corresponds ρ (.failed reason) (.failed reason')

/-- The rules have the same name up to renaming, and the same became of them. -/
inductive RuleReport.Corresponds (ρ : Renaming) : RuleReport → RuleReport → Prop
  | mk (key : Symbol) {outcome outcome' : RuleOutcome} (h : outcome.Corresponds ρ outcome') :
    Corresponds ρ ⟨key.display, outcome⟩ ⟨(key.rename ρ).display, outcome'⟩

/-- The same number of passes was made, and the same became of each rule. -/
structure ResolutionReport.Corresponds (ρ : Renaming) (r r' : ResolutionReport) : Prop where
  passes : r'.passes = r.passes
  rules : List.Forall₂ (RuleReport.Corresponds ρ) r.rules r'.rules

/-! ### SQL in the log -/

/-- The SQL that an event shows. -/
def Event.sql? : Event → Option String
  | .ruleSql _ sql => some sql
  | .querySql _ sql => some sql
  | _ => none

/-- All SQL in a log, in order. -/
def sqlTexts (log : List Event) : List String := log.filterMap Event.sql?

@[simp] theorem sqlTexts_append (log log' : List Event) :
    sqlTexts (log ++ log') = sqlTexts log ++ sqlTexts log' := List.filterMap_append

/-- Events that show no SQL contribute none. -/
theorem sqlTexts_map {α : Type} {f : α → Event} (h : ∀ a, (f a).sql? = none) (l : List α) :
    sqlTexts (l.map f) = [] := by
  refine List.filterMap_eq_nil_iff.mpr fun e he ↦ ?_
  obtain ⟨a, -, rfl⟩ := List.mem_map.mp he
  exact h a

/-! ### States -/

/-- The same is known of the rules. -/
inductive RuleState.Corresponds (ρ : Renaming) : RuleState → RuleState → Prop
  | pending : Corresponds ρ .pending .pending
  | compiled (pass : Nat) : Corresponds ρ (.compiled pass) (.compiled pass)
  | failed {reason reason' : String} (h : CorrespondingReasons ρ reason reason') :
    Corresponds ρ (.failed reason) (.failed reason')

/-- A rule is pending in both or in none. -/
theorem RuleState.Corresponds.eq_pending_iff {s s' : RuleState} (h : s.Corresponds ρ s') :
    s' = .pending ↔ s = .pending := by
  cases h <;> simp

/-- Whether goals can be compiled, under other names. -/
def Readiness.rename (ρ : Renaming) : Readiness → Readiness
  | .mismatch used defined => .mismatch (used.rename ρ) defined
  | r => r

namespace Resolution

/-- The same is known of all rules. -/
def CorrespondingStates (ρ : Renaming) (states states' : RuleStates) : Prop :=
  List.Forall₂ (fun e e' ↦ e'.1 = e.1.rename ρ ∧ e.2.Corresponds ρ e'.2) states states'

namespace CorrespondingStates

variable {states states' : RuleStates} (h : CorrespondingStates ρ states states')

include h

/-- The states of rules are found under the new names of their keys. -/
theorem lookup (key : Symbol) :
    Option.Rel (RuleState.Corresponds ρ) (states.lookup key) (states'.lookup (key.rename ρ)) :=
  lookup_rel Symbol.rename_injective h key

/-- In particular a symbol is pending in both or in none. -/
theorem lookup_eq_pending_iff (key : Symbol) :
    states'.lookup (key.rename ρ) = some .pending ↔ states.lookup key = some .pending := by
  have hlookup := h.lookup key
  generalize states.lookup key = s, states'.lookup _ = s' at hlookup
  cases hlookup with
  | none => simp
  | some hstate => simp [hstate.eq_pending_iff]

/-- States that correspond may be set in both. -/
theorem setState {key : Symbol} {state state' : RuleState} (hstate : state.Corresponds ρ state') :
    CorrespondingStates ρ (Resolution.setState states key state)
      (Resolution.setState states' (key.rename ρ) state') := by
  refine List.forall₂_map_left_iff.mpr (List.forall₂_map_right_iff.mpr (h.imp ?_))
  rintro ⟨k, s⟩ ⟨_, s'⟩ ⟨rfl, hs⟩
  simp only [Symbol.rename_inj]
  split
  · exact ⟨rfl, hstate⟩
  · exact ⟨rfl, hs⟩

/-- Something is pending in both or in none. -/
theorem anyPending : Resolution.anyPending states' = Resolution.anyPending states := by
  have hmap : states'.map (fun e ↦ decide (e.2 = .pending)) =
      states.map fun e ↦ decide (e.2 = .pending) :=
    map_eq_of_forall₂ h fun e e' he ↦ by simp only [he.2.eq_pending_iff]
  have hany := congrArg (List.any · id) hmap
  rw [List.any_map, List.any_map] at hany
  exact hany

variable {p p' : Program} (hp : p.Corresponds ρ π π' p')

include hp

/-- What a goal's relation is worth does not depend on names. -/
theorem classify (relation : Symbol) :
    Resolution.classify p' states' (relation.rename ρ) = Resolution.classify p states relation := by
  have hlookup := h.lookup relation
  have hdefined : p'.definedArities (relation.rename ρ).text = p.definedArities relation.text :=
    hp.definedArities relation.text
  rw [Resolution.classify, Resolution.classify]
  generalize states.lookup relation = s, states'.lookup _ = s' at hlookup
  cases hlookup with
  | none => simp only [hp.hasFacts, hdefined]
  | some hstate => cases hstate <;> rfl

/-- Goals are ready in both or in none. A wrong arity is reported of the same goal. -/
theorem readiness (goals : List Goal) :
    Resolution.readiness p' states' (goals.map (Goal.rename ρ)) =
      (Resolution.readiness p states goals).rename ρ := by
  induction goals with
  | nil => rfl
  | cons g goals ih =>
    rw [List.map_cons, Resolution.readiness, Resolution.readiness, Goal.symbol_rename,
      h.classify hp, ih]
    cases Resolution.classify p states g.symbol with
    | ready => rfl
    | wrongArity defined => rfl
    | waiting => cases Resolution.readiness p states goals <;> rfl
    | failedRule => cases Resolution.readiness p states goals <;> rfl
    | undefined => cases Resolution.readiness p states goals <;> rfl

end CorrespondingStates

/-! ### Passes -/

/-- The passes under way have come to the same point. -/
structure Pass.Corresponds (ρ : Renaming) (π π' : BodyPolicy) (p p' : Pass) : Prop where
  compiler : p.compiler.Corresponds ρ π π' p'.compiler
  states : CorrespondingStates ρ p.states p'.states
  progress : p'.progress = p.progress
  sql : sqlTexts p'.log = sqlTexts p.log

/-- A failure in both keeps passes alike. -/
theorem Pass.Corresponds.fail {p p' : Pass} (h : p.Corresponds ρ π π' p') (key : Symbol)
    {e e' : CompileError} (he : e.Corresponds ρ e') :
    (p.fail key e).Corresponds ρ π π' (p'.fail (key.rename ρ) e') := by
  have hreason : CorrespondingReasons ρ e.message e'.message := ⟨e, e', he, rfl, rfl⟩
  refine ⟨h.compiler.markFailed key hreason, h.states.setState (.failed hreason), rfl, ?_⟩
  simp only [Pass.fail, sqlTexts_append, h.sql]
  rfl

/-- And so does a success. -/
theorem Pass.Corresponds.succeed {p p' : Pass} (h : p.Corresponds ρ π π' p') (number : Nat)
    (key : Symbol) {c c' : Compiler} (hc : c.Corresponds ρ π π' c') (fragment : Fragment) :
    (p.succeed number key c fragment).Corresponds ρ π π'
      (p'.succeed number (key.rename ρ) c' (fragment.rename ρ)) := by
  refine ⟨hc, h.states.setState (.compiled number), rfl, ?_⟩
  simp only [Pass.succeed, sqlTexts_append, h.sql, h.compiler.isCompiled, Fragment.sql_rename]
  split <;> rfl

/-- One attempt at rules that correspond goes the same way. -/
theorem attempt_corresponds (number : Nat) {before before' : RuleStates}
    (hbefore : CorrespondingStates ρ before before') {p p' : Pass} (h : p.Corresponds ρ π π' p')
    {r r' : Rule} (hr : r.Corresponds ρ π π' r') :
    (attempt number before p r).Corresponds ρ π π' (attempt number before' p' r') := by
  -- The states before the pass decide, and they correspond as those of the pass do.
  have hready := hbefore.readiness h.compiler.program (π.select r.body)
  rw [← hr.body] at hready
  simp only [attempt, hr.key, hbefore.lookup_eq_pending_iff, h.compiler.policy.1,
    h.compiler.policy.2, hready]
  split
  · cases readiness p.compiler.program before (π.select r.body) with
    | mismatch used defined => exact h.fail r.key (.arityMismatch used defined)
    | waiting => exact h
    | ready =>
      obtain ⟨hcompiler, hresult⟩ := Compiler.compileRule_corresponds h.compiler hr
      simp only [Readiness.rename]
      generalize p.compiler.compileRule r = y, p'.compiler.compileRule r' = y' at hcompiler hresult ⊢
      obtain ⟨c, x⟩ := y
      obtain ⟨c', x'⟩ := y'
      cases hresult with
      | ok hfragment =>
        subst hfragment
        exact h.succeed number r.key hcompiler _
      | error he =>
        have hstart : Pass.Corresponds ρ π π' { p with compiler := c } { p' with compiler := c' } :=
          ⟨hcompiler, h.states, h.progress, h.sql⟩
        exact hstart.fail r.key he
  · exact h

/-- A pass over all rules leads to the same point in both. -/
theorem pass_corresponds (number : Nat) {c c' : Compiler} (hc : c.Corresponds ρ π π' c')
    {states states' : RuleStates} (h : CorrespondingStates ρ states states') :
    (pass number c states).Corresponds ρ π π' (pass number c' states') := by
  have hstart : Pass.Corresponds ρ π π' { compiler := c, states }
      { compiler := c', states := states' } := ⟨hc, h, rfl, rfl⟩
  have hfold := List.rel_foldl (P := Pass.Corresponds ρ π π') (R := Rule.Corresponds ρ π π')
    (fun p p' hp r r' hr ↦ attempt_corresponds number h hp hr) hstart hc.program.rules
  refine ⟨hfold.compiler, hfold.states, hfold.progress, ?_⟩
  simp only [pass, sqlTexts_append, hfold.sql]
  rfl

/-- The passes made have led to the same point. -/
structure Passes.Corresponds (ρ : Renaming) (π π' : BodyPolicy) (p p' : Passes) : Prop where
  count : p'.count = p.count
  compiler : p.compiler.Corresponds ρ π π' p'.compiler
  states : CorrespondingStates ρ p.states p'.states
  sql : sqlTexts p'.log = sqlTexts p.log

/-- All passes go the same way. -/
theorem run_corresponds (left : Nat) {p p' : Passes} (h : p.Corresponds ρ π π' p') :
    (run left p).Corresponds ρ π π' (run left p') := by
  induction left generalizing p p' with
  | zero => exact h
  | succ left ih =>
    have hpass := pass_corresponds (p.count + 1) h.compiler h.states
    have hsql : sqlTexts (p'.log ++ (pass (p.count + 1) p'.compiler p'.states).log) =
        sqlTexts (p.log ++ (pass (p.count + 1) p.compiler p.states).log) := by
      rw [sqlTexts_append, sqlTexts_append, h.sql, hpass.sql]
    rw [run, run, h.states.anyPending, h.count]
    simp only [hpass.progress]
    split
    · split
      · exact ih ⟨rfl, hpass.compiler, hpass.states, hsql⟩
      · exact ⟨rfl, hpass.compiler, hpass.states, hsql⟩
    · exact h

/-! ### Rules that are left over -/

section Stuck

variable {c c' : Compiler} (hc : c.Corresponds ρ π π' c') {states states' : RuleStates}
  (h : CorrespondingStates ρ states states')

include hc h

/-- The reference that makes a rule hopeless is the same up to renaming. -/
theorem hopeless?_corresponds {r r' : Rule} (hr : r.Corresponds ρ π π' r') :
    hopeless? c' states' r' = (hopeless? c states r).map (Symbol.rename ρ) := by
  have hgoals : (π'.select r'.body).map Goal.symbol =
      ((π.select r.body).map Goal.symbol).map (Symbol.rename ρ) := by
    simp only [hr.body, List.map_map, Function.comp_def, Goal.symbol_rename]
  simp only [hopeless?, hc.policy.1, hc.policy.2, hgoals, List.find?_map, Function.comp_def,
    h.classify hc.program]

/-- The same rules are stuck. -/
theorem stuckRules_corresponds :
    List.Forall₂ (Rule.Corresponds ρ π π') (stuckRules c states) (stuckRules c' states') := by
  refine List.rel_filter (fun r r' hr ↦ ?_) hc.program.rules
  simp only [hr.key, h.lookup_eq_pending_iff]

/-- So the error says the same of them: which reference is a dead end, or which rules are left. -/
theorem stuckError_corresponds (passes : Nat) :
    Error.Corresponds ρ (stuckError c states passes) (stuckError c' states' passes) := by
  have hstuck := stuckRules_corresponds hc h
  have hfound := findSome?_of_forall₂ hstuck
    (f := fun r ↦ (hopeless? c states r).map fun reference ↦ (r.key, reference))
    (g := fun r ↦ (hopeless? c' states' r).map fun reference ↦ (r.key, reference))
    (k := Prod.map (Symbol.rename ρ) (Symbol.rename ρ)) fun r r' hr ↦ by
      rw [hopeless?_corresponds hc h hr, hr.key, Option.map_map, Option.map_map]
      rfl
  have hkeys : (stuckRules c' states').map Rule.key =
      ((stuckRules c states).map Rule.key).map (Symbol.rename ρ) := by
    rw [List.map_map]
    exact map_eq_of_forall₂ hstuck fun r r' hr ↦ hr.key
  simp only [stuckError, hfound, hkeys]
  split <;> rename_i hsome
  · simp only [hsome]
    exact .cascade _ _
  · simp only [hsome]
    exact .cycle _ _

end Stuck

theorem ne_pending_of_mem {states : RuleStates} (h : ¬ anyPending states = true) :
    ∀ e ∈ states, e.2 ≠ .pending := by
  intro e he hstate
  exact h (List.any_eq_true.mpr ⟨e, he, decide_eq_true hstate⟩)

/-- Settled states give outcomes that correspond. -/
theorem outcome_corresponds {s s' : RuleState} (h : s.Corresponds ρ s') (hs : s ≠ .pending) :
    (outcome s).Corresponds ρ (outcome s') := by
  cases h with
  | pending => exact absurd rfl hs
  | compiled pass => exact .compiled pass
  | failed hreason => exact .failed hreason

end Resolution

open Resolution in
/-- **Programs that correspond are resolved in step**: both resolutions report the same up to names, or
fail with errors that correspond, and they log the same SQL. -/
theorem Compiler.resolve_corresponds {c c' : Compiler} (hc : c.Corresponds ρ π π' c')
    (maxPasses : Nat) :
    (c.resolve maxPasses).compiler.Corresponds ρ π π' (c'.resolve maxPasses).compiler ∧
      sqlTexts (c'.resolve maxPasses).log = sqlTexts (c.resolve maxPasses).log ∧
      Alike (Error.Corresponds ρ) (ResolutionReport.Corresponds ρ) (c.resolve maxPasses).report
        (c'.resolve maxPasses).report := by
  have hstates : CorrespondingStates ρ (c.program.rules.map fun r ↦ (r.key, RuleState.pending))
      (c'.program.rules.map fun r ↦ (r.key, RuleState.pending)) := by
    refine List.forall₂_map_left_iff.mpr (List.forall₂_map_right_iff.mpr ?_)
    exact hc.program.rules.imp fun r r' hr ↦ ⟨hr.key, .pending⟩
  have hstart : Passes.Corresponds ρ π π' ⟨0, c, c.program.rules.map fun r ↦ (r.key, .pending), []⟩
      ⟨0, c', c'.program.rules.map fun r ↦ (r.key, .pending), []⟩ := ⟨rfl, hc, hstates, rfl⟩
  have hrun := run_corresponds maxPasses hstart
  simp only [resolve, hrun.states.anyPending, hrun.count]
  split <;> rename_i hpending
  · refine ⟨hrun.compiler, ?_, .error (stuckError_corresponds hrun.compiler hrun.states _)⟩
    simp only [sqlTexts_append, hrun.sql]
    rfl
  · refine ⟨hrun.compiler, ?_, .ok ⟨rfl, ?_⟩⟩
    · simp only [sqlTexts_append, hrun.sql]
      rfl
    refine List.forall₂_map_left_iff.mpr (List.forall₂_map_right_iff.mpr ?_)
    refine ((List.forall₂_and_left _ _).mpr ⟨ne_pending_of_mem hpending, hrun.states⟩).imp ?_
    rintro ⟨key, s⟩ ⟨_, s'⟩ ⟨hs, rfl, hstate⟩
    exact .mk key (outcome_corresponds hstate hs)

end HornQuery
