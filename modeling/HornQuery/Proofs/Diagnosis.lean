import Mathlib
import HornQuery.Proofs.Passes

/-!
# Why rules are left over

Resolution fails if rules are left over when its passes end, and the error is a diagnosis. It is read
off the last states, although passes judge rules by the states before them, and passes end for one of
two reasons: all passes that are allowed have been made, or one of them changed nothing.

The diagnosis is truthful for any compiler and any program (`Compiler.resolve_diagnosis`). A relation
that can never be ready is named if there is one, the first in order of declaration. Otherwise the
rules left over are listed, and if passes were left, they wait for each other: a pass that changes
nothing leaves every pending rule with a goal that is not ready (`Resolution.run_stalled`), among
finitely many rules such goals lead back to where they started (`exists_transGen_self`), and to allow
more passes leads to the same end (`Resolution.run_eq_run`).
-/

namespace HornQuery

/-- The entry is the first one of a list that has the property. -/
def IsFirst {α : Type} (P : α → Prop) (l : List α) (a : α) : Prop :=
  ∃ before after, l = before ++ a :: after ∧ (∀ b ∈ before, ¬ P b) ∧ P a

/-- The first one is what a search by a test for the property finds. -/
theorem isFirst_iff_find? {α : Type} {P : α → Prop} {test : α → Bool}
    (htest : ∀ b, P b ↔ test b = true) {l : List α} {a : α} :
    IsFirst P l a ↔ l.find? test = some a := by
  simp only [IsFirst, List.find?_eq_some_iff_append, htest, Bool.not_eq_true', Bool.not_eq_true]
  tauto

theorem IsFirst.unique {α : Type} {P : α → Prop} {l : List α} {a b : α} (ha : IsFirst P l a)
    (hb : IsFirst P l b) : a = b := by
  classical
  have hfind : ∀ {a}, IsFirst P l a → l.find? (fun b ↦ decide (P b)) = some a :=
    (isFirst_iff_find? fun b ↦ decide_eq_true_iff.symm).mp
  exact Option.some.inj ((hfind ha).symm.trans (hfind hb))

theorem IsFirst.mem {α : Type} {P : α → Prop} {l : List α} {a : α} (h : IsFirst P l a) : a ∈ l := by
  obtain ⟨before, after, rfl, -, -⟩ := h
  simp

/-- Whether something is the first of its kind only depends on the kind within the list. -/
theorem IsFirst.congr {α : Type} {P Q : α → Prop} {l : List α} {a : α} (h : IsFirst P l a)
    (hcongr : ∀ b ∈ l, P b ↔ Q b) : IsFirst Q l a := by
  obtain ⟨before, after, rfl, hbefore, ha⟩ := h
  refine ⟨before, after, rfl, fun b hb ↦ ?_, (hcongr a (by simp)).mp ha⟩
  exact (hcongr b (List.mem_append_left _ hb)).not.mp (hbefore b hb)

/-- Where there is one there is a first one. -/
theorem exists_isFirst_iff {α : Type} {P : α → Prop} {l : List α} :
    (∃ a, IsFirst P l a) ↔ ∃ a ∈ l, P a := by
  classical
  simp only [isFirst_iff_find? fun b ↦ (decide_eq_true_iff (p := P b)).symm,
    ← Option.isSome_iff_exists, List.find?_isSome, decide_eq_true_eq]

/-- Where every entry of a list leads to an entry of it, some entry leads back to itself. -/
theorem exists_transGen_self {α : Type} {R : α → α → Prop} {l : List α} (hne : l ≠ [])
    (hnext : ∀ a ∈ l, ∃ b ∈ l, R a b) :
    ∃ a ∈ l, Relation.TransGen (fun a b ↦ R a b ∧ b ∈ l) a a := by
  by_contra hnone
  push Not at hnone
  -- Otherwise following `R` inside the list ends at an entry that leads nowhere.
  let leads : {a // a ∈ l} → {a // a ∈ l} → Prop := fun b a ↦
    Relation.TransGen (fun a b ↦ R a b ∧ b ∈ l) a.1 b.1
  have : Finite {a // a ∈ l} := (List.finite_toSet l).to_subtype
  have : IsTrans _ leads := ⟨fun _ _ _ hab hbc ↦ hbc.trans hab⟩
  have : Std.Irrefl leads := ⟨fun a ↦ hnone a.1 a.2⟩
  have hwf : WellFounded leads := Finite.wellFounded_of_trans_of_irrefl _
  obtain ⟨a, ha⟩ := List.exists_mem_of_ne_nil l hne
  obtain ⟨last, -, hlast⟩ := hwf.has_min Set.univ ⟨⟨a, ha⟩, trivial⟩
  obtain ⟨b, hb, hR⟩ := hnext last.1 last.2
  exact hlast ⟨b, hb⟩ trivial (.single ⟨hR, hb⟩)

namespace Resolution

open Program

variable {p : Program} {f : Rule → RuleState} {states : RuleStates}

/-! ### States of rules -/

/-- The states are those of the program's rules, in order, and rules with one key have one state. -/
def Keyed (p : Program) (states : RuleStates) : Prop :=
  ∃ g : Symbol → RuleState, states = p.statesOf fun r ↦ g r.key

/-- Before the first pass every rule has a state, and only rules have one. -/
theorem keyed_pending (p : Program) : Keyed p (p.statesOf fun _ ↦ .pending) :=
  ⟨fun _ ↦ .pending, rfl⟩

theorem Keyed.setState (h : Keyed p states) (r : Rule) (state : RuleState) :
    Keyed p (setState states r.key state) := by
  obtain ⟨g, rfl⟩ := h
  refine ⟨Function.update g r.key state, ?_⟩
  rw [setState_statesOf]
  congr 1
  funext x
  simp only [withState, Function.update_apply]

/-- A rule of the program has exactly the state that is found for it. -/
theorem Keyed.exists_lookup (h : Keyed p states) {r : Rule} (hr : r ∈ p.rules) :
    ∃ state, states.lookup r.key = some state ∧ (r.key, state) ∈ states := by
  obtain ⟨g, rfl⟩ := h
  obtain ⟨x, hx⟩ := mem_keys_iff.mp (List.mem_map_of_mem hr)
  refine ⟨g r.key, ?_, List.mem_map.mpr ⟨r, hr, rfl⟩⟩
  rw [lookup_statesOf, hx, Option.map_some, key_of_rule? hx]

/-- Only rules have a state. -/
theorem Keyed.exists_rule (h : Keyed p states) {s : Symbol} {state : RuleState}
    (hs : states.lookup s = some state) : ∃ r ∈ p.rules, r.key = s := by
  obtain ⟨g, rfl⟩ := h
  rw [lookup_statesOf, Option.map_eq_some_iff] at hs
  obtain ⟨r, hr, -⟩ := hs
  exact ⟨r, mem_of_rule? hr, key_of_rule? hr⟩

/-- A state that is pending is the state of some rule. -/
theorem Keyed.exists_pending (h : Keyed p states) (hany : anyPending states = true) :
    ∃ r ∈ p.rules, states.lookup r.key = some .pending := by
  obtain ⟨g, rfl⟩ := h
  obtain ⟨r, hr, hpending⟩ := anyPending_statesOf.mp hany
  obtain ⟨x, hx⟩ := mem_keys_iff.mp (List.mem_map_of_mem hr)
  refine ⟨r, hr, ?_⟩
  rw [lookup_statesOf, hx, Option.map_some, key_of_rule? hx, hpending]

/-! ### What goals refer to -/

/-- A symbol without a rule is judged by the facts, and by the arities that its name has
otherwise. -/
theorem classify_of_lookup_eq_none {s : Symbol} (h : states.lookup s = none) :
    classify p states s = if p.hasFacts s then .ready
      else if p.definedArities s.text = [] then .undefined
      else .wrongArity (p.definedArities s.text) := by
  unfold classify
  rw [h]
  cases p.definedArities s.text <;> rfl

theorem classify_eq_waiting_iff {s : Symbol} :
    classify p states s = .waiting ↔ states.lookup s = some .pending := by
  cases hlookup : states.lookup s with
  | none =>
    rw [classify_of_lookup_eq_none hlookup]
    split_ifs <;> simp
  | some state => cases state <;> simp [classify, hlookup]

theorem classify_eq_failedRule_iff {s : Symbol} :
    classify p states s = .failedRule ↔ ∃ reason, states.lookup s = some (.failed reason) := by
  cases hlookup : states.lookup s with
  | none =>
    rw [classify_of_lookup_eq_none hlookup]
    split_ifs <;> simp
  | some state => cases state <;> simp [classify, hlookup]

/-- A name without any definition is the only one that is not ready, waiting, failed or misused. -/
theorem classify_eq_undefined_iff (h : Keyed p states) {s : Symbol} :
    classify p states s = .undefined ↔ p.Undefined s := by
  obtain ⟨g, rfl⟩ := h
  cases hrule : p.rule? s with
  | some r =>
    have hdefines : p.Defines s := defines_iff.mpr (Or.inl ⟨r, hrule⟩)
    refine iff_of_false ?_ fun hundefined ↦ hundefined s.arity hdefines
    rw [classify, lookup_statesOf, hrule, Option.map_some]
    cases g r.key <;> simp
  | none =>
    rw [classify_of_lookup_eq_none (by rw [lookup_statesOf, hrule, Option.map_none])]
    have hempty : p.definedArities s.text = [] ↔ p.Undefined s := by
      simp [Undefined, List.eq_nil_iff_forall_not_mem, mem_definedArities]
    split_ifs with hfacts hnil
    · have hdefines : p.Defines s := defines_iff.mpr (Or.inr ⟨hrule, hfacts⟩)
      exact iff_of_false (by simp) fun hundefined ↦ hundefined s.arity hdefines
    · exact iff_of_true rfl (hempty.mp hnil)
    · exact iff_of_false (by simp) (hempty.not.mp hnil)

/-- The relation belongs to a rule that failed, or its name is not defined with any arity. -/
def DeadEnd (p : Program) (states : RuleStates) (g : Goal) : Prop :=
  (∃ reason, states.lookup g.symbol = some (.failed reason)) ∨ p.Undefined g.symbol

/-- Goals that are not ready and not of a wrong arity wait for a rule or can never be ready. -/
theorem exists_of_waiting (h : Keyed p states) {goals : List Goal}
    (hwaiting : readiness p states goals = .waiting) :
    ∃ g ∈ goals, states.lookup g.symbol = some .pending ∨ DeadEnd p states g := by
  obtain ⟨key, rfl⟩ := id h
  obtain ⟨_, _, _, -, -, -, hread⟩ | ⟨hfaulty, ⟨g, hg, hne⟩, -⟩ | ⟨-, hread⟩ :=
    readiness_cases p (fun r ↦ key r.key) goals
  · cases hread.symm.trans hwaiting
  · refine ⟨g, hg, ?_⟩
    cases hclass : classify p (p.statesOf fun r ↦ key r.key) g.symbol with
    | ready => exact absurd hclass hne
    | waiting => exact Or.inl (classify_eq_waiting_iff.mp hclass)
    | failedRule => exact Or.inr (Or.inl (classify_eq_failedRule_iff.mp hclass))
    | undefined => exact Or.inr (Or.inr ((classify_eq_undefined_iff h).mp hclass))
    | wrongArity defined =>
      exact absurd (classify_eq_wrongArity_iff.mp hclass).1 (hfaulty g hg)
  · cases hread.symm.trans hwaiting

/-! ### Passes -/

/-- An attempt leaves everything as it is, and then the rule is not pending or has to wait, or it
settles the rule. -/
theorem attempt_cases (number : Nat) (before : RuleStates) (q : Pass) (r : Rule) :
    (attempt number before q r = q ∧ (before.lookup r.key = some .pending →
        readiness q.compiler.program before (q.compiler.policy.select r.body) = .waiting)) ∨
      ∃ state, (attempt number before q r).states = setState q.states r.key state ∧
        (attempt number before q r).progress = true := by
  unfold attempt
  split
  · split
    · exact Or.inr ⟨_, rfl, rfl⟩
    · exact Or.inl ⟨rfl, fun _ ↦ by assumption⟩
    · split
      · exact Or.inr ⟨_, rfl, rfl⟩
      · exact Or.inr ⟨_, rfl, rfl⟩
  · exact Or.inl ⟨rfl, fun hpending ↦ absurd hpending (by assumption)⟩

/-- Attempts change states, but not whose states there are. -/
theorem keyed_foldl_attempt {number : Nat} {before : RuleStates} {q : Pass} (rules : List Rule)
    (h : Keyed p q.states) : Keyed p (rules.foldl (attempt number before) q).states := by
  induction rules generalizing q with
  | nil => exact h
  | cons r rules ih =>
    refine ih ?_
    obtain ⟨heq, -⟩ | ⟨state, hstates, -⟩ := attempt_cases number before q r
    · rwa [heq]
    · rw [hstates]
      exact h.setState r state

/-- Attempts without progress change no state, and every pending rule has to wait. -/
theorem foldl_attempt_stalled {number : Nat} {before : RuleStates} {rules : List Rule} {q : Pass}
    (h : (rules.foldl (attempt number before) q).progress = false) :
    q.progress = false ∧ (rules.foldl (attempt number before) q).states = q.states ∧
      ∀ r ∈ rules, before.lookup r.key = some .pending →
        readiness q.compiler.program before (q.compiler.policy.select r.body) = .waiting := by
  induction rules generalizing q with
  | nil => exact ⟨h, rfl, by simp⟩
  | cons r rules ih =>
    obtain ⟨hprogress, hstates, hwaiting⟩ := ih h
    obtain ⟨heq, hfirst⟩ | ⟨_, -, htrue⟩ := attempt_cases number before q r
    · rw [heq] at hprogress hwaiting
      refine ⟨hprogress, ?_, List.forall_mem_cons.mpr ⟨hfirst, hwaiting⟩⟩
      rw [List.foldl_cons, hstates, heq]
    · rw [hprogress] at htrue
      cases htrue

/-- What one more pass leads to. -/
def Passes.next (q : Passes) : Passes :=
  let made := pass (q.count + 1) q.compiler q.states
  ⟨q.count + 1, made.compiler, made.states, q.log ++ made.log⟩

/-- One pass is made if something is pending, and another one only if it made progress. -/
theorem run_succ (left : Nat) (q : Passes) :
    run (left + 1) q = if anyPending q.states then
        if (pass (q.count + 1) q.compiler q.states).progress then run left q.next else q.next
      else q := rfl

/-- A run with nothing pending is over. -/
theorem run_of_settled {q : Passes} (h : anyPending q.states = false) (left : Nat) :
    run left q = q := by
  cases left with
  | zero => rfl
  | succ left => rw [run_succ, h, if_neg Bool.false_ne_true]

/-- Passes change states, but not whose states there are. -/
theorem keyed_run (left : Nat) {q : Passes} (h : Keyed p q.states) : Keyed p (run left q).states := by
  induction left generalizing q with
  | zero => exact h
  | succ left ih =>
    have hnext : Keyed p q.next.states :=
      keyed_foldl_attempt (q := { compiler := q.compiler, states := q.states }) _ h
    rw [run_succ]
    split_ifs
    · exact ih hnext
    · exact hnext
    · exact h

theorem le_count_run (left : Nat) (q : Passes) : q.count ≤ (run left q).count := by
  induction left generalizing q with
  | zero => exact le_rfl
  | succ left ih =>
    have hnext : q.count ≤ q.next.count := Nat.le_succ q.count
    rw [run_succ]
    split_ifs
    · exact hnext.trans (ih q.next)
    · exact hnext
    · exact le_rfl

/-- **Where passes ended early, every pending rule has to wait** by the very states that they ended
with. -/
theorem run_stalled {left : Nat} {q : Passes} (hcount : (run left q).count < q.count + left)
    (hpending : anyPending (run left q).states = true) {r : Rule} (hr : r ∈ q.compiler.program.rules)
    (hstate : (run left q).states.lookup r.key = some .pending) :
    readiness q.compiler.program (run left q).states (q.compiler.policy.select r.body) =
      .waiting := by
  induction left generalizing q with
  | zero => exact absurd hcount (Nat.lt_irrefl _)
  | succ left ih =>
    rw [run_succ] at hcount hpending hstate ⊢
    split_ifs at hcount hpending hstate ⊢ with hany hprogress
    · have htask : Compiler.SameTask q.compiler q.next.compiler :=
        foldl_attempt_induction (P := Compiler.SameTask q.compiler)
          (fun c r _ h ↦ h.trans (c.sameTask_compileRule r))
          (fun c key reason h ↦ h.trans (c.sameTask_markFailed key reason))
          (p := { compiler := q.compiler, states := q.states }) (fun _ hr ↦ hr) (.refl _)
      rw [← htask.program] at hr ⊢
      rw [← htask.policy]
      have hnext : q.next.count = q.count + 1 := rfl
      exact ih (by omega) hpending hr hstate
    · -- The last pass changed nothing, so it judged by the states that it ended with.
      obtain ⟨-, hstates, hwaiting⟩ :=
        foldl_attempt_stalled (q := { compiler := q.compiler, states := q.states })
          (Bool.eq_false_of_not_eq_true hprogress)
      have hsame : q.next.states = q.states := hstates
      rw [hsame] at hstate ⊢
      exact hwaiting r hr hstate
    · exact absurd hpending hany

/-- Passes that ended early, or with nothing left to do, end in the same way whatever is allowed. -/
theorem run_eq_run {left bound : Nat} {q : Passes}
    (hstop : (run left q).count < q.count + left ∨ anyPending (run left q).states = false)
    (hbound : (run left q).count ≤ q.count + bound) : run bound q = run left q := by
  induction left generalizing q bound with
  | zero =>
    obtain hlt | hnone := hstop
    · exact absurd hlt (Nat.lt_irrefl _)
    · exact run_of_settled hnone bound
  | succ left ih =>
    by_cases hany : anyPending q.states = true
    · have hcount : q.next.count = q.count + 1 := rfl
      rw [run_succ, if_pos hany] at hstop hbound ⊢
      split_ifs at hstop hbound ⊢ with hprogress
      · have hle := le_count_run left q.next
        obtain ⟨bound, rfl⟩ : ∃ b, bound = b + 1 := ⟨bound - 1, by omega⟩
        rw [run_succ, if_pos hany, if_pos hprogress]
        exact ih (hstop.imp_left fun h ↦ by omega) (by omega)
      · obtain ⟨bound, rfl⟩ : ∃ b, bound = b + 1 := ⟨bound - 1, by omega⟩
        rw [run_succ, if_pos hany, if_neg hprogress]
    · have hnone := Bool.eq_false_of_not_eq_true hany
      rw [run_of_settled hnone, run_of_settled hnone]

/-! ### The diagnosis -/

/-- The search for a goal that can never be ready, as a test of its relation. -/
theorem exists_hopeless?_eq (c : Compiler) (states : RuleStates) (r : Rule) :
    ∃ test : Symbol → Bool,
      hopeless? c states r = ((c.policy.select r.body).map Goal.symbol).find? test ∧
        ∀ s, test s = true ↔ classify c.program states s = .undefined ∨
          classify c.program states s = .failedRule := by
  refine ⟨_, rfl, fun s ↦ ?_⟩
  cases classify c.program states s <;> simp

/-- The reference that makes a rule hopeless is that of its first dead end. -/
theorem hopeless?_eq_some_iff {c : Compiler} (h : Keyed c.program states) {r : Rule}
    {reference : Symbol} : hopeless? c states r = some reference ↔
      ∃ g, IsFirst (DeadEnd c.program states) (c.policy.select r.body) g ∧ g.symbol = reference := by
  obtain ⟨test, heq, htest⟩ := exists_hopeless?_eq c states r
  have hdead : ∀ g : Goal, DeadEnd c.program states g ↔ test g.symbol = true := fun g ↦ by
    rw [htest, classify_eq_undefined_iff h, classify_eq_failedRule_iff, DeadEnd, or_comm]
  rw [heq, List.find?_map, Option.map_eq_some_iff]
  exact exists_congr fun g ↦ and_congr_left fun _ ↦ (isFirst_iff_find? hdead).symm

/-- A rule is not hopeless if none of its goals is a dead end. -/
theorem hopeless?_eq_none_iff {c : Compiler} (h : Keyed c.program states) {r : Rule} :
    hopeless? c states r = none ↔ ∀ g ∈ c.policy.select r.body, ¬ DeadEnd c.program states g := by
  rw [Option.eq_none_iff_forall_ne_some]
  constructor
  · intro hnone g hg hdead
    obtain ⟨first, hfirst⟩ := exists_isFirst_iff.mpr ⟨g, hg, hdead⟩
    exact hnone _ ((hopeless?_eq_some_iff h).mpr ⟨first, hfirst, rfl⟩)
  · intro hnone reference hsome
    obtain ⟨g, hfirst, -⟩ := (hopeless?_eq_some_iff h).mp hsome
    obtain ⟨g', hg', hdead⟩ := exists_isFirst_iff.mp ⟨g, hfirst⟩
    exact hnone g' hg' hdead

/-- The error names the first goal that can never be ready of the first rule that has one; without any,
it lists the rules that are left over. -/
theorem stuckError_cases {c : Compiler} (h : Keyed c.program states) (passes : Nat) :
    (∃ r g, IsFirst (fun r ↦ ∃ g ∈ c.policy.select r.body, DeadEnd c.program states g)
        (stuckRules c states) r ∧ IsFirst (DeadEnd c.program states) (c.policy.select r.body) g ∧
        stuckError c states passes = .cascade r.key g.symbol) ∨
      ((∀ r ∈ stuckRules c states, ∀ g ∈ c.policy.select r.body, ¬ DeadEnd c.program states g) ∧
        stuckError c states passes = .cycle passes ((stuckRules c states).map Rule.key)) := by
  unfold stuckError
  simp only
  split
  · rename_i rule reference hfound
    obtain ⟨before, r, after, heq, hr, hbefore⟩ := List.findSome?_eq_some_iff.mp hfound
    obtain ⟨reference', hhopeless, hpair⟩ := Option.map_eq_some_iff.mp hr
    obtain ⟨rfl, rfl⟩ := Prod.mk.inj hpair
    obtain ⟨g, hfirst, rfl⟩ := (hopeless?_eq_some_iff h).mp hhopeless
    refine Or.inl ⟨r, g, ⟨before, after, heq, fun x hx ⟨a, ha, hdead⟩ ↦ ?_,
      exists_isFirst_iff.mp ⟨g, hfirst⟩⟩, hfirst, rfl⟩
    exact (hopeless?_eq_none_iff h).mp (Option.map_eq_none_iff.mp (hbefore x hx)) a ha hdead
  · rename_i hnone
    refine Or.inr ⟨fun r hr ↦ ?_, rfl⟩
    exact (hopeless?_eq_none_iff h).mp
      (Option.map_eq_none_iff.mp (List.findSome?_eq_none_iff.mp hnone r hr))

end Resolution

namespace Compiler

open Resolution

variable {c : Compiler} {maxPasses : Nat} {e : Error}

/-- Where the passes of a resolution end. -/
def lastPasses (c : Compiler) (maxPasses : Nat) : Passes :=
  run maxPasses ⟨0, c, c.program.statesOf fun _ ↦ .pending, []⟩

/-- The states of the rules when the passes of a resolution end. -/
def finalStates (c : Compiler) (maxPasses : Nat) : RuleStates :=
  (c.lastPasses maxPasses).states

/-- The rules that are neither compiled nor failed when the passes of a resolution end, in order of
declaration. -/
def leftOver (c : Compiler) (maxPasses : Nat) : List Rule :=
  c.program.rules.filter fun r ↦
    match (c.finalStates maxPasses).lookup r.key with
    | some (.compiled _) => false
    | some (.failed _) => false
    | _ => true

/-- The goal refers to a rule that failed in the resolution, or to a name without any definition. -/
def DeadEnd (c : Compiler) (maxPasses : Nat) (g : Goal) : Prop :=
  Resolution.DeadEnd c.program (c.finalStates maxPasses) g

theorem keyed_finalStates (c : Compiler) (maxPasses : Nat) :
    Keyed c.program (c.finalStates maxPasses) :=
  keyed_run maxPasses (keyed_pending c.program)

theorem sameTask_lastPasses (c : Compiler) (maxPasses : Nat) :
    SameTask c (c.lastPasses maxPasses).compiler :=
  run_induction (P := SameTask c) (fun c' r _ h ↦ h.trans (c'.sameTask_compileRule r))
    (fun c' key reason h ↦ h.trans (c'.sameTask_markFailed key reason)) maxPasses
    (p := ⟨0, c, c.program.statesOf fun _ ↦ .pending, []⟩) (.refl c)

/-- Rules are left over if they are still pending at the end. -/
theorem mem_leftOver {r : Rule} : r ∈ c.leftOver maxPasses ↔
    r ∈ c.program.rules ∧ (c.finalStates maxPasses).lookup r.key = some .pending := by
  rw [leftOver, List.mem_filter]
  refine and_congr_right fun hr ↦ ?_
  obtain ⟨state, hstate, -⟩ := (c.keyed_finalStates maxPasses).exists_lookup hr
  rw [hstate]
  cases state <;> simp

/-- The rules that resolution reports as stuck are those left over. -/
theorem stuckRules_lastPasses (c : Compiler) (maxPasses : Nat) :
    stuckRules (c.lastPasses maxPasses).compiler (c.finalStates maxPasses) =
      c.leftOver maxPasses := by
  rw [stuckRules, (c.sameTask_lastPasses maxPasses).program, leftOver]
  refine List.filter_congr fun r hr ↦ ?_
  obtain ⟨state, hstate, -⟩ := (c.keyed_finalStates maxPasses).exists_lookup hr
  rw [hstate]
  cases state <;> simp

/-- A failed resolution leaves rules over, and its error is found as `stuckError_cases` says. -/
theorem report_eq_error (h : (c.resolve maxPasses).report = .error e) :
    anyPending (c.finalStates maxPasses) = true ∧
      ((∃ r g, IsFirst (fun r ↦ ∃ g ∈ c.policy.select r.body, c.DeadEnd maxPasses g)
          (c.leftOver maxPasses) r ∧ IsFirst (c.DeadEnd maxPasses) (c.policy.select r.body) g ∧
          e = .cascade r.key g.symbol) ∨
        ((∀ r ∈ c.leftOver maxPasses, ∀ g ∈ c.policy.select r.body, ¬ c.DeadEnd maxPasses g) ∧
          e = .cycle (c.lastPasses maxPasses).count ((c.leftOver maxPasses).map Rule.key))) := by
  obtain ⟨-, ⟨hany, herror⟩ | ⟨-, hok⟩⟩ := resolve_cases c maxPasses rfl
  · have htask := c.sameTask_lastPasses maxPasses
    have hkeyed := c.keyed_finalStates maxPasses
    have hcases := stuckError_cases (htask.program.symm ▸ hkeyed) (c.lastPasses maxPasses).count
    rw [stuckRules_lastPasses, htask.program, htask.policy] at hcases
    obtain rfl := Except.error.inj (h.symm.trans herror)
    exact ⟨hany, hcases⟩
  · cases h.symm.trans hok

/-- Something pending means that some rule is left over. -/
theorem leftOver_ne_nil (hany : anyPending (c.finalStates maxPasses) = true) :
    c.leftOver maxPasses ≠ [] := by
  obtain ⟨r, hr, hpending⟩ := (c.keyed_finalStates maxPasses).exists_pending hany
  exact List.ne_nil_of_mem (mem_leftOver.mpr ⟨hr, hpending⟩)

/-- If passes were left, a rule that is left over waits for another one, or for what can never be
ready. -/
theorem exists_waiting (hcount : (c.lastPasses maxPasses).count < maxPasses) {r : Rule}
    (hr : r ∈ c.leftOver maxPasses) : ∃ g ∈ c.policy.select r.body,
      g.symbol ∈ (c.leftOver maxPasses).map Rule.key ∨ c.DeadEnd maxPasses g := by
  obtain ⟨hrule, hpending⟩ := mem_leftOver.mp hr
  have hkeyed := c.keyed_finalStates maxPasses
  obtain ⟨state, hstate, hmem⟩ := hkeyed.exists_lookup hrule
  have hany : anyPending (c.finalStates maxPasses) = true := by
    rw [hpending] at hstate
    exact List.any_eq_true.mpr ⟨_, hmem, by simp [← Option.some.inj hstate]⟩
  have hwaiting := run_stalled (q := ⟨0, c, c.program.statesOf fun _ ↦ .pending, []⟩)
    (by rw [Nat.zero_add]; exact hcount) hany hrule hpending
  obtain ⟨g, hg, hgoal⟩ := exists_of_waiting hkeyed hwaiting
  refine ⟨g, hg, hgoal.imp_left fun hstate ↦ ?_⟩
  obtain ⟨x, hx, hkey⟩ := hkeyed.exists_rule hstate
  exact List.mem_map.mpr ⟨x, mem_leftOver.mpr ⟨hx, hkey ▸ hstate⟩, hkey⟩

/-- Only the passes matter: two bounds that lead to the same passes give the same resolution. -/
theorem resolve_congr {bound : Nat} (h : c.lastPasses bound = c.lastPasses maxPasses) :
    c.resolve bound = c.resolve maxPasses := by
  have hrun : run bound ⟨0, c, c.program.rules.map fun r ↦ (r.key, RuleState.pending), []⟩ =
      run maxPasses ⟨0, c, c.program.rules.map fun r ↦ (r.key, RuleState.pending), []⟩ := h
  rw [resolve, resolve, hrun]

/-- The rule of a relation in a list refers to a relation in it. -/
def RefersWithin (c : Compiler) (keys : List Symbol) (s t : Symbol) : Prop :=
  c.program.Refers c.policy s t ∧ t ∈ keys

/-- Rules that wait for each other contain a cycle of references. -/
theorem exists_cycle (hany : anyPending (c.finalStates maxPasses) = true)
    (hwaits : ∀ r ∈ c.leftOver maxPasses, ∃ g ∈ c.policy.select r.body,
      g.symbol ∈ (c.leftOver maxPasses).map Rule.key) :
    ∃ s ∈ (c.leftOver maxPasses).map Rule.key,
      Relation.TransGen (c.RefersWithin ((c.leftOver maxPasses).map Rule.key)) s s := by
  refine exists_transGen_self (fun hnil ↦ leftOver_ne_nil hany (List.map_eq_nil_iff.mp hnil))
    fun s hs ↦ ?_
  obtain ⟨r, hr, rfl⟩ := List.mem_map.mp hs
  obtain ⟨hrule, hpending⟩ := mem_leftOver.mp hr
  -- The rule that is found for the key is left over as well.
  obtain ⟨x, hx⟩ := Program.mem_keys_iff.mp (List.mem_map_of_mem hrule)
  have hxmem : x ∈ c.leftOver maxPasses :=
    mem_leftOver.mpr ⟨Program.mem_of_rule? hx, (Program.key_of_rule? hx).symm ▸ hpending⟩
  obtain ⟨g, hg, hmem⟩ := hwaits x hxmem
  exact ⟨g.symbol, hmem, x, hx, g, hg, rfl⟩

/-- **The diagnosis of rules that are left over is truthful.** Let a resolution fail, of any program and
with any compiler. Its error is about a relation that can never be ready exactly if a rule left over has
a goal on a failed rule or on a name without any definition; it then names the first such rule and its
first such goal. Otherwise the error lists the rules left over, in order of declaration. If there were
passes left, each rule in the list has a goal on a rule in the list, so there is a cycle of references
among them, and the error is the same however many more passes are allowed. -/
theorem resolve_diagnosis (h : (c.resolve maxPasses).report = .error e) :
    ((∃ rule reference, e = .cascade rule reference) ↔
        ∃ r ∈ c.leftOver maxPasses, ∃ g ∈ c.policy.select r.body, c.DeadEnd maxPasses g) ∧
      (∀ rule reference, e = .cascade rule reference → ∃ r g,
        IsFirst (fun r ↦ ∃ g ∈ c.policy.select r.body, c.DeadEnd maxPasses g)
          (c.leftOver maxPasses) r ∧
        IsFirst (c.DeadEnd maxPasses) (c.policy.select r.body) g ∧
        rule = r.key ∧ reference = g.symbol) ∧
      ((¬ ∃ rule reference, e = .cascade rule reference) → ∃ passes,
        e = .cycle passes ((c.leftOver maxPasses).map Rule.key)) ∧
      ∀ passes pending, e = .cycle passes pending → passes < maxPasses →
        (∀ r ∈ c.leftOver maxPasses, r.key ∈ pending ∧
          ∃ g ∈ c.policy.select r.body, g.symbol ∈ pending) ∧
        (∃ s ∈ pending, Relation.TransGen (c.RefersWithin pending) s s) ∧
        ∀ bound, passes ≤ bound → (c.resolve bound).report = .error e := by
  obtain ⟨hany, ⟨r, g, hr, hg, rfl⟩ | ⟨hnone, rfl⟩⟩ := report_eq_error h
  · refine ⟨iff_of_true ⟨_, _, rfl⟩ (exists_isFirst_iff.mp ⟨r, hr⟩), ?_, ?_, ?_⟩
    · rintro _ _ ⟨⟩
      exact ⟨r, g, hr, hg, rfl, rfl⟩
    · exact fun hnot ↦ absurd ⟨_, _, rfl⟩ hnot
    · rintro _ _ ⟨⟩
  · refine ⟨iff_of_false ?_ ?_, ?_, fun _ ↦ ⟨_, rfl⟩, ?_⟩
    · rintro ⟨_, _, ⟨⟩⟩
    · rintro ⟨r, hr, g, hg, hdead⟩
      exact hnone r hr g hg hdead
    · rintro _ _ ⟨⟩
    · rintro _ _ ⟨⟩ hcount
      have hwaits : ∀ r ∈ c.leftOver maxPasses, ∃ g ∈ c.policy.select r.body,
          g.symbol ∈ (c.leftOver maxPasses).map Rule.key := fun r hr ↦ by
        obtain ⟨g, hg, hgoal⟩ := exists_waiting hcount hr
        exact ⟨g, hg, hgoal.resolve_right (hnone r hr g hg)⟩
      refine ⟨fun r hr ↦ ⟨List.mem_map_of_mem hr, hwaits r hr⟩, exists_cycle hany hwaits,
        fun bound hbound ↦ ?_⟩
      have hlast : c.lastPasses bound = c.lastPasses maxPasses :=
        run_eq_run (Or.inl (by rw [Nat.zero_add]; exact hcount)) (by rw [Nat.zero_add]; exact hbound)
      rw [resolve_congr hlast, h]

end Compiler

namespace Program

/-- A rule on facts, and two rules that wait for each other. -/
def loopProgram : Program where
  symbols := [⟨"edge", 2⟩, .constant "a", .constant "b"]
  vars := ["X", "Y"]
  facts := [⟨"edge", ["a", "b"]⟩]
  relations := [⟨"edge", 2⟩]
  rules :=
    [⟨"ping", [.var "X"], [⟨"edge", [.var "X", .var "Y"]⟩, ⟨"pong", [.var "Y"]⟩]⟩,
      ⟨"pong", [.var "X"], [⟨"ping", [.var "X"]⟩]⟩,
      ⟨"start", [.var "X"], [⟨"edge", [.var "X", .var "Y"]⟩]⟩]

/-- The same with a rule that needs `ping` and a relation that is not defined. -/
def lostProgram : Program :=
  { loopProgram with
    rules := loopProgram.rules ++
      [⟨"lost", [.var "X"], [⟨"ping", [.var "X"]⟩, ⟨"nowhere", [.var "X"]⟩]⟩] }

end Program

open Program (loopProgram lostProgram)

/-- Five passes are allowed and two are made: `start` is compiled, and then `ping` and `pong` wait for
each other for good. A relation that is not defined is named before that. -/
theorem Compiler.resolve_diagnosis_loop :
    ((loopProgram.compiler .joinAll).resolve 5).report =
        .error (.cycle 2 [⟨"ping", 1⟩, ⟨"pong", 1⟩]) ∧
      (∃ s ∈ [⟨"ping", 1⟩, ⟨"pong", 1⟩], Relation.TransGen
        ((loopProgram.compiler .joinAll).RefersWithin [⟨"ping", 1⟩, ⟨"pong", 1⟩]) s s) ∧
      (∀ bound, 2 ≤ bound → ((loopProgram.compiler .joinAll).resolve bound).report =
        .error (.cycle 2 [⟨"ping", 1⟩, ⟨"pong", 1⟩])) ∧
      ((lostProgram.compiler .joinAll).resolve 5).report =
        .error (.cascade ⟨"lost", 1⟩ ⟨"nowhere", 1⟩) ∧
      ∃ r : Rule, ∃ g : Goal, IsFirst ((lostProgram.compiler .joinAll).DeadEnd 5) r.body g ∧
        ⟨"lost", 1⟩ = r.key ∧ ⟨"nowhere", 1⟩ = g.symbol := by
  have hloop : ((loopProgram.compiler .joinAll).resolve 5).report =
      .error (.cycle 2 [⟨"ping", 1⟩, ⟨"pong", 1⟩]) := by decide +kernel
  have hlost : ((lostProgram.compiler .joinAll).resolve 5).report =
      .error (.cascade ⟨"lost", 1⟩ ⟨"nowhere", 1⟩) := by decide +kernel
  obtain ⟨-, hcycle, hbound⟩ := (resolve_diagnosis hloop).2.2.2 _ _ rfl (by decide)
  obtain ⟨r, g, -, hfirst, hrule, hreference⟩ := (resolve_diagnosis hlost).2.1 _ _ rfl
  exact ⟨hloop, hcycle, hbound, hlost, r, g, hfirst, hrule, hreference⟩

end HornQuery
