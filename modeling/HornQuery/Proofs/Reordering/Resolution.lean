import Mathlib
import HornQuery.Proofs.Passes
import HornQuery.Proofs.Reordering.Compilation

/-!
# Resolving rules in another order

The state of a rule after so many passes is determined by the relations of the program, and not by the
order in which they are declared (`Program.StateAfter.unique`), because a pass judges rules by the
states before it. So two programs with the same relations compile the same rules in the same passes and
fail at the same rules for the same reasons (`Resolution.resolve_reordered`).

Where rules are left over, the error names the first rule in order of declaration, so it may name
another one. Whether it is about a relation that can never be ready or about a cycle is the same.
-/

namespace HornQuery

/-- What an error is about, whatever it names. -/
inductive Error.Kind where
  | parse
  | arityMismatch
  | unknownRelation
  | unknownSymbol
  | ruleFailed
  | unsupportedArity
  | cascade
  | cycle
  | missingBinding
  | storage
deriving DecidableEq, Repr

/-- The kind of an error. -/
def Error.kind : Error → Error.Kind
  | .parse _ => .parse
  | .compile (.arityMismatch _ _) => .arityMismatch
  | .compile (.unknownRelation _) => .unknownRelation
  | .compile (.unknownSymbol _) => .unknownSymbol
  | .compile (.ruleFailed _ _) => .ruleFailed
  | .unsupportedArity _ => .unsupportedArity
  | .cascade _ _ => .cascade
  | .cycle _ _ => .cycle
  | .missingBinding _ => .missingBinding
  | .storage _ => .storage

namespace Program

variable {p p' : Program} {policy : BodyPolicy} {r : Rule} {n : Nat}

/-! ### Programs with the same declarations -/

/-- The programs have the same facts, rules and symbols, perhaps in another order, and the same
queries. -/
structure Reordered (p p' : Program) : Prop where
  symbols : p.symbols.Perm p'.symbols
  facts : p.facts.Perm p'.facts
  relations : p.relations.Perm p'.relations
  rules : p.rules.Perm p'.rules
  queries : p'.queries = p.queries

/-- A program stays closed if its clauses are put in another order. -/
theorem Reordered.closed (h : p.Reordered p') (hp : p.Closed) : p'.Closed := by
  have hmem : ∀ s, s ∈ p.symbols → s ∈ p'.symbols := fun s ↦ h.symbols.mem_iff.mp
  have hknown : ∀ t : Term, t.Known p.symbols → t.Known p'.symbols :=
    fun t ht text heq ↦ hmem _ (ht text heq)
  refine ⟨h.symbols.nodup_iff.mp hp.symbols_nodup, (h.rules.map _).nodup_iff.mp hp.keys_nodup,
    h.relations.nodup_iff.mp hp.relations_nodup, fun s ↦ ?_, fun f hf ↦ ?_, fun r hr t ht ↦ ?_,
    fun q hq g hg t ht ↦ ?_⟩
  · rw [← h.relations.mem_iff, hp.relations]
    simp only [h.facts.mem_iff]
  · obtain ⟨hsymbol, hargs⟩ := hp.facts f (h.facts.mem_iff.mpr hf)
    exact ⟨hmem _ hsymbol, fun a ha ↦ hmem _ (hargs a ha)⟩
  · obtain ⟨hterm, hparam⟩ := hp.rules r (h.rules.mem_iff.mpr hr) t ht
    exact ⟨hknown t hterm, hparam⟩
  · exact hknown t (hp.queries q (h.queries ▸ hq) g hg t ht)

/-- In a closed program a key has one rule, so the order of the rules does not matter for finding
it. -/
theorem rule?_eq_some_iff (hp : p.Closed) {key : Symbol} :
    p.rule? key = some r ↔ r ∈ p.rules ∧ r.key = key := by
  constructor
  · exact fun h ↦ ⟨mem_of_rule? h, key_of_rule? h⟩
  · rintro ⟨hr, rfl⟩
    exact rule?_of_mem hp hr

theorem nodup_definedArities (p : Program) (name : String) : (p.definedArities name).Nodup :=
  (List.mergeSort_perm _ _).nodup_iff.mpr (Distinct.nodup_ofList _)

/-- Arities are listed in ascending order, whatever the order of the clauses. -/
theorem pairwise_definedArities (p : Program) (name : String) :
    (p.definedArities name).Pairwise (· ≤ ·) :=
  List.pairwise_mergeSort' (· ≤ ·) _

/-- The order of declarations does not matter for the relations they define. The arities of a name are
sorted, so their order is that of the numbers. -/
theorem Reordered.sameRelations (h : p.Reordered p') (hp : p.Closed) : p.SameRelations p' := by
  refine ⟨fun key ↦ Option.ext fun r ↦ ?_, fun s ↦ ?_, fun name ↦ ?_⟩
  · rw [rule?_eq_some_iff (h.closed hp), rule?_eq_some_iff hp, h.rules.mem_iff]
  · rw [Bool.eq_iff_iff, hasFacts_iff, hasFacts_iff, h.relations.mem_iff]
  · have hdefines : ∀ s, p'.Defines s ↔ p.Defines s := fun s ↦ by
      simp only [Defines, h.relations.mem_iff, h.rules.mem_iff]
    have hperm : (p'.definedArities name).Perm (p.definedArities name) := by
      rw [List.perm_ext_iff_of_nodup (p'.nodup_definedArities name) (p.nodup_definedArities name)]
      intro n
      rw [mem_definedArities, mem_definedArities, hdefines]
    exact hperm.eq_of_pairwise' (p'.pairwise_definedArities name) (p.pairwise_definedArities name)

/-! ### States are determined -/

/-- A rule has one first fault. -/
theorem FirstFault.unique {g g' : Goal} (h : p.FirstFault policy r g) (h' : p.FirstFault policy r g') :
    g = g' := by
  classical
  -- Both are the first goal that passes the same test.
  have hfind : ∀ {g}, p.FirstFault policy r g →
      (policy.select r.body).find? (fun g ↦ decide (p.WrongArity g)) = some g := by
    rintro g ⟨before, after, heq, hbefore, hg⟩
    exact List.find?_eq_some_iff_append.mpr
      ⟨by simpa using hg, before, after, heq, fun g' hg' ↦ by simpa using hbefore g' hg'⟩
  exact Option.some_inj.mp ((hfind h).symm.trans (hfind h'))

/-- A rule has one state after a number of passes. -/
theorem StateAfter.unique {state state' : RuleState} (hrule : p.rule? r.key = some r)
    (h : p.StateAfter policy n r state) (h' : p.StateAfter policy n r state') : state = state' := by
  cases h with
  | compiled hm hheight => exact ((h'.compiled_iff hrule).mpr ⟨hm, hheight⟩).symm
  | failed hn hfault =>
    cases h' with
    | compiled _ hheight => exact absurd hfault.faulty (hheight.not_faulty hrule)
    | failed _ hfault' => rw [hfault.unique hfault']
    | pending hfaulty _ => exact absurd hfault.faulty (hfaulty hn)
  | pending hfaulty hnone =>
    cases h' with
    | compiled hm hheight => exact absurd hheight (hnone _ hm)
    | failed hn hfault => exact absurd hfault.faulty (hfaulty hn)
    | pending _ _ => rfl

namespace SameRelations

/-- Having the same relations goes both ways. -/
theorem symm (h : p.SameRelations p') : p'.SameRelations p :=
  ⟨fun key ↦ (h.rule? key).symm, fun s ↦ (h.hasFacts s).symm, fun name ↦ (h.definedArities name).symm⟩

/-- Whether an arity is wrong is decided by the relations. -/
theorem wrongArity_iff (h : p.SameRelations p') {g : Goal} : p'.WrongArity g ↔ p.WrongArity g := by
  rw [Program.wrongArity_iff, Program.wrongArity_iff, h.rule?, h.hasFacts, h.definedArities]

/-- So is what an error says about it. -/
theorem arityFault (h : p.SameRelations p') (g : Goal) : p'.arityFault g = p.arityFault g := by
  rw [Program.arityFault, Program.arityFault, h.definedArities]

/-- Heights are the same, by induction on the height. -/
theorem height (h : p.SameRelations p') {s : Symbol} (hs : p.Height policy s n) :
    p'.Height policy s n := by
  induction hs with
  | facts hrule hfacts => exact .facts ((h.rule? _).trans hrule) ((h.hasFacts _).trans hfacts)
  | rule hrule height _ ih => exact .rule ((h.rule? _).trans hrule) height ih

theorem height_iff (h : p.SameRelations p') {s : Symbol} :
    p'.Height policy s n ↔ p.Height policy s n :=
  ⟨h.symm.height, h.height⟩

/-- And so are the states of rules after a number of passes. -/
theorem stateAfter (h : p.SameRelations p') {state : RuleState}
    (hstate : p.StateAfter policy n r state) : p'.StateAfter policy n r state := by
  cases hstate with
  | compiled hm hheight => exact .compiled hm (h.height hheight)
  | @failed g hn hfault =>
    obtain ⟨before, after, heq, hbefore, hg⟩ := hfault
    rw [← h.arityFault g]
    exact .failed hn ⟨before, after, heq, fun g' hg' ↦ h.wrongArity_iff.not.mpr (hbefore g' hg'),
      h.wrongArity_iff.mpr hg⟩
  | pending hfaulty hnone =>
    refine .pending (fun hn ⟨g, hg, hwrong⟩ ↦ ?_)
      fun m hm hheight ↦ hnone m hm (h.height_iff.mp hheight)
    exact hfaulty hn ⟨g, hg, h.wrongArity_iff.mp hwrong⟩

end SameRelations

end Program

namespace Resolution

open Program

variable {p p' : Program} {policy : BodyPolicy} {f f' : Rule → RuleState} {c c' : Compiler}

/-- What a goal refers to is the same where the states of the rules are. -/
theorem classify_reordered (h : p.SameRelations p') (hf : ∀ r ∈ p.rules, f' r = f r) (s : Symbol) :
    classify p' (p'.statesOf f') s = classify p (p.statesOf f) s := by
  have hstate : (p.rule? s).map f' = (p.rule? s).map f := by
    cases hrule : p.rule? s with
    | none => rfl
    | some r => exact congrArg some (hf r (mem_of_rule? hrule))
  simp only [classify, lookup_statesOf, h.rule?, hstate, h.hasFacts, h.definedArities]

/-- An error about rules that are left over is about a relation that can never be ready exactly if some
rule left over needs one. -/
theorem kind_stuckError (c : Compiler) (states : RuleStates) (passes : Nat) :
    (stuckError c states passes).kind =
      if ∃ r ∈ stuckRules c states, (hopeless? c states r).isSome then .cascade else .cycle := by
  have hfound : ((stuckRules c states).findSome? fun r ↦
      (hopeless? c states r).map fun reference ↦ (r.key, reference)).isSome ↔
      ∃ r ∈ stuckRules c states, (hopeless? c states r).isSome := by
    simp [List.findSome?_isSome_iff]
  simp only [← hfound, stuckError]
  generalize List.findSome? _ _ = found
  cases found <;> simp [Error.kind]

/-- Rules that are left over are left over for the same kind of reason. -/
theorem kind_stuckError_reordered (h : p.SameRelations p') (hrules : p.rules.Perm p'.rules)
    (hf : ∀ r ∈ p.rules, f' r = f r) (hc : Tracks p policy f c (p.statesOf f))
    (hc' : Tracks p' policy f' c' (p'.statesOf f')) (passes passes' : Nat) :
    (stuckError c' (p'.statesOf f') passes').kind = (stuckError c (p.statesOf f) passes).kind := by
  have hclassify := classify_reordered h hf
  have hhopeless : ∀ r, hopeless? c' (p'.statesOf f') r = hopeless? c (p.statesOf f) r := fun r ↦ by
    simp only [hopeless?, hc.program, hc'.program, hc.policy, hc'.policy, hclassify]
  have hstuck : ∀ r, r ∈ stuckRules c' (p'.statesOf f') ↔ r ∈ stuckRules c (p.statesOf f) := fun r ↦ by
    simp only [stuckRules, hc.program, hc'.program, List.mem_filter, hrules.mem_iff, lookup_statesOf,
      h.rule?, decide_eq_true_eq]
    refine and_congr_right fun _ ↦ ?_
    cases hrule : p.rule? r.key with
    | none => rfl
    | some x => rw [Option.map_some, Option.map_some, hf x (mem_of_rule? hrule)]
  rw [kind_stuckError, kind_stuckError]
  simp only [hstuck, hhopeless]

/-- The number of passes does not depend on the order of rules. -/
theorem count_reordered (h : p.SameRelations p') (hrules : p.rules.Perm p'.rules) (hp : p.Closed)
    (hp' : p'.Closed) {q q' : Passes} (hq : Reached p policy f q) (hq' : Reached p' policy f' q')
    (hsettled : ∀ r ∈ p.rules, f r ≠ .pending) (hsettled' : ∀ r ∈ p'.rules, f' r ≠ .pending) :
    q'.count = q.count := by
  rcases List.eq_nil_or_concat p.rules with hnil | ⟨_, r, hlast⟩
  · -- Without rules there is nothing to make a pass for.
    have hzero : ∀ {p : Program} {f : Rule → RuleState} {q : Passes}, p.rules = [] →
        Reached p policy f q → q.count = 0 := by
      intro p f q hrules hq
      obtain hzero | ⟨x, hx, -⟩ := hq.needed
      · exact hzero
      · rw [hrules] at hx
        cases hx
    have hnil' : p'.rules = [] := List.Perm.eq_nil (hnil ▸ hrules.symm)
    rw [hzero hnil hq, hzero hnil' hq']
  · have hr : r ∈ p.rules := by simp [hlast]
    have hgreatest := isGreatest_count hp hq hsettled hr
    have hgreatest' := isGreatest_count hp' hq' hsettled' (hrules.mem_iff.mp hr)
    simp only [← hrules.mem_iff, h.height_iff] at hgreatest'
    exact hgreatest'.unique hgreatest

/-- The reports of resolutions that come to the same: the number of passes is the same, and so is the
outcome of every rule. -/
structure Reordered (rules rules' : List Rule) (report report' : ResolutionReport) : Prop where
  passes : report'.passes = report.passes
  rules : ∃ found : Rule → RuleOutcome,
    report.rules = rules.map (fun r ↦ ⟨r.key.display, found r⟩) ∧
      report'.rules = rules'.map fun r ↦ ⟨r.key.display, found r⟩

/-- Where no rule is pending, the reports on the states come to the same. -/
theorem report_reordered (h : p.SameRelations p') (hrules : p.rules.Perm p'.rules) (hp : p.Closed)
    (hp' : p'.Closed) (hf : ∀ r ∈ p.rules, f' r = f r) {q q' : Passes} (hq : Reached p policy f q)
    (hq' : Reached p' policy f' q') (hsettled : ∀ r ∈ p.rules, f r ≠ .pending)
    (hsettled' : ∀ r ∈ p'.rules, f' r ≠ .pending) :
    Reordered p.rules p'.rules
      ⟨q.count, (p.statesOf f).map fun (key, state) ↦ ⟨key.display, outcome state⟩⟩
      ⟨q'.count, (p'.statesOf f').map fun (key, state) ↦ ⟨key.display, outcome state⟩⟩ := by
  refine ⟨count_reordered h hrules hp hp' hq hq' hsettled hsettled', fun r ↦ outcome (f r),
    by simp [statesOf], ?_⟩
  simp only [statesOf, List.map_map]
  refine List.map_congr_left fun r hr ↦ ?_
  simp only [Function.comp_apply, hf r (hrules.mem_iff.mpr hr)]

/-- Something is pending in both or in none. -/
theorem anyPending_reordered (hrules : p.rules.Perm p'.rules) (hf : ∀ r ∈ p.rules, f' r = f r) :
    anyPending (p'.statesOf f') = anyPending (p.statesOf f) := by
  rw [Bool.eq_iff_iff, anyPending_statesOf, anyPending_statesOf]
  simp only [← hrules.mem_iff]
  exact exists_congr fun r ↦ and_congr_right fun hr ↦ by rw [hf r hr]

/-- What the compiler remembers of rules does not depend on their order. -/
theorem tracks_reordered (h : p.SameRelations p') (hf : ∀ r ∈ p.rules, f' r = f r)
    {states states' : RuleStates} (hc : Tracks p policy f c states)
    (hc' : Tracks p' policy f' c' states') (key : Symbol) :
    c'.isCompiled key = c.isCompiled key ∧ c'.failures.lookup key = c.failures.lookup key := by
  constructor
  · rw [Bool.eq_iff_iff, hc.cache, hc'.cache]
    refine exists_congr fun r ↦ exists_congr fun m ↦ ?_
    rw [h.rule?]
    exact and_congr_right fun hr ↦ by rw [hf r (mem_of_rule? hr)]
  · refine Option.ext fun reason ↦ ?_
    rw [hc.failures, hc'.failures]
    refine exists_congr fun r ↦ ?_
    rw [h.rule?]
    exact and_congr_right fun hr ↦ by rw [hf r (mem_of_rule? hr)]

/-- **The order of rules does not matter for their resolution.** It fails for both with the same kind of
error, or for neither, and then with reports that come to the same. The same rules are compiled, and the
same reasons are remembered of those that failed. -/
theorem resolve_reordered (h : p.Reordered p') (hp : p.Closed) (policy : BodyPolicy)
    (maxPasses : Nat) {result result' : Result}
    (hresult : result = (p.compiler policy).resolve maxPasses)
    (hresult' : result' = (p'.compiler policy).resolve maxPasses) :
    Alike (fun e e' ↦ e'.kind = e.kind) (Reordered p.rules p'.rules) result.report result'.report ∧
      ∀ key, result'.compiler.isCompiled key = result.compiler.isCompiled key ∧
        result'.compiler.failures.lookup key = result.compiler.failures.lookup key := by
  have hp' := h.closed hp
  have hsame := h.sameRelations hp
  obtain ⟨f, hreached, hall⟩ := reached_start hp policy maxPasses
  obtain ⟨f', hreached', hall'⟩ := reached_start hp' policy maxPasses
  -- The state that a rule ends in is determined by the relations, not by the order.
  have hf : ∀ r ∈ p.rules, f' r = f r := fun r hr ↦
    (hall' r (h.rules.mem_iff.mp hr)).unique (rule?_of_mem hp' (h.rules.mem_iff.mp hr))
      (hsame.stateAfter (hall r hr))
  obtain ⟨hcompiler, hreport⟩ := resolve_start_cases p policy maxPasses
  obtain ⟨hcompiler', hreport'⟩ := resolve_start_cases p' policy maxPasses
  rw [← hresult] at hcompiler hreport
  rw [← hresult'] at hcompiler' hreport'
  have htracks := hreached.tracks
  have htracks' := hreached'.tracks
  refine ⟨?_, fun key ↦ ?_⟩
  · -- Both runs are stuck or neither is.
    have hpending := anyPending_reordered h.rules hf
    rw [htracks.states] at hreport htracks
    rw [htracks'.states, hpending] at hreport'
    rw [htracks'.states] at htracks'
    obtain ⟨hany, herror⟩ | ⟨hany, hok⟩ := hreport <;>
      obtain ⟨hany', herror'⟩ | ⟨hany', hok'⟩ := hreport'
    · rw [herror, herror']
      exact .error (kind_stuckError_reordered hsame h.rules hf htracks htracks' _ _)
    · cases hany.symm.trans hany'
    · cases hany.symm.trans hany'
    · rw [hok, hok']
      exact .ok (report_reordered hsame h.rules hp hp' hf hreached hreached'
        (anyPending_statesOf_eq_false.mp hany)
        (anyPending_statesOf_eq_false.mp (hpending.trans hany)))
  · rw [hcompiler, hcompiler']
    exact tracks_reordered hsame hf htracks htracks' key

end Resolution

end HornQuery
