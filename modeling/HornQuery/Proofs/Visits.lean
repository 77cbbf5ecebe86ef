import Mathlib
import HornQuery.Proofs.Levels

/-!
# Programs stay whole, whatever is visited

A draft may visit any nodes, also ones that no reader builds, and it goes on after a refusal. A refusal
may strike in the middle of a clause, when some of what the clause mentions has been registered
already. The program it holds is whole all the same (`Draft.visits_whole`): whatever facts, rules and
queries mention is listed, facts stand for their relations, and each rule is found under its name and
arity.

Two facts carry this. A survey notes what it returns, variables included (`Survey.clause_noted`), and
registration comes before anything is added. And a visit only ever appends (`Draft.extends_visit`), so
that what has been found once stays found.
-/

namespace HornQuery

/-! ### What surveys note -/

namespace Survey

variable {α β : Type}

/-- A step that goes through leaves its entries in front of those of the next step. -/
theorem entries_bind {x : Survey α} {a : α} (h : x.result = .ok a) (f : α → Survey β) :
    (x >>= f).entries = x.entries ++ (f a).entries := by
  obtain ⟨entries, result⟩ := x
  obtain rfl : result = .ok a := h
  rfl

/-- What one of several nodes notes, all of them together note. -/
theorem entries_mapM {f : Node → Survey α} {nodes : List Node} {found : List α}
    (h : (nodes.mapM f).result = .ok found) {a : α} (ha : a ∈ found) :
    ∃ node ∈ nodes, (f node).result = .ok a ∧ (f node).entries ⊆ (nodes.mapM f).entries := by
  induction nodes generalizing found with
  | nil =>
    obtain rfl : [] = found := Except.ok.inj h
    exact absurd ha List.not_mem_nil
  | cons node nodes ih =>
    rw [List.mapM_cons] at h ⊢
    obtain ⟨first, hfirst, hrest, -⟩ := bind_eq_ok h
    obtain ⟨others, hothers, hpure, -⟩ := bind_eq_ok hrest
    obtain rfl : first :: others = found := Except.ok.inj hpure
    rw [entries_bind hfirst, entries_bind hothers]
    rcases List.mem_cons.mp ha with rfl | ha
    · exact ⟨node, List.mem_cons_self, hfirst, List.subset_append_left _ _⟩
    · obtain ⟨node', hnode', hresult, hsub⟩ := ih hothers ha
      refine ⟨node', List.mem_cons_of_mem _ hnode', hresult, fun e he ↦ ?_⟩
      exact List.mem_append_right _ (List.mem_append_left _ (hsub he))

/-- A variable that becomes a term has been noted. -/
theorem term_noted {role : Role} {node : Node} {x : String}
    (h : (term role node).result = .ok (.var x)) : .var x ∈ (term role node).entries := by
  cases node with
  | var name =>
    by_cases hrole : role = .fact
    · simp [term, hrole, refuse] at h
    · simp only [term, hrole, if_false] at h ⊢
      obtain rfl := Term.var.inj (Except.ok.inj h)
      exact List.mem_append_left _ List.mem_cons_self
  | param name =>
    by_cases hrole : role = .query
    · simp only [term, hrole, if_true] at h
      cases h
    · simp [term, hrole, refuse] at h
  | atom text => cases h
  | comment _ => cases h
  | query _ _ => cases h
  | rule _ _ => cases h
  | fact _ => cases h
  | compound _ _ => cases h

/-- The variables of a goal have been noted, one by one. -/
theorem goal_noted {role : Role} {node : Node} {g : Goal} (h : (goal role node).result = .ok g)
    {x : String} (hx : .var x ∈ g.args) : .var x ∈ (goal role node).entries := by
  cases node with
  | compound name args =>
    obtain ⟨terms, hterms, hrest, -⟩ := bind_eq_ok h
    obtain ⟨_, -, hpure, -⟩ := bind_eq_ok hrest
    obtain rfl : Goal.mk name terms = g := Except.ok.inj hpure
    obtain ⟨node, -, hnode, hsub⟩ := entries_mapM hterms hx
    rw [goal, entries_bind hterms]
    exact List.mem_append_left _ (hsub (term_noted hnode))
  | atom name =>
    obtain rfl : Goal.mk name [] = g := Except.ok.inj h
    exact absurd hx List.not_mem_nil
  | comment _ => cases h
  | query _ _ => cases h
  | rule _ _ => cases h
  | fact _ => cases h
  | var _ => cases h
  | param _ => cases h

/-- Goals that go through together note the variables of each. -/
theorem goals_noted {role : Role} {nodes : List Node} {goals : List Goal}
    (h : (nodes.mapM (goal role)).result = .ok goals) {x : String}
    (hx : .var x ∈ goals.flatMap Goal.args) : .var x ∈ (nodes.mapM (goal role)).entries := by
  obtain ⟨g, hg, hx⟩ := List.mem_flatMap.mp hx
  obtain ⟨node, -, hnode, hsub⟩ := entries_mapM h hg
  exact hsub (goal_noted hnode hx)

/-- The terms of what a clause contributes, facts apart. -/
def Item.terms : Item → List Term
  | .rule r => r.terms
  | .query q => q.goals.flatMap Goal.args
  | _ => []

/-- A clause notes every variable of the rule or query that it is. -/
theorem clause_noted {node : Node} {item : Item} (h : (clause node).result = .ok item) {x : String}
    (hx : .var x ∈ item.terms) : .var x ∈ (clause node).entries := by
  cases node with
  | comment text =>
    obtain rfl : Item.comment = item := Except.ok.inj h
    exact absurd hx List.not_mem_nil
  | query nodes text =>
    obtain ⟨q, hq, hpure, -⟩ := bind_eq_ok h
    obtain rfl : Item.query q = item := Except.ok.inj hpure
    obtain ⟨goals, hgoals, hpure, -⟩ := bind_eq_ok hq
    obtain rfl : Query.mk goals text = q := Except.ok.inj hpure
    rw [clause, entries_bind hq, query, entries_bind hgoals]
    exact List.mem_append_left _ (List.mem_append_left _ (goals_noted hgoals hx))
  | rule head body =>
    obtain ⟨r, hr, hpure, -⟩ := bind_eq_ok h
    obtain rfl : Item.rule r = item := Except.ok.inj hpure
    obtain ⟨g, hg, hrest, -⟩ := bind_eq_ok hr
    obtain ⟨goals, hgoals, hpure, -⟩ := bind_eq_ok hrest
    obtain rfl : Rule.mk g.functor g.args goals = r := Except.ok.inj hpure
    rw [clause, entries_bind hr, rule, entries_bind hg, entries_bind hgoals]
    refine List.mem_append_left _ ?_
    rcases List.mem_append.mp hx with hx | hx
    · exact List.mem_append_left _ (goal_noted hg hx)
    · exact List.mem_append_right _ (List.mem_append_left _ (goals_noted hgoals hx))
  | fact node =>
    -- A fact is ground, so no variable is among its terms.
    obtain ⟨f, -, hpure, -⟩ := bind_eq_ok h
    obtain rfl : Item.fact f = item := Except.ok.inj hpure
    exact absurd hx List.not_mem_nil
  | compound _ _ => cases h
  | atom _ => cases h
  | var _ => cases h
  | param _ => cases h

end Survey

/-! ### What a visit changes -/

namespace Program

/-- The terms of the rules and queries. -/
def terms (p : Program) : List Term :=
  p.rules.flatMap Rule.terms ++ p.queries.flatMap fun q ↦ q.goals.flatMap Goal.args

/-- More may have been mentioned in `p'`, but it says what `p` says. -/
structure Mentions (p p' : Program) : Prop where
  symbols : p.symbols <+: p'.symbols
  vars : p.vars <+: p'.vars
  occurrences : p.occurrences <+: p'.occurrences
  facts : p'.facts = p.facts
  relations : p'.relations = p.relations
  rules : p'.rules = p.rules
  queries : p'.queries = p.queries

/-- Nothing of `p` is lost, moved or replaced in `p'`. -/
structure Extends (p p' : Program) : Prop where
  symbols : p.symbols <+: p'.symbols
  vars : p.vars <+: p'.vars
  occurrences : p.occurrences <+: p'.occurrences
  facts : p.facts <+: p'.facts
  relations : p.relations <+: p'.relations
  rules : p.rules <+: p'.rules
  queries : p.queries <+: p'.queries

variable {p p' p'' : Program}

theorem Extends.refl (p : Program) : p.Extends p :=
  ⟨List.prefix_rfl, List.prefix_rfl, List.prefix_rfl, List.prefix_rfl, List.prefix_rfl,
    List.prefix_rfl, List.prefix_rfl⟩

theorem Extends.trans (h : p.Extends p') (h' : p'.Extends p'') : p.Extends p'' :=
  ⟨h.symbols.trans h'.symbols, h.vars.trans h'.vars, h.occurrences.trans h'.occurrences,
    h.facts.trans h'.facts, h.relations.trans h'.relations, h.rules.trans h'.rules,
    h.queries.trans h'.queries⟩

/-- Mentioning more loses nothing. -/
theorem Mentions.extends (h : p.Mentions p') : p.Extends p' :=
  ⟨h.symbols, h.vars, h.occurrences, h.facts ▸ List.prefix_rfl, h.relations ▸ List.prefix_rfl,
    h.rules ▸ List.prefix_rfl, h.queries ▸ List.prefix_rfl⟩

/-- The rule for a key stays the rule for that key. -/
theorem Extends.rule? (h : p.Extends p') {key : Symbol} {r : Rule} (hr : p.rule? key = some r) :
    p'.rule? key = some r := by
  obtain ⟨more, hmore⟩ := h.rules
  rw [Program.rule?, ← hmore, List.find?_append, ← Program.rule?, hr, Option.some_or]

/-- Registering what a clause mentions adds nothing but symbols and variables. -/
theorem mentions_register (p : Program) (entries : List Entry) :
    p.Mentions (entries.foldl Program.register p) := by
  rw [foldl_register_eq]
  exact ⟨Distinct.isPrefix_append _ _, Distinct.isPrefix_append _ _, List.prefix_append _ _, rfl, rfl,
    rfl, rfl⟩

end Program

namespace Draft

open Survey (Item)

variable {d after : Draft}

/-- What a clause means goes to the end of the facts, rules or queries. -/
theorem add_eq_ok {item : Item} (h : d.add item = .ok after) :
    d.program.Extends after.program ∧ after.program.vars = d.program.vars ∧
      ∀ t ∈ after.program.terms, t ∈ d.program.terms ∨ t ∈ item.terms := by
  cases item with
  | comment =>
    obtain rfl := Except.ok.inj h
    exact ⟨.refl _, rfl, fun t ht ↦ Or.inl ht⟩
  | query q =>
    obtain rfl := Except.ok.inj h
    refine ⟨{ Program.Extends.refl d.program with queries := List.prefix_append _ _ }, rfl,
      fun t ht ↦ ?_⟩
    simpa [Program.terms, Item.terms, or_assoc] using ht
  | fact f =>
    obtain rfl := Except.ok.inj h
    exact ⟨{ Program.Extends.refl d.program with
        facts := List.prefix_append _ _
        relations := Distinct.isPrefix_insert _ _ }, rfl, fun t ht ↦ Or.inl ht⟩
  | rule r =>
    rw [add] at h
    split at h
    · cases h
    · obtain rfl := Except.ok.inj h
      refine ⟨{ Program.Extends.refl d.program with rules := List.prefix_append _ _ }, rfl,
        fun t ht ↦ ?_⟩
      simp only [Program.terms, List.flatMap_append, List.flatMap_singleton, List.mem_append] at ht
      simp only [Program.terms, Item.terms, List.mem_append]
      tauto

/-- A visit loses nothing, whether the clause is accepted or refused. -/
theorem extends_visit (d : Draft) (c : Located) : d.program.Extends (d.visit c).1.program := by
  have hnoted : d.program.Extends (d.noted c).program := (d.program.mentions_register _).extends
  obtain ⟨fault, heq⟩ | ⟨item, after, -, hadd, heq⟩ := d.visit_cases c <;> rw [heq]
  · exact hnoted
  · exact hnoted.trans (add_eq_ok hadd).1

/-- So do visits to any clauses. -/
theorem extends_visits (d : Draft) (clauses : List Located) :
    d.program.Extends (d.visits clauses).program := by
  induction clauses generalizing d with
  | nil => exact .refl _
  | cons c clauses ih => exact (d.extends_visit c).trans (ih (d.visit c).1)

/-- A clause that is refused changes nothing but what is mentioned. -/
theorem mentions_visit_of_fault {c : Located} {e : ParseError} (h : (d.visit c).2 = some e) :
    d.program.Mentions (d.visit c).1.program := by
  rw [(visit_eq_some h).1]
  exact d.program.mentions_register _

/-! ### Variables -/

/-- Every variable of a rule or query is listed. -/
def ListsVars (d : Draft) : Prop :=
  ∀ x, .var x ∈ d.program.terms → x ∈ d.program.vars

/-- A visit lists the variables of what it adds. -/
theorem ListsVars.visit (hd : d.ListsVars) (c : Located) : (d.visit c).1.ListsVars := by
  have hvars : (d.noted c).program.vars =
      Distinct.append d.program.vars ((Survey.clause c.node).entries.filterMap Entry.var?) := by
    rw [program_noted, Program.foldl_register_eq]
  have hterms : (d.noted c).program.terms = d.program.terms := by
    rw [program_noted, Program.foldl_register_eq, Program.terms, Program.terms]
  -- Old variables stay listed, and those of the clause are registered before anything is added.
  have hold : ∀ x, .var x ∈ d.program.terms → x ∈ (d.noted c).program.vars := by
    intro x hx
    rw [hvars]
    exact Distinct.mem_append.mpr (Or.inl (hd x hx))
  obtain ⟨fault, heq⟩ | ⟨item, after, hitem, hadd, heq⟩ := d.visit_cases c <;> rw [heq]
  · intro x hx
    rw [hterms] at hx
    exact hold x hx
  · obtain ⟨-, hsame, hsplit⟩ := add_eq_ok hadd
    intro x hx
    show x ∈ after.program.vars
    rw [hsame]
    rcases hsplit _ hx with hx | hx
    · rw [hterms] at hx
      exact hold x hx
    · rw [hvars]
      refine Distinct.mem_append.mpr (Or.inr ?_)
      exact List.mem_filterMap.mpr ⟨_, Survey.clause_noted hitem hx, rfl⟩

/-- So all variables are listed after any visits. -/
theorem ListsVars.visits (hd : d.ListsVars) (clauses : List Located) :
    (d.visits clauses).ListsVars := by
  induction clauses generalizing d with
  | nil => exact hd
  | cons c clauses ih => exact ih (hd.visit c)

end Draft

/-! ### Whole programs -/

/-- What a program mentions is listed, and it can be looked up. -/
structure Program.Whole (p : Program) : Prop where
  /-- The relation and the constants of a fact are symbols. -/
  facts : ∀ f ∈ p.facts, f.symbol ∈ p.symbols ∧ ∀ a ∈ f.args, .constant a ∈ p.symbols
  /-- The relations noted are those of the facts, each once. -/
  relations : p.relations.Nodup ∧ ∀ s, s ∈ p.relations ↔ ∃ f ∈ p.facts, f.symbol = s
  /-- The constants of rules and queries are symbols. -/
  constants : ∀ text, .const text ∈ p.terms → .constant text ∈ p.symbols
  /-- The variables of rules and queries are listed. -/
  vars : ∀ x, .var x ∈ p.terms → x ∈ p.vars
  /-- Rules have no parameters. -/
  params : ∀ r ∈ p.rules, ∀ name, .param name ∉ r.terms
  /-- A rule is found under its name and the length of its head. -/
  rules : ∀ r ∈ p.rules, p.rule? ⟨r.name, r.head.length⟩ = some r

/-- A closed program whose variables are listed is whole. -/
theorem Program.Closed.whole {p : Program} (h : p.Closed)
    (hvars : ∀ x, .var x ∈ p.terms → x ∈ p.vars) : p.Whole where
  facts := h.facts
  relations := ⟨h.relations_nodup, h.relations⟩
  constants := fun text ht ↦ by
    rcases List.mem_append.mp ht with ht | ht
    · obtain ⟨r, hr, ht⟩ := List.mem_flatMap.mp ht
      exact (h.rules r hr _ ht).1 text rfl
    · obtain ⟨q, hq, ht⟩ := List.mem_flatMap.mp ht
      obtain ⟨g, hg, ht⟩ := List.mem_flatMap.mp ht
      exact h.queries q hq g hg _ ht text rfl
  vars := hvars
  params := fun r hr name ht ↦ by simpa [Term.isParam] using (h.rules r hr _ ht).2
  rules := fun _ hr ↦ rule?_of_mem h hr

namespace Draft

/-- Visits to more clauses go on from where the first ones ended. -/
theorem visits_append (d : Draft) (clauses later : List Located) :
    d.visits (clauses ++ later) = (d.visits clauses).visits later :=
  List.foldl_append

/-- **A program stays whole, whatever is visited.** Visit any clauses of any text, going on where one is
refused. The program is then whole. A further clause that is refused is refused at its place, leaves
facts, relations, rules and queries as they are and can only add to what is mentioned, and no later visit
replaces a rule. -/
theorem visits_whole (source : String) (clauses : List Located) :
    (visits { source } clauses).program.Whole ∧
      (∀ c e, ((visits { source } clauses).visit c).2 = some e →
        (∃ fault, e = .ofOffset source c.offset fault) ∧
          (visits { source } clauses).program.Mentions
            ((visits { source } clauses).visit c).1.program) ∧
      ∀ later key r, (visits { source } clauses).program.rule? key = some r →
        (visits { source } (clauses ++ later)).program.rule? key = some r := by
  have hvars : (visits { source } clauses).ListsVars :=
    ListsVars.visits (fun x hx ↦ absurd hx List.not_mem_nil) clauses
  have hclosed : (visits { source } clauses).program.Closed :=
    closed_visits Program.Closed.empty clauses
  refine ⟨hclosed.whole hvars, fun c e h ↦ ⟨?_, mentions_visit_of_fault h⟩, fun later key r hr ↦ ?_⟩
  · obtain ⟨-, fault, he⟩ := visit_eq_some h
    rw [source_visits] at he
    exact ⟨fault, he⟩
  · rw [visits_append]
    exact (extends_visits _ later).rule? hr

/-- The second rule for `step` is refused at its end, when the constant and the variable in it have been
registered. The first rule stays, and so does the one relation. -/
theorem visits_whole_refused :
    let source := "edge(a, b). step(X) :- edge(X, Y). step(Z) :- edge(Z, c)."
    let clauses : List Located :=
      [⟨0, .fact (.compound "edge" [.atom "a", .atom "b"])⟩,
        ⟨12, .rule (.compound "step" [.var "X"]) [.compound "edge" [.var "X", .var "Y"]]⟩]
    let again : Located :=
      ⟨35, .rule (.compound "step" [.var "Z"]) [.compound "edge" [.var "Z", .atom "c"]]⟩
    let step : Rule := ⟨"step", [.var "X"], [⟨"edge", [.var "X", .var "Y"]⟩]⟩
    ((visits { source } clauses).visit again).2 =
        some ⟨.repeatedRule ⟨"step", 1⟩, ⟨35, 1, 36⟩⟩ ∧
      ((visits { source } clauses).visit again).1.program.symbols =
        [⟨"edge", 2⟩, .constant "a", .constant "b", .constant "c"] ∧
      ((visits { source } clauses).visit again).1.program.vars = ["X", "Y", "Z"] ∧
      ((visits { source } clauses).visit again).1.program.relations = [⟨"edge", 2⟩] ∧
      ((visits { source } clauses).visit again).1.program.rules = [step] ∧
      (visits { source } (clauses ++ [again])).program.rule? ⟨"step", 1⟩ = some step := by
  intro source clauses again step
  obtain ⟨-, hrefused, hkept⟩ := visits_whole source clauses
  have hfault : ((visits { source } clauses).visit again).2 =
      some ⟨.repeatedRule ⟨"step", 1⟩, ⟨35, 1, 36⟩⟩ := by decide +kernel
  obtain ⟨-, hmentions⟩ := hrefused again _ hfault
  exact ⟨hfault, by decide +kernel, by decide +kernel,
    hmentions.relations.trans (by decide +kernel), hmentions.rules.trans (by decide +kernel),
    hkept [again] _ _ (by decide +kernel)⟩

end Draft

end HornQuery
