import Mathlib
import HornQuery.Proofs.Visits

/-!
# What the programs of texts are made of

Whatever a draft holds stems from a clause that it has visited: a rule or a query is what some clause
means, a symbol was noted in one (`Program.StemsFrom`). If the clauses were read from a text, so were
the names in them. Names of variables and parameters then have the form that the reader takes them by,
and any other name could stand between quotes, on one line (`Program.written_of_parse`).
-/

namespace HornQuery

open Node

/-! ### Names -/

/-- The names in a term have the form in which they are read. -/
def Term.Written : Term → Prop
  | .var name => IsVarName name
  | .const text => IsQuotable text
  | .param name => IsParamName name

/-- The names in a goal have the form in which they are read. -/
structure Goal.Written (g : Goal) : Prop where
  functor : IsQuotable g.functor
  args : ∀ t ∈ g.args, t.Written

/-- The names in a rule have the form in which they are read, and something stands in its body. -/
structure Rule.Written (r : Rule) : Prop where
  head : (Goal.mk r.name r.head).Written
  nonempty : r.body ≠ []
  body : ∀ g ∈ r.body, g.Written

namespace Survey

variable {α β : Type}

/-- What a survey in two steps notes, one of the steps notes. -/
theorem mem_entries_bind {x : Survey α} {f : α → Survey β} {e : Entry} (h : e ∈ (x >>= f).entries) :
    e ∈ x.entries ∨ ∃ a, e ∈ (f a).entries := by
  obtain ⟨entries, _ | a⟩ := x
  · exact Or.inl h
  · exact (List.mem_append.mp h).imp_right fun he ↦ ⟨a, he⟩

/-- What a survey of several nodes notes, it notes of one of them. -/
theorem mem_entries_mapM {f : Node → Survey α} {nodes : List Node} {e : Entry}
    (h : e ∈ (nodes.mapM f).entries) : ∃ node ∈ nodes, e ∈ (f node).entries := by
  induction nodes with
  | nil => cases h
  | cons node nodes ih =>
    rw [List.mapM_cons] at h
    rcases mem_entries_bind h with he | ⟨_, he⟩
    · exact ⟨node, List.mem_cons_self, he⟩
    · rcases mem_entries_bind he with he | ⟨_, he⟩
      · obtain ⟨node', hnode', he⟩ := ih he
        exact ⟨node', List.mem_cons_of_mem _ hnode', he⟩
      · cases he

/-- A term that is surveyed from a term of the tree has its name in the form in which it was
read. -/
theorem term_written {role : Role} {node : Node} (hnode : node.IsTerm) {t : Term}
    (h : (term role node).result = .ok t) : t.Written := by
  cases hnode with
  | atom hquotable =>
    obtain rfl := Except.ok.inj h
    exact hquotable
  | var hname =>
    rw [term] at h
    split_ifs at h
    · cases h
    · obtain rfl := Except.ok.inj h
      exact hname
  | param hname =>
    rw [term] at h
    split_ifs at h
    · obtain rfl := Except.ok.inj h
      exact hname
    · cases h
  | compound _ _ _ => cases h

/-- So has a goal, with all its arguments. -/
theorem goal_written {role : Role} {node : Node} (hnode : node.IsTerm) {g : Goal}
    (h : (goal role node).result = .ok g) : g.Written := by
  cases hnode with
  | atom hquotable =>
    obtain rfl := Except.ok.inj h
    exact ⟨hquotable, by simp⟩
  | compound hquotable _ hargs =>
    obtain ⟨terms, hterms, hrest, -⟩ := bind_eq_ok h
    obtain ⟨_, -, hpure, -⟩ := bind_eq_ok hrest
    obtain rfl := Except.ok.inj hpure
    refine ⟨hquotable, fun t ht ↦ ?_⟩
    obtain ⟨node, hnode, hresult, -⟩ := (mapM_eq_ok hterms).2 t ht
    exact term_written (hargs node hnode) hresult
  | var _ => cases h
  | param _ => cases h

theorem goals_written {role : Role} {nodes : List Node} (hnodes : ∀ n ∈ nodes, n.IsTerm)
    {goals : List Goal} (h : (nodes.mapM (goal role)).result = .ok goals) : ∀ g ∈ goals, g.Written := by
  intro g hg
  obtain ⟨node, hnode, hresult, -⟩ := (mapM_eq_ok h).2 g hg
  exact goal_written (hnodes node hnode) hresult

/-- The rule that a well-formed clause means has names in the form in which they are read. -/
theorem rule_written {node : Node} (hnode : node.WellFormed) {r : Rule}
    (h : (clause node).result = .ok (.rule r)) : r.Written := by
  cases hnode with
  | rule hhead hne hbody =>
    obtain ⟨r', hr, hpure, -⟩ := bind_eq_ok h
    obtain rfl := Item.rule.inj (Except.ok.inj hpure)
    obtain ⟨g, hg, hrest, -⟩ := bind_eq_ok hr
    obtain ⟨goals, hgoals, hpure, -⟩ := bind_eq_ok hrest
    obtain rfl := Except.ok.inj hpure
    refine ⟨goal_written hhead hg, fun hnil ↦ hne ?_, goals_written hbody hgoals⟩
    obtain rfl : goals = [] := hnil
    exact List.eq_nil_of_length_eq_zero (mapM_eq_ok hgoals).1.symm
  | comment _ => cases h
  | query _ _ =>
    obtain ⟨_, -, hpure, -⟩ := bind_eq_ok h
    cases hpure
  | fact _ =>
    obtain ⟨_, -, hpure, -⟩ := bind_eq_ok h
    cases hpure

/-- The query that a well-formed clause means has names in the form in which they are read. -/
theorem query_written {node : Node} (hnode : node.WellFormed) {q : Query}
    (h : (clause node).result = .ok (.query q)) : ∀ g ∈ q.goals, g.Written := by
  cases hnode with
  | query _ hgoals =>
    obtain ⟨q', hq, hpure, -⟩ := bind_eq_ok h
    obtain rfl := Item.query.inj (Except.ok.inj hpure)
    obtain ⟨goals, hresult, hpure, -⟩ := bind_eq_ok hq
    obtain rfl := Except.ok.inj hpure
    exact goals_written hgoals hresult
  | comment _ => cases h
  | rule _ _ _ =>
    obtain ⟨_, -, hpure, -⟩ := bind_eq_ok h
    cases hpure
  | fact _ =>
    obtain ⟨_, -, hpure, -⟩ := bind_eq_ok h
    cases hpure

/-! ### Symbols -/

/-- A symbol that is noted of a term could be written in quotes. -/
theorem term_quotable {role : Role} {node : Node} (hnode : node.IsTerm) {s : Symbol}
    (h : .symbol s ∈ (term role node).entries) : IsQuotable s.text := by
  cases hnode with
  | atom hquotable =>
    rcases mem_entries_bind h with h | ⟨_, h⟩
    · obtain rfl := Entry.symbol.inj (List.mem_singleton.mp h)
      exact hquotable
    · cases h
  | var hname =>
    rw [term] at h
    split_ifs at h
    · cases h
    · rcases mem_entries_bind h with h | ⟨_, h⟩
      · cases List.mem_singleton.mp h
      · cases h
  | param hname =>
    rw [term] at h
    split_ifs at h <;> cases h
  | compound _ _ _ => cases h

theorem goal_quotable {role : Role} {node : Node} (hnode : node.IsTerm) {s : Symbol}
    (h : .symbol s ∈ (goal role node).entries) : IsQuotable s.text := by
  cases hnode with
  | atom hquotable =>
    rcases mem_entries_bind h with h | ⟨_, h⟩
    · obtain rfl := Entry.symbol.inj (List.mem_singleton.mp h)
      exact hquotable
    · rcases mem_entries_bind h with h | ⟨_, h⟩
      · cases List.mem_singleton.mp h
      · cases h
  | compound _ _ hargs =>
    rcases mem_entries_bind h with h | ⟨_, h⟩
    · obtain ⟨node, hnode, he⟩ := mem_entries_mapM h
      exact term_quotable (hargs node hnode) he
    · rcases mem_entries_bind h with h | ⟨_, h⟩
      · cases List.mem_singleton.mp h
      · cases h
  | var _ => cases h
  | param _ => cases h

theorem fact_quotable {node : Node} (hnode : node.IsTerm) {s : Symbol}
    (h : .symbol s ∈ (fact node).entries) : IsQuotable s.text := by
  have hgoal : ∀ {α : Type} {f : Goal → Survey α}, (∀ g, (f g).entries = []) →
      .symbol s ∈ (goal .fact node >>= f).entries → IsQuotable s.text := by
    intro α f hf h
    rcases mem_entries_bind h with h | ⟨g, h⟩
    · exact goal_quotable hnode h
    · rw [hf] at h
      cases h
  cases hnode with
  | compound hquotable _ _ =>
    rcases mem_entries_bind h with h | ⟨_, h⟩
    · obtain rfl := Entry.symbol.inj (List.mem_singleton.mp h)
      exact hquotable
    · exact hgoal (fun _ ↦ rfl) h
  | atom _ => exact hgoal (fun _ ↦ rfl) h
  | var _ => exact hgoal (fun _ ↦ rfl) h
  | param _ => exact hgoal (fun _ ↦ rfl) h

/-- The same holds of all goals. -/
theorem goals_quotable {role : Role} {nodes : List Node} (hnodes : ∀ n ∈ nodes, n.IsTerm)
    {s : Symbol} (h : .symbol s ∈ (nodes.mapM (goal role)).entries) : IsQuotable s.text := by
  obtain ⟨node, hnode, he⟩ := mem_entries_mapM h
  exact goal_quotable (hnodes node hnode) he

/-- A symbol noted in a well-formed clause could stand between quotes, whether or not the clause is
refused. -/
theorem clause_quotable {node : Node} (hnode : node.WellFormed) {s : Symbol}
    (h : .symbol s ∈ (clause node).entries) : IsQuotable s.text := by
  cases hnode with
  | comment _ => cases h
  | query _ hgoals =>
    rcases mem_entries_bind h with h | ⟨_, h⟩
    · rcases mem_entries_bind h with h | ⟨_, h⟩
      · exact goals_quotable hgoals h
      · cases h
    · cases h
  | rule hhead _ hbody =>
    rcases mem_entries_bind h with h | ⟨_, h⟩
    · rcases mem_entries_bind h with h | ⟨_, h⟩
      · exact goal_quotable hhead h
      · rcases mem_entries_bind h with h | ⟨_, h⟩
        · exact goals_quotable hbody h
        · cases h
    · cases h
  | fact hterm =>
    rcases mem_entries_bind h with h | ⟨_, h⟩
    · exact fact_quotable hterm h
    · cases h

end Survey

/-! ### Where the contents of a program stem from -/

/-- Symbols, rules and queries of the program all stem from the clauses. -/
structure Program.StemsFrom (p : Program) (clauses : List Located) : Prop where
  symbols : ∀ s ∈ p.symbols, ∃ c ∈ clauses, .symbol s ∈ (Survey.clause c.node).entries
  rules : ∀ r ∈ p.rules, ∃ c ∈ clauses, (Survey.clause c.node).result = .ok (.rule r)
  queries : ∀ q ∈ p.queries, ∃ c ∈ clauses, (Survey.clause c.node).result = .ok (.query q)

namespace Draft

open Survey (Item)

variable {d after : Draft} {clauses : List Located}

/-- Noting a clause adds symbols of that clause only. -/
theorem stemsFrom_noted (hd : d.program.StemsFrom clauses) (c : Located) :
    (d.noted c).program.StemsFrom (clauses ++ [c]) := by
  have hold : ∀ {P : Located → Prop}, (∃ c' ∈ clauses, P c') → ∃ c' ∈ clauses ++ [c], P c' := by
    rintro P ⟨c', hc', hP⟩
    exact ⟨c', List.mem_append_left _ hc', hP⟩
  rw [program_noted, Program.foldl_register_eq]
  refine ⟨fun s hs ↦ ?_, fun r hr ↦ hold (hd.rules r hr), fun q hq ↦ hold (hd.queries q hq)⟩
  rcases Distinct.mem_append.mp hs with hs | hs
  · exact hold (hd.symbols s hs)
  · exact ⟨c, by simp, Survey.mem_symbols.mp hs⟩

/-- Adding what a clause stands for adds nothing that is not from it. -/
theorem stemsFrom_add (hd : d.program.StemsFrom clauses) {c : Located} (hc : c ∈ clauses)
    {item : Item} (hitem : (Survey.clause c.node).result = .ok item) (h : d.add item = .ok after) :
    after.program.StemsFrom clauses := by
  cases item with
  | comment =>
    obtain rfl := Except.ok.inj h
    exact hd
  | fact f =>
    obtain rfl := Except.ok.inj h
    exact ⟨hd.symbols, hd.rules, hd.queries⟩
  | query q =>
    obtain rfl := Except.ok.inj h
    refine ⟨hd.symbols, hd.rules, fun q' hq' ↦ ?_⟩
    rcases List.mem_append.mp hq' with hq' | hq'
    · exact hd.queries q' hq'
    · obtain rfl := List.mem_singleton.mp hq'
      exact ⟨c, hc, hitem⟩
  | rule r =>
    rw [add] at h
    split_ifs at h
    obtain rfl := Except.ok.inj h
    refine ⟨hd.symbols, fun r' hr' ↦ ?_, hd.queries⟩
    rcases List.mem_append.mp hr' with hr' | hr'
    · exact hd.rules r' hr'
    · obtain rfl := List.mem_singleton.mp hr'
      exact ⟨c, hc, hitem⟩

/-- So after a visit, everything stems from the clauses before and this one. -/
theorem stemsFrom_visit (hd : d.program.StemsFrom clauses) (c : Located) :
    (d.visit c).1.program.StemsFrom (clauses ++ [c]) := by
  obtain ⟨fault, heq⟩ | ⟨item, after, hitem, hadd, heq⟩ := d.visit_cases c <;> rw [heq]
  · exact stemsFrom_noted hd c
  · exact stemsFrom_add (stemsFrom_noted hd c) (by simp) hitem hadd

/-- And after visits to more clauses, from those too. -/
theorem stemsFrom_visits (hd : d.program.StemsFrom clauses) (more : List Located) :
    (d.visits more).program.StemsFrom (clauses ++ more) := by
  induction more generalizing d clauses with
  | nil => rwa [List.append_nil]
  | cons c more ih =>
    have hnext := ih (stemsFrom_visit hd c)
    rwa [List.append_assoc] at hnext

end Draft

/-- The names in a program have the form in which they are read. -/
structure Program.Written (p : Program) : Prop where
  symbols : ∀ s ∈ p.symbols, IsQuotable s.text
  rules : ∀ r ∈ p.rules, r.Written
  queries : ∀ q ∈ p.queries, ∀ g ∈ q.goals, g.Written

/-- The names in a program that was read from a text have the form in which they are read. -/
theorem Program.written_of_parse {source : String} {parsed : Parsed}
    (h : Program.parse source = .ok parsed) : parsed.program.Written := by
  obtain ⟨tree, htree, heq⟩ := Program.parse_eq_ok h
  have hwell : ∀ c ∈ tree, c.node.WellFormed := parseTree_wellFormed htree
  have hstems : parsed.program.StemsFrom tree := by
    have hempty : ({ source } : Draft).program.StemsFrom [] := ⟨by simp, by simp, by simp⟩
    rw [heq]
    exact Draft.stemsFrom_visits hempty tree
  refine ⟨fun s hs ↦ ?_, fun r hr ↦ ?_, fun q hq ↦ ?_⟩
  · obtain ⟨c, hc, hnoted⟩ := hstems.symbols s hs
    exact Survey.clause_quotable (hwell c hc) hnoted
  · obtain ⟨c, hc, hresult⟩ := hstems.rules r hr
    exact Survey.rule_written (hwell c hc) hresult
  · obtain ⟨c, hc, hresult⟩ := hstems.queries q hq
    exact Survey.query_written (hwell c hc) hresult

end HornQuery
