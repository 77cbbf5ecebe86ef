import Mathlib
import HornQuery.Program.Draft
import HornQuery.Proofs.Grammar

/-!
# Collected programs are closed

Whatever clauses a draft has visited, accepted or refused, the program it holds is closed: every
relation with facts and every constant of a fact, a rule or a query is among its symbols, the relations
noted for facts are those of the facts, nothing is listed twice, no two rules have the same key, and
rules hold no parameters (`Program.Closed`, `Program.Collected.closed`).

A program read from a text has one more property, which depends on the reader: a name is applied to
one argument at least, so a rule without arguments has its name among the constants
(`Program.rule_name_of_parse`).
-/

namespace HornQuery

/-! ### What a survey notes -/

/-- The symbol that an entry is about. -/
def Entry.symbol? : Entry → Option Symbol
  | .symbol s => some s
  | _ => none

/-- The variable that an entry is about. -/
def Entry.var? : Entry → Option String
  | .var name => some name
  | _ => none

/-- The application that an entry is about. -/
def Entry.occurrence? : Entry → Option (Symbol × List String)
  | .occurrence relation args => some (relation, args)
  | _ => none

namespace Survey

variable {α β : Type}

/-- The symbols that a survey notes. -/
def symbols (x : Survey α) : List Symbol := x.entries.filterMap Entry.symbol?

theorem mem_symbols {x : Survey α} {s : Symbol} : s ∈ x.symbols ↔ .symbol s ∈ x.entries := by
  constructor
  · intro h
    obtain ⟨e, he, heq⟩ := List.mem_filterMap.mp h
    cases e with
    | symbol s' =>
      obtain rfl := Option.some.inj heq
      exact he
    | var name => cases heq
    | occurrence relation args => cases heq
  · exact fun h ↦ List.mem_filterMap.mpr ⟨_, h, rfl⟩

/-- A survey that goes through has gone through its first step, and notes what both steps note. -/
theorem bind_eq_ok {x : Survey α} {f : α → Survey β} {b : β} (h : (x >>= f).result = .ok b) :
    ∃ a, x.result = .ok a ∧ (f a).result = .ok b ∧ (x >>= f).symbols = x.symbols ++ (f a).symbols := by
  rcases x with ⟨entries, _ | a⟩
  · cases h
  · exact ⟨a, rfl, h, List.filterMap_append⟩

/-- A survey of several nodes succeeds if each of them does, and collects the symbols of all of
them. -/
theorem mapM_eq_ok {f : Node → Survey α} {nodes : List Node} {found : List α}
    (h : (nodes.mapM f).result = .ok found) :
    found.length = nodes.length ∧ ∀ a ∈ found, ∃ node ∈ nodes, (f node).result = .ok a ∧
      ∀ s ∈ (f node).symbols, s ∈ (nodes.mapM f).symbols := by
  induction nodes generalizing found with
  | nil =>
    obtain rfl : [] = found := Except.ok.inj h
    exact ⟨rfl, fun a ha ↦ absurd ha List.not_mem_nil⟩
  | cons node nodes ih =>
    rw [List.mapM_cons] at h ⊢
    obtain ⟨a, ha, htail, hsymbols⟩ := bind_eq_ok h
    obtain ⟨as, has, hpure, hrest⟩ := bind_eq_ok htail
    obtain rfl : a :: as = found := Except.ok.inj hpure
    obtain ⟨hlength, hmem⟩ := ih has
    rw [hsymbols, hrest]
    refine ⟨by simp [hlength], fun a' ha' ↦ ?_⟩
    rcases List.mem_cons.mp ha' with rfl | ha'
    · exact ⟨node, List.mem_cons_self, ha, fun s hs ↦ List.mem_append_left _ hs⟩
    · obtain ⟨node', hnode', hresult, hsub⟩ := hmem a' ha'
      exact ⟨node', List.mem_cons_of_mem _ hnode', hresult, fun s hs ↦
        List.mem_append_right _ (List.mem_append_left _ (hsub s hs))⟩

end Survey

/-! ### What a program has to know -/

/-- If the term is a constant, it is among the symbols. -/
def Term.Known (symbols : List Symbol) (t : Term) : Prop :=
  ∀ text, t = .const text → .constant text ∈ symbols

theorem Term.known_var (symbols : List Symbol) (name : String) : (Term.var name).Known symbols := by
  rintro text ⟨⟩

theorem Term.known_param (symbols : List Symbol) (name : String) :
    (Term.param name).Known symbols := by
  rintro text ⟨⟩

theorem Term.known_const {symbols : List Symbol} {text : String} :
    (Term.const text).Known symbols ↔ .constant text ∈ symbols :=
  ⟨fun h ↦ h text rfl, fun h _ heq ↦ Term.const.inj heq ▸ h⟩

/-- The relation and the constants of a fact are among the symbols. -/
def Fact.Known (symbols : List Symbol) (f : Fact) : Prop :=
  f.symbol ∈ symbols ∧ ∀ a ∈ f.args, .constant a ∈ symbols

/-- All terms of a rule. -/
def Rule.terms (r : Rule) : List Term := r.head ++ r.body.flatMap Goal.args

/-- The constants of a rule are among the symbols, and it has no parameters. -/
def Rule.Known (symbols : List Symbol) (r : Rule) : Prop :=
  ∀ t ∈ r.terms, t.Known symbols ∧ t.isParam = false

/-- The constants of a query are among the symbols. -/
def Query.Known (symbols : List Symbol) (q : Query) : Prop :=
  ∀ g ∈ q.goals, ∀ t ∈ g.args, t.Known symbols

/-- The program lists what it mentions, once, and has one rule for each key. -/
structure Program.Closed (p : Program) : Prop where
  symbols_nodup : p.symbols.Nodup
  keys_nodup : (p.rules.map Rule.key).Nodup
  relations_nodup : p.relations.Nodup
  relations : ∀ s, s ∈ p.relations ↔ ∃ f ∈ p.facts, f.symbol = s
  facts : ∀ f ∈ p.facts, f.Known p.symbols
  rules : ∀ r ∈ p.rules, r.Known p.symbols
  queries : ∀ q ∈ p.queries, q.Known p.symbols

/-! ### Deciding it -/

instance (symbols : List Symbol) : DecidablePred (Term.Known symbols)
  | .var name => isTrue (Term.known_var symbols name)
  | .param name => isTrue (Term.known_param symbols name)
  | .const _ => decidable_of_iff _ Term.known_const.symm

instance (symbols : List Symbol) : DecidablePred (Fact.Known symbols) := fun f ↦
  inferInstanceAs (Decidable (f.symbol ∈ symbols ∧ ∀ a ∈ f.args, .constant a ∈ symbols))

instance (symbols : List Symbol) : DecidablePred (Rule.Known symbols) := fun r ↦
  inferInstanceAs (Decidable (∀ t ∈ r.terms, t.Known symbols ∧ t.isParam = false))

instance (symbols : List Symbol) : DecidablePred (Query.Known symbols) := fun q ↦
  inferInstanceAs (Decidable (∀ g ∈ q.goals, ∀ t ∈ g.args, t.Known symbols))

/-- To be closed is to pass finitely many tests. -/
theorem Program.closed_iff (p : Program) : p.Closed ↔
    p.symbols.Nodup ∧ (p.rules.map Rule.key).Nodup ∧ p.relations.Nodup ∧
      (∀ s ∈ p.relations, ∃ f ∈ p.facts, f.symbol = s) ∧
      (∀ f ∈ p.facts, f.symbol ∈ p.relations ∧ f.Known p.symbols) ∧
      (∀ r ∈ p.rules, r.Known p.symbols) ∧ ∀ q ∈ p.queries, q.Known p.symbols := by
  constructor
  · rintro ⟨hsymbols, hkeys, hnodup, hrelations, hfacts, hrules, hqueries⟩
    exact ⟨hsymbols, hkeys, hnodup, fun s ↦ (hrelations s).mp,
      fun f hf ↦ ⟨(hrelations _).mpr ⟨f, hf, rfl⟩, hfacts f hf⟩, hrules, hqueries⟩
  · rintro ⟨hsymbols, hkeys, hnodup, hrelations, hfacts, hrules, hqueries⟩
    refine ⟨hsymbols, hkeys, hnodup, fun s ↦ ⟨hrelations s, ?_⟩, fun f hf ↦ (hfacts f hf).2, hrules,
      hqueries⟩
    rintro ⟨f, hf, rfl⟩
    exact (hfacts f hf).1

instance : DecidablePred Program.Closed := fun p ↦ decidable_of_iff _ p.closed_iff.symm

/-- Facts are looked up by what the program remembers of them, not by going through them. -/
theorem Program.hasFacts_iff {p : Program} {s : Symbol} : p.hasFacts s = true ↔ s ∈ p.relations := by
  simp [hasFacts]

/-- In a closed program a relation is noted exactly if it has a fact. -/
theorem Program.Closed.hasFacts_iff {p : Program} (hp : p.Closed) {s : Symbol} :
    p.hasFacts s = true ↔ ∃ f ∈ p.facts, f.symbol = s :=
  Program.hasFacts_iff.trans (hp.relations s)

/-! ### Surveys of clauses -/

/-- If the node applies a name, there is an argument. -/
def Node.Applied : Node → Prop
  | .compound _ args => args ≠ []
  | _ => True

/-- If the node is a rule and its head applies a name, there is an argument. -/
def Node.HeadApplied : Node → Prop
  | .rule head _ => head.Applied
  | _ => True

namespace Survey

/-- The constants of a term have been collected. Only queries have parameters, and facts have no
variables. -/
theorem term_eq_ok {role : Role} {node : Node} {t : Term} (h : (term role node).result = .ok t) :
    t.Known (term role node).symbols ∧ (role ≠ .query → t.isParam = false) ∧
      (role = .fact → t.isVar = false) := by
  cases node with
  | atom text =>
    obtain rfl : Term.const text = t := Except.ok.inj h
    refine ⟨Term.known_const.mpr ?_, fun _ ↦ rfl, fun _ ↦ rfl⟩
    exact mem_symbols.mpr (List.mem_append_left _ List.mem_cons_self)
  | var name =>
    by_cases hrole : role = .fact
    · simp [term, hrole, refuse] at h
    · obtain rfl : Term.var name = t := by
        simp only [term, hrole, if_false] at h
        exact Except.ok.inj h
      exact ⟨Term.known_var _ _, fun _ ↦ rfl, fun hfact ↦ absurd hfact hrole⟩
  | param name =>
    by_cases hrole : role = .query
    · obtain rfl : Term.param name = t := by
        simp only [term, hrole, if_true] at h
        exact Except.ok.inj h
      exact ⟨Term.known_param _ _, fun hne ↦ absurd hrole hne, fun _ ↦ rfl⟩
    · simp [term, hrole, refuse] at h
  -- None of the others is a term.
  | comment _ => cases h
  | query _ _ => cases h
  | rule _ _ => cases h
  | fact _ => cases h
  | compound _ _ => cases h

/-- A goal is a name that is applied to as many arguments as there are, or a name alone, which is
then noted as a constant. -/
theorem goal_eq_ok {role : Role} {node : Node} {g : Goal} (h : (goal role node).result = .ok g) :
    (∀ t ∈ g.args, t.Known (goal role node).symbols ∧ (role ≠ .query → t.isParam = false) ∧
        (role = .fact → t.isVar = false)) ∧
      ((∃ args, node = .compound g.functor args ∧ g.args.length = args.length) ∨
        (node = .atom g.functor ∧ g.args = [] ∧
          .constant g.functor ∈ (goal role node).symbols)) := by
  cases node with
  | compound name args =>
    obtain ⟨terms, hterms, hrest, hsymbols⟩ := bind_eq_ok h
    obtain ⟨_, -, hpure, -⟩ := bind_eq_ok hrest
    obtain rfl : Goal.mk name terms = g := Except.ok.inj hpure
    obtain ⟨hlength, hmem⟩ := mapM_eq_ok hterms
    refine ⟨fun t ht ↦ ?_, Or.inl ⟨args, rfl, hlength⟩⟩
    obtain ⟨node, -, hnode, hsub⟩ := hmem t ht
    obtain ⟨hknown, hparam, hvar⟩ := term_eq_ok hnode
    refine ⟨fun text heq ↦ ?_, hparam, hvar⟩
    show Symbol.constant text ∈ (goal role (.compound name args)).symbols
    rw [goal, hsymbols]
    exact List.mem_append_left _ (hsub _ (hknown text heq))
  | atom name =>
    obtain rfl : Goal.mk name [] = g := Except.ok.inj h
    refine ⟨fun t ht ↦ absurd ht List.not_mem_nil, Or.inr ⟨rfl, rfl, ?_⟩⟩
    exact mem_symbols.mpr (List.mem_append_left _ List.mem_cons_self)
  | comment _ => cases h
  | query _ _ => cases h
  | rule _ _ => cases h
  | fact _ => cases h
  | var _ => cases h
  | param _ => cases h

/-- A fact is a goal whose arguments are taken as texts. The relation of one with arguments is noted
on its own. -/
theorem fact_steps {node : Node} {f : Fact} (h : (fact node).result = .ok f) :
    ∃ g, (goal .fact node).result = .ok g ∧ f = ⟨g.functor, g.args.filterMap Term.constText?⟩ ∧
      (∀ s ∈ (goal .fact node).symbols, s ∈ (fact node).symbols) ∧
      ∀ name args, node = .compound name args → ⟨name, args.length⟩ ∈ (fact node).symbols := by
  -- Apart from what is noted first, a fact is surveyed as a goal whose constants are taken.
  have hplain : ∀ x : Survey Fact,
      x = (goal .fact node >>= fun g ↦ pure ⟨g.functor, g.args.filterMap Term.constText?⟩) →
      x.result = .ok f → ∃ g, (goal .fact node).result = .ok g ∧
        f = ⟨g.functor, g.args.filterMap Term.constText?⟩ ∧
        ∀ s ∈ (goal .fact node).symbols, s ∈ x.symbols := by
    rintro x rfl hx
    obtain ⟨g, hg, hpure, hsub⟩ := bind_eq_ok hx
    refine ⟨g, hg, (Except.ok.inj hpure).symm, fun s hs ↦ ?_⟩
    rw [hsub]
    exact List.mem_append_left _ hs
  cases node with
  | compound name args =>
    obtain ⟨_, -, hrest, hsymbols⟩ := bind_eq_ok (x := note (.symbol ⟨name, args.length⟩)) h
    obtain ⟨g, hg, hf, hsub⟩ := hplain _ rfl hrest
    refine ⟨g, hg, hf, fun s hs ↦ ?_, ?_⟩
    · rw [fact, hsymbols]
      exact List.mem_append_right _ (hsub s hs)
    · rintro _ _ ⟨⟩
      rw [fact, hsymbols]
      exact List.mem_append_left _ (mem_symbols.mpr List.mem_cons_self)
  | atom name =>
    obtain ⟨g, hg, hf, hsub⟩ := hplain _ rfl h
    exact ⟨g, hg, hf, hsub, fun _ _ heq ↦ nomatch heq⟩
  | comment _ => cases h
  | query _ _ => cases h
  | rule _ _ => cases h
  | fact _ => cases h
  | var _ => cases h
  | param _ => cases h

/-- The symbols of a fact have been collected along with it. -/
theorem fact_eq_ok {node : Node} {f : Fact} (h : (fact node).result = .ok f) :
    f.Known (fact node).symbols := by
  obtain ⟨g, hg, rfl, hmem, hrelation⟩ := fact_steps h
  obtain ⟨hargs, hshape⟩ := goal_eq_ok hg
  -- All arguments are constants, so none is lost.
  have hconst : ∀ t ∈ g.args, t.constText?.isSome = true := by
    intro t ht
    obtain ⟨-, hparam, hvar⟩ := hargs t ht
    cases t with
    | var name => exact absurd (hvar rfl) (by simp [Term.isVar, Term.varName?])
    | param name => exact absurd (hparam (by decide)) (by simp [Term.isParam])
    | const text => rfl
  have hlength : (g.args.filterMap Term.constText?).length = g.args.length :=
    List.filterMap_length_eq_length.mpr hconst
  refine ⟨?_, fun a ha ↦ ?_⟩
  · show Symbol.mk g.functor (g.args.filterMap Term.constText?).length ∈ _
    rw [hlength]
    rcases hshape with ⟨args, hnode, hargslength⟩ | ⟨-, hnil, hname⟩
    · rw [hargslength]
      exact hrelation _ _ hnode
    · rw [hnil]
      exact hmem _ hname
  · obtain ⟨t, ht, heq⟩ := List.mem_filterMap.mp ha
    cases t with
    | const text =>
      obtain rfl := Option.some.inj heq
      exact hmem _ ((hargs _ ht).1 _ rfl)
    | var name => cases heq
    | param name => cases heq

/-- The symbols of a rule have been collected. A rule without arguments has its name collected too,
unless it was written with parentheses. -/
theorem rule_eq_ok {head : Node} {body : List Node} {r : Rule}
    (h : (rule head body).result = .ok r) :
    r.Known (rule head body).symbols ∧
      (r.head = [] → head = .compound r.name [] ∨ .constant r.name ∈ (rule head body).symbols) := by
  obtain ⟨g, hg, hrest, hsymbols⟩ := bind_eq_ok h
  obtain ⟨goals, hgoals, hpure, hsub⟩ := bind_eq_ok hrest
  obtain rfl : Rule.mk g.functor g.args goals = r := Except.ok.inj hpure
  obtain ⟨hargs, hshape⟩ := goal_eq_ok hg
  obtain ⟨-, hbody⟩ := mapM_eq_ok hgoals
  rw [rule, hsymbols, hsub]
  refine ⟨fun t ht ↦ ?_, fun hnil ↦ ?_⟩
  · rcases List.mem_append.mp ht with ht | ht
    · obtain ⟨hknown, hparam, -⟩ := hargs t ht
      exact ⟨fun text heq ↦ List.mem_append_left _ (hknown text heq), hparam (by decide)⟩
    · obtain ⟨g', hg', ht⟩ := List.mem_flatMap.mp ht
      obtain ⟨node, -, hnode, hnoted⟩ := hbody g' hg'
      obtain ⟨hknown, hparam, -⟩ := (goal_eq_ok hnode).1 t ht
      exact ⟨fun text heq ↦ List.mem_append_right _
        (List.mem_append_left _ (hnoted _ (hknown text heq))), hparam (by decide)⟩
  · rcases hshape with ⟨args, rfl, hlength⟩ | ⟨rfl, -, hname⟩
    · have hargs : args = [] := List.eq_nil_of_length_eq_zero (by rw [← hlength]; simp_all)
      exact Or.inl (by rw [hargs])
    · exact Or.inr (List.mem_append_left _ hname)

/-- The symbols of a query have been collected. -/
theorem query_eq_ok {goals : List Node} {text : String} {q : Query}
    (h : (query goals text).result = .ok q) : q.Known (query goals text).symbols := by
  obtain ⟨gs, hgs, hpure, hsymbols⟩ := bind_eq_ok h
  obtain rfl : Query.mk gs text = q := Except.ok.inj hpure
  obtain ⟨-, hmem⟩ := mapM_eq_ok hgs
  rw [query, hsymbols]
  intro g hg t ht constant heq
  obtain ⟨node, -, hnode, hnoted⟩ := hmem g hg
  exact List.mem_append_left _ (hnoted _ (((goal_eq_ok hnode).1 t ht).1 constant heq))

/-- What a clause contributes is known once everything is registered that its survey noted. -/
def Item.Known (symbols : List Symbol) : Item → Prop
  | .comment => True
  | .query q => q.Known symbols
  | .rule r => r.Known symbols
  | .fact f => f.Known symbols

/-- Whatever a clause turns out to be, its symbols have been collected. -/
theorem clause_eq_ok {node : Node} {item : Item} (h : (clause node).result = .ok item) :
    item.Known (clause node).symbols := by
  cases node with
  | comment text =>
    obtain rfl : Item.comment = item := Except.ok.inj h
    trivial
  | query goals text =>
    obtain ⟨q, hq, hpure, hsymbols⟩ := bind_eq_ok h
    obtain rfl : Item.query q = item := Except.ok.inj hpure
    intro g hg t ht constant heq
    rw [clause, hsymbols]
    exact List.mem_append_left _ (query_eq_ok hq g hg t ht constant heq)
  | rule head body =>
    obtain ⟨r, hr, hpure, hsymbols⟩ := bind_eq_ok h
    obtain rfl : Item.rule r = item := Except.ok.inj hpure
    intro t ht
    obtain ⟨hknown, hparam⟩ := (rule_eq_ok hr).1 t ht
    rw [clause, hsymbols]
    exact ⟨fun text heq ↦ List.mem_append_left _ (hknown text heq), hparam⟩
  | fact node =>
    obtain ⟨f, hf, hpure, hsymbols⟩ := bind_eq_ok h
    obtain rfl : Item.fact f = item := Except.ok.inj hpure
    obtain ⟨hsymbol, hargs⟩ := fact_eq_ok hf
    rw [clause, hsymbols]
    exact ⟨List.mem_append_left _ hsymbol, fun a ha ↦ List.mem_append_left _ (hargs a ha)⟩
  | compound _ _ => cases h
  | atom _ => cases h
  | var _ => cases h
  | param _ => cases h

theorem clause_rule_name {node : Node} {r : Rule} (h : (clause node).result = .ok (.rule r))
    (hnode : node.HeadApplied) (hnil : r.head = []) : .constant r.name ∈ (clause node).symbols := by
  cases node with
  | rule head body =>
    obtain ⟨r', hr', hpure, hsymbols⟩ := bind_eq_ok h
    obtain rfl : r' = r := Item.rule.inj (Except.ok.inj hpure)
    rw [clause, hsymbols]
    rcases (rule_eq_ok hr').2 hnil with rfl | hname
    · exact absurd rfl hnode
    · exact List.mem_append_left _ hname
  | fact node =>
    obtain ⟨_, -, hpure, -⟩ := bind_eq_ok h
    cases hpure
  | query goals text =>
    obtain ⟨_, -, hpure, -⟩ := bind_eq_ok h
    cases hpure
  | comment _ => cases h
  | compound _ _ => cases h
  | atom _ => cases h
  | var _ => cases h
  | param _ => cases h

end Survey

/-! ### Visiting clauses -/

/-- Registering adds the symbols and variables that are new, and every application. -/
theorem Program.foldl_register_eq (entries : List Entry) (p : Program) :
    entries.foldl Program.register p =
      { p with
        symbols := Distinct.append p.symbols (entries.filterMap Entry.symbol?)
        vars := Distinct.append p.vars (entries.filterMap Entry.var?)
        occurrences := p.occurrences ++ entries.filterMap Entry.occurrence? } := by
  induction entries generalizing p with
  | nil => simp
  | cons e entries ih =>
    rw [List.foldl_cons, ih (p.register e)]
    cases e with
    | symbol s => rfl
    | var name => rfl
    | occurrence relation args =>
      simp only [Program.register, List.append_assoc]
      rfl

/-- Registering adds the symbols noted; facts, rules and queries stay as they are. -/
theorem Program.foldl_register (entries : List Entry) (p : Program) :
    ∃ vars occurrences, entries.foldl Program.register p =
      { p with
        symbols := Distinct.append p.symbols (entries.filterMap Entry.symbol?), vars, occurrences } :=
  ⟨_, _, Program.foldl_register_eq entries p⟩

namespace Program.Closed

variable {p : Program}

/-- Nothing has been collected, so nothing is missing. -/
theorem empty : ({} : Program).Closed :=
  ⟨by simp, by simp, by simp, by simp, by simp, by simp, by simp⟩

/-- More symbols do no harm. -/
theorem register (h : p.Closed) (entries : List Entry) :
    (entries.foldl Program.register p).Closed := by
  obtain ⟨vars, occurrences, heq⟩ := Program.foldl_register entries p
  have hsub : ∀ s ∈ p.symbols, s ∈ Distinct.append p.symbols (entries.filterMap Entry.symbol?) :=
    fun s hs ↦ Distinct.mem_append.mpr (Or.inl hs)
  rw [heq]
  refine ⟨Distinct.nodup_append h.symbols_nodup _, h.keys_nodup, h.relations_nodup, h.relations,
    fun f hf ↦ ?_, fun r hr t ht ↦ ?_, fun q hq g hg t ht text heq ↦ ?_⟩
  · obtain ⟨hsymbol, hargs⟩ := h.facts f hf
    exact ⟨hsub _ hsymbol, fun a ha ↦ hsub _ (hargs a ha)⟩
  · obtain ⟨hknown, hparam⟩ := h.rules r hr t ht
    exact ⟨fun text heq ↦ hsub _ (hknown text heq), hparam⟩
  · exact hsub _ (h.queries q hq g hg t ht text heq)

end Program.Closed

namespace Draft

open Survey (Item)

/-- What is noted of a clause is what its survey notes, wherever the clause stands. -/
theorem program_noted (d : Draft) (c : Located) :
    (d.noted c).program = (Survey.clause c.node).entries.foldl Program.register d.program :=
  rfl

theorem mem_symbols_noted {d : Draft} {c : Located} {s : Symbol}
    (h : s ∈ (Survey.clause c.node).symbols) : s ∈ (d.noted c).program.symbols := by
  obtain ⟨vars, occurrences, heq⟩ :=
    Program.foldl_register (Survey.clause c.node).entries d.program
  rw [program_noted, heq]
  exact Distinct.mem_append.mpr (Or.inr h)

/-- A clause whose item is known may be added. -/
theorem closed_add {d after : Draft} (hd : d.program.Closed) {item : Item}
    (hitem : item.Known d.program.symbols) (h : d.add item = .ok after) : after.program.Closed := by
  cases item with
  | comment =>
    obtain rfl := Except.ok.inj h
    exact hd
  | query q =>
    obtain rfl := Except.ok.inj h
    refine ⟨hd.symbols_nodup, hd.keys_nodup, hd.relations_nodup, hd.relations, hd.facts, hd.rules,
      fun q' hq' ↦ ?_⟩
    rcases List.mem_append.mp hq' with hq' | hq'
    · exact hd.queries q' hq'
    · rwa [List.mem_singleton.mp hq']
  | fact f =>
    obtain rfl := Except.ok.inj h
    refine ⟨hd.symbols_nodup, hd.keys_nodup, Distinct.nodup_insert hd.relations_nodup _, fun s ↦ ?_,
      fun f' hf' ↦ ?_, hd.rules, hd.queries⟩
    · -- The relation is noted where the fact is added.
      simp [hd.relations, or_and_right, exists_or, eq_comm]
    · rcases List.mem_append.mp hf' with hf' | hf'
      · exact hd.facts f' hf'
      · rwa [List.mem_singleton.mp hf']
  | rule r =>
    rw [add] at h
    split at h
    · cases h
    · rename_i hnew
      obtain rfl := Except.ok.inj h
      refine ⟨hd.symbols_nodup, ?_, hd.relations_nodup, hd.relations, hd.facts, fun r' hr' ↦ ?_,
        hd.queries⟩
      · -- A second rule with the same key is refused, so keys stay different.
        rw [List.map_append, List.nodup_append]
        refine ⟨hd.keys_nodup, by simp, fun key hkey key' hkey' heq ↦ hnew ?_⟩
        obtain ⟨r', hr', rfl⟩ := List.mem_map.mp hkey
        have hsame : r'.key = r.key := heq.trans (List.mem_singleton.mp hkey')
        exact List.find?_isSome.mpr ⟨r', hr', by simpa using hsame⟩
      · rcases List.mem_append.mp hr' with hr' | hr'
        · exact hd.rules r' hr'
        · rwa [List.mem_singleton.mp hr']

/-- A visit registers what the clause mentions. Then the clause is refused at its place, or what it means
is added. -/
theorem visit_cases (d : Draft) (c : Located) :
    (∃ fault, d.visit c = (d.noted c, some (.ofOffset d.source c.offset fault))) ∨
      ∃ item after, (Survey.clause c.node).result = .ok item ∧
        (d.noted c).add item = .ok after ∧ d.visit c = (after, none) := by
  cases hresult : (Survey.clause c.node).result with
  | error fault => exact Or.inl ⟨fault, by simp only [visit, hresult]; rfl⟩
  | ok item =>
    cases hadd : (d.noted c).add item with
    | error fault => exact Or.inl ⟨fault, by simp only [visit, hresult, hadd]; rfl⟩
    | ok after => exact Or.inr ⟨item, after, rfl, hadd, by simp only [visit, hresult, hadd]⟩

/-- A visit keeps the program closed, also if the clause is refused: its symbols come first. -/
theorem closed_visit {d : Draft} (hd : d.program.Closed) (c : Located) :
    (d.visit c).1.program.Closed := by
  have hnoted : (d.noted c).program.Closed := hd.register _
  obtain ⟨fault, heq⟩ | ⟨item, after, hitem, hadd, heq⟩ := d.visit_cases c <;> rw [heq]
  · exact hnoted
  · refine closed_add hnoted ?_ hadd
    have hknown := Survey.clause_eq_ok hitem
    cases item with
    | comment => trivial
    | query q => exact fun g hg t ht text heq ↦ mem_symbols_noted (hknown g hg t ht text heq)
    | fact f => exact ⟨mem_symbols_noted hknown.1, fun a ha ↦ mem_symbols_noted (hknown.2 a ha)⟩
    | rule r =>
      exact fun t ht ↦
        ⟨fun text heq ↦ mem_symbols_noted ((hknown t ht).1 text heq), (hknown t ht).2⟩

/-- Adding what a clause means leaves the text alone. -/
theorem source_add {d after : Draft} {item : Item} (h : d.add item = .ok after) :
    after.source = d.source := by
  cases item with
  | comment => rw [← Except.ok.inj h]
  | query q => rw [← Except.ok.inj h]
  | fact f => rw [← Except.ok.inj h]
  | rule r =>
    rw [add] at h
    split at h
    · cases h
    · rw [← Except.ok.inj h]

/-- A draft stays with its text. -/
theorem source_visit (d : Draft) (c : Located) : (d.visit c).1.source = d.source := by
  obtain ⟨fault, heq⟩ | ⟨item, after, -, hadd, heq⟩ := d.visit_cases c <;> rw [heq]
  · rfl
  · exact (source_add hadd).trans rfl

/-- A clause is refused at its place in the text. -/
theorem visit_eq_some {d : Draft} {c : Located} {e : ParseError} (h : (d.visit c).2 = some e) :
    (d.visit c).1 = d.noted c ∧ ∃ fault, e = .ofOffset d.source c.offset fault := by
  obtain ⟨fault, heq⟩ | ⟨item, after, -, -, heq⟩ := d.visit_cases c <;> rw [heq] at h ⊢
  · exact ⟨rfl, fault, (Option.some.inj h).symm⟩
  · cases h

/-- The draft after visiting clauses, whether they are accepted or not. -/
def visits (d : Draft) (clauses : List Located) : Draft :=
  clauses.foldl (fun d c ↦ (d.visit c).1) d

/-- So visits to any clauses leave a closed program. -/
theorem closed_visits {d : Draft} (hd : d.program.Closed) (clauses : List Located) :
    (d.visits clauses).program.Closed := by
  induction clauses generalizing d with
  | nil => exact hd
  | cons c clauses ih => exact ih (closed_visit hd c)

/-- Visits do not touch the text that the clauses come from. -/
theorem source_visits (d : Draft) (clauses : List Located) : (d.visits clauses).source = d.source := by
  induction clauses generalizing d with
  | nil => rfl
  | cons c clauses ih => exact (ih _).trans (d.source_visit c)

/-- Clauses that are all accepted have all been visited. -/
theorem visitAll_eq_ok {d after : Draft} {tree : List Located} (h : d.visitAll tree = .ok after) :
    after = d.visits tree := by
  induction tree generalizing d with
  | nil => exact (Except.ok.inj h).symm
  | cons c cs ih =>
    rw [visitAll] at h
    split at h
    · cases h
    · rename_i next heq
      rw [ih h, visits, visits, List.foldl_cons, heq]

end Draft

/-- The program is what a draft holds after some clauses of some text. -/
def Program.Collected (p : Program) : Prop :=
  ∃ source clauses, (Draft.visits { source } clauses).program = p

/-- **Collected programs are closed.** -/
theorem Program.Collected.closed {p : Program} (h : p.Collected) : p.Closed := by
  obtain ⟨source, clauses, rfl⟩ := h
  exact Draft.closed_visits Program.Closed.empty clauses

/-- A program that is read is collected from the clauses of its text. -/
theorem Program.parse_eq_ok {source : String} {parsed : Parsed}
    (h : Program.parse source = .ok parsed) :
    ∃ tree, Node.parseTree source = .ok tree ∧
      parsed.program = (Draft.visits { source } tree).program := by
  rw [Program.parse] at h
  cases htree : Node.parseTree source with
  | error e => simp [htree, bind, Except.bind] at h
  | ok tree =>
    refine ⟨tree, rfl, ?_⟩
    cases hvisit : Draft.visitAll { source } tree with
    | error e => simp [htree, hvisit, bind, Except.bind] at h
    | ok d =>
      simp only [htree, hvisit, bind, Except.bind] at h
      rw [← Draft.visitAll_eq_ok hvisit, ← Except.ok.inj h]

/-- What can be read is collected, and its rules are named. -/
theorem Program.collected_of_parse {source : String} {parsed : Parsed}
    (h : Program.parse source = .ok parsed) : parsed.program.Collected := by
  obtain ⟨tree, -, heq⟩ := Program.parse_eq_ok h
  exact ⟨source, tree, heq.symm⟩

/-! ### Clauses that are read from a text -/

namespace Node

/-- A name that is read with a parenthesis behind it has an argument. -/
theorem IsTerm.applied {node : Node} (h : node.IsTerm) : node.Applied := by
  cases h with
  | atom => trivial
  | var => trivial
  | param => trivial
  | compound hname hne hargs => exact hne

theorem WellFormed.headApplied {node : Node} (h : node.WellFormed) : node.HeadApplied := by
  cases h with
  | comment => trivial
  | query => trivial
  | rule hhead => exact hhead.applied
  | fact => trivial

/-- Wherever the reader finds parentheses behind a head, there is something in them. -/
theorem parseTree_applied {source : String} {tree : List Located}
    (h : parseTree source = .ok tree) : ∀ c ∈ tree, c.node.HeadApplied :=
  fun c hc ↦ (parseTree_wellFormed h c hc).headApplied

end Node

namespace Draft

/-- Every rule without arguments has its name among the constants. -/
def Named (d : Draft) : Prop :=
  ∀ r ∈ d.program.rules, r.head = [] → .constant r.name ∈ d.program.symbols

/-- A visit keeps rules without arguments named. -/
theorem named_visit {d : Draft} (hd : d.Named) {c : Located} (hc : c.node.HeadApplied) :
    (d.visit c).1.Named := by
  obtain ⟨vars, occurrences, heq⟩ :=
    Program.foldl_register (Survey.clause c.node).entries d.program
  have hnoted : (d.noted c).Named := by
    intro r hr hnil
    rw [program_noted, heq] at hr ⊢
    exact Distinct.mem_append.mpr (Or.inl (hd r hr hnil))
  obtain ⟨fault, hvisit⟩ | ⟨item, after, hitem, hafter, hvisit⟩ := d.visit_cases c <;> rw [hvisit]
  · exact hnoted
  · cases item with
    | comment =>
      obtain rfl := Except.ok.inj hafter
      exact hnoted
    | query q =>
      obtain rfl := Except.ok.inj hafter
      exact hnoted
    | fact f =>
      obtain rfl := Except.ok.inj hafter
      exact hnoted
    | rule r =>
      -- Only a rule can make a difference, and its name was noted along with the clause.
      rw [add] at hafter
      split at hafter
      · cases hafter
      · obtain rfl := Except.ok.inj hafter
        intro r' hr' hnil
        rcases List.mem_append.mp hr' with hr' | hr'
        · exact hnoted r' hr' hnil
        · obtain rfl := List.mem_singleton.mp hr'
          exact mem_symbols_noted (Survey.clause_rule_name hitem hc hnil)

/-- By the same token, so do visits to any clauses. -/
theorem named_visits {d : Draft} (hd : d.Named) {clauses : List Located}
    (hclauses : ∀ c ∈ clauses, c.node.HeadApplied) : (d.visits clauses).Named := by
  induction clauses generalizing d with
  | nil => exact hd
  | cons c clauses ih =>
    exact ih (named_visit hd (hclauses c List.mem_cons_self))
      fun c' hc' ↦ hclauses c' (List.mem_cons_of_mem _ hc')

end Draft

/-- A rule without arguments that is read from a text has its name among the constants. -/
theorem Program.rule_name_of_parse {source : String} {parsed : Parsed}
    (h : Program.parse source = .ok parsed) {r : Rule} (hr : r ∈ parsed.program.rules)
    (hnil : r.head = []) : .constant r.name ∈ parsed.program.symbols := by
  obtain ⟨tree, htree, heq⟩ := Program.parse_eq_ok h
  have hnamed : (Draft.visits { source } tree).Named :=
    Draft.named_visits (fun r hr ↦ absurd hr List.not_mem_nil) (Node.parseTree_applied htree)
  rw [heq] at hr ⊢
  exact hnamed r hr hnil

end HornQuery
