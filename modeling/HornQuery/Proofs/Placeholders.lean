import Mathlib
import HornQuery.Proofs.Soundness
import HornQuery.Session

/-!
# Placeholders and their values

A scan can be executed only if every placeholder in its text has a value. The placeholders of compiled
goals come from their arguments: a parameter is one, and inside a rule a head variable is one. A scan
that resolution leaves in the cache has no placeholders other than the head variables of its own rule
(`Compiler.selfContained_resolve`), and these are all replaced where the scan is nested in another.

At execution only the placeholders of the text are looked up. `Config.env` is the environment in which
each placeholder has its value, looked up or not, and what a scan means there is what its execution
finds (`CompiledQuery.execute_existence`, `CompiledQuery.execute_rows`).
-/

namespace HornQuery

open Scope (Valid Grows tableAlias variableAlias rangeCondition)

/-! ### Substitution -/

theorem Condition.mem_textualOf {cs : List Condition} {key : Placeholder} :
    key ∈ Condition.textualOf cs ↔ ∃ c ∈ cs, key ∈ c.textual := by
  induction cs with
  | nil => simp [Condition.textualOf]
  | cons c cs ih => simp [Condition.textualOf, ih]

/-- A placeholder that is bound is replaced by those of its expression, and one that is not bound
stays. -/
theorem Expr.placeholders_substitute_eq (b : Bindings) (e : Expr) :
    (e.substitute b).placeholders =
      e.placeholders.flatMap fun k ↦ ((b.lookup k).getD (.param k)).placeholders := by
  cases e with
  | column source field => rfl
  | int value => rfl
  | param k => exact (List.append_nil _).symm

mutual

/-- The placeholders of a condition with placeholders replaced are those of the replacements. -/
theorem Condition.textual_substitute (b : Bindings) : (c : Condition) →
    (c.substitute b).textual = c.textual.flatMap fun k ↦ ((b.lookup k).getD (.param k)).placeholders
  | .eq left right => by
    simp only [Condition.substitute, Condition.textual, List.flatMap_append,
      Expr.placeholders_substitute_eq]
  | .exists scan => by
    rw [Condition.substitute, Condition.textual, Condition.textual, scan.textual_substitute b]

/-- So it is in a scan, nested scans included. -/
theorem Scan.textual_substitute (b : Bindings) : (s : Scan) →
    (s.substitute b).textual = s.textual.flatMap fun k ↦ ((b.lookup k).getD (.param k)).placeholders
  | ⟨_, conditions, _⟩ => by
    rw [Scan.substitute, Scan.textual, Scan.textual, Condition.textualOf_substituteAll b conditions]

theorem Condition.textualOf_substituteAll (b : Bindings) : (cs : List Condition) →
    Condition.textualOf (Condition.substituteAll b cs) =
      (Condition.textualOf cs).flatMap fun k ↦ ((b.lookup k).getD (.param k)).placeholders
  | [] => rfl
  | c :: cs => by
    rw [Condition.substituteAll, Condition.textualOf, Condition.textualOf, List.flatMap_append,
      c.textual_substitute b, Condition.textualOf_substituteAll b cs]

end

/-- The placeholders of a scan after a substitution are those of the expressions bound to them. -/
theorem Scan.mem_textual_substitute {b : Bindings} {key : Placeholder} {s : Scan} :
    key ∈ (s.substitute b).textual ↔
      ∃ k ∈ s.textual, key ∈ ((b.lookup k).getD (.param k)).placeholders := by
  rw [s.textual_substitute b, List.mem_flatMap]

/-! ### Goals -/

/-- The placeholder that a term is compiled to, if it is one. -/
def Term.placeholders (rule : Option Rule) : Term → List Placeholder
  | .var x => (rule.filter (·.isParam x)).toList.map fun r ↦ .rule r.key x
  | .param name => [.external name]
  | .const _ => []

/-- Every placeholder of the scope's conditions satisfies `P`. -/
def Scope.Needs (s : Scope) (P : Placeholder → Prop) : Prop :=
  ∀ key ∈ Condition.textualOf s.conditions, P key

namespace Scope.Needs

variable {s : Scope} {P : Placeholder → Prop}

/-- A scope with one more condition needs the placeholders of that condition too. -/
theorem require (hs : s.Needs P) {c : Condition} (hc : ∀ key ∈ c.textual, P key) :
    (s.require c).Needs P := by
  intro key hkey
  obtain ⟨c', hc', hkey⟩ := Condition.mem_textualOf.mp hkey
  rcases List.mem_append.mp hc' with hc' | hc'
  · exact hs key (Condition.mem_textualOf.mpr ⟨c', hc', hkey⟩)
  · rw [List.mem_singleton.mp hc'] at hkey
    exact hc key hkey

theorem equate (hs : s.Needs P) {left right : Expr} (hleft : ∀ key ∈ left.placeholders, P key)
    (hright : ∀ key ∈ right.placeholders, P key) : (s.equate left right).Needs P :=
  hs.require fun key hkey ↦ (List.mem_append.mp hkey).elim (hleft key) (hright key)

end Scope.Needs

namespace Compiler

variable {c : Compiler} {rule : Option Rule} {s s' : Scope} {P : Placeholder → Prop}

/-- An argument is compiled to at most one placeholder, its own. -/
theorem argument_needs (hs : s.Needs P) {t : Term} (ht : ∀ key ∈ t.placeholders rule, P key)
    {value : Expr} (h : c.argument rule s t = .ok (value, s')) :
    s'.Needs P ∧ ∀ key ∈ value.placeholders, P key := by
  obtain ⟨r, x, rfl, rfl, hparam, rfl, rfl⟩ | ⟨x, rfl, -, hid⟩ | ⟨name, rfl, rfl, rfl⟩ |
    ⟨text, id, rfl, -, rfl, rfl⟩ := argument_cases h
  · refine ⟨hs, fun key hkey ↦ ?_⟩
    rw [List.mem_singleton.mp hkey]
    exact ht _ (by simp [Term.placeholders, hparam])
  · obtain ⟨i, -, heq⟩ | ⟨-, heq⟩ := s.idOf_cases x <;> rw [heq] at hid <;>
      obtain ⟨rfl, rfl⟩ := Prod.mk.inj hid
    · exact ⟨hs, fun key hkey ↦ absurd hkey List.not_mem_nil⟩
    · refine ⟨?_, fun key hkey ↦ absurd hkey List.not_mem_nil⟩
      exact hs.require fun key hkey ↦ absurd hkey List.not_mem_nil
  · exact ⟨hs, ht⟩
  · exact ⟨hs, fun key hkey ↦ absurd hkey List.not_mem_nil⟩

/-- Matching columns brings in the placeholders of the arguments only. -/
theorem matchColumns_needs {source : String} {position : Nat} {ts : List Term} (hs : s.Needs P)
    (hts : ∀ t ∈ ts, ∀ key ∈ t.placeholders rule, P key)
    (h : c.matchColumns rule source position ts s = .ok s') : s'.Needs P := by
  induction ts generalizing position s with
  | nil =>
    obtain rfl : s = s' := by simpa [matchColumns] using h
    exact hs
  | cons t ts ih =>
    obtain ⟨ht, hts⟩ := List.forall_mem_cons.mp hts
    obtain ⟨value, s₁, harg, hrest⟩ := matchColumns_cons h
    obtain ⟨hs₁, hvalue⟩ := argument_needs hs ht harg
    exact ih (hs₁.equate (fun key hkey ↦ absurd hkey List.not_mem_nil) hvalue) hts hrest

/-- Matching a head brings in those of the goal's arguments, since the head's own terms are bound or
constants. -/
theorem matchHead_needs {key : Symbol} {pairs : List (Term × Term)} {b b' : Bindings}
    (hs : s.Needs P) (hb : ∀ entry ∈ b, ∀ k ∈ entry.2.placeholders, P k)
    (hpairs : ∀ pair ∈ pairs, ∀ k ∈ pair.2.placeholders rule, P k)
    (h : c.matchHead rule key pairs b s = .ok (b', s')) :
    s'.Needs P ∧ ∀ entry ∈ b', ∀ k ∈ entry.2.placeholders, P k := by
  induction pairs generalizing b s with
  | nil =>
    obtain ⟨rfl, rfl⟩ : b = b' ∧ s = s' := by simpa [matchHead] using h
    exact ⟨hs, hb⟩
  | cons pair rest ih =>
    obtain ⟨head, arg⟩ := pair
    obtain ⟨hpair, hpairs⟩ := List.forall_mem_cons.mp hpairs
    obtain ⟨value, s₁, harg, hrest⟩ := matchHead_cons h
    obtain ⟨hs₁, hvalue⟩ := argument_needs hs hpair harg
    obtain ⟨x, previous, -, hlookup, hrest⟩ | ⟨x, -, -, hrest⟩ | ⟨_, id, -, -, hrest⟩ |
      ⟨_, -, hrest⟩ := hrest
    · exact ih (hs₁.equate (hb _ (mem_of_lookup_eq_some hlookup)) hvalue) hb hpairs hrest
    · refine ih hs₁ (fun entry hentry ↦ ?_) hpairs hrest
      rcases List.mem_append.mp hentry with hentry | hentry
      · exact hb entry hentry
      · rw [List.mem_singleton.mp hentry]
        exact hvalue
    · exact ih (hs₁.equate hvalue fun k hk ↦ absurd hk List.not_mem_nil) hb hpairs hrest
    · exact ih hs₁ hb hpairs hrest

/-- Matching a head binds all of its variables. -/
theorem matchHead_bound {key : Symbol} {pairs : List (Term × Term)} {b b' : Bindings}
    (h : c.matchHead rule key pairs b s = .ok (b', s')) {x : String}
    (hx : (∃ value, b.lookup (.rule key x) = some value) ∨ ∃ arg, (.var x, arg) ∈ pairs) :
    ∃ value, b'.lookup (.rule key x) = some value := by
  induction pairs generalizing b s with
  | nil =>
    obtain ⟨rfl, rfl⟩ : b = b' ∧ s = s' := by simpa [matchHead] using h
    simpa using hx
  | cons pair rest ih =>
    obtain ⟨head, arg⟩ := pair
    obtain ⟨value, s₁, -, hrest⟩ := matchHead_cons h
    -- Whatever the pair is, its variable is bound from here on.
    obtain ⟨y, previous, rfl, hlookup, hrest⟩ | ⟨y, rfl, hlookup, hrest⟩ | ⟨_, _, rfl, -, hrest⟩ |
      ⟨_, rfl, hrest⟩ := hrest
    · refine ih hrest (hx.elim Or.inl ?_)
      rintro ⟨arg', harg'⟩
      rcases List.mem_cons.mp harg' with heq | hmem
      · obtain rfl : x = y := Term.var.inj (Prod.mk.inj heq).1
        exact Or.inl ⟨previous, hlookup⟩
      · exact Or.inr ⟨arg', hmem⟩
    · refine ih hrest ?_
      rw [lookup_append_singleton]
      by_cases hxy : x = y
      · exact Or.inl ⟨value, by simp [hxy, hlookup]⟩
      · obtain ⟨v, hv⟩ | ⟨arg', harg'⟩ := hx
        · exact Or.inl ⟨v, by simp [hv]⟩
        · rcases List.mem_cons.mp harg' with heq | hmem
          · exact absurd (Term.var.inj (Prod.mk.inj heq).1) hxy
          · exact Or.inr ⟨arg', hmem⟩
    · exact ih hrest (by simpa using hx)
    · exact ih hrest (by simpa using hx)

/-- Every scan in the cache has no placeholders but the head variables of its rule. -/
def SelfContained (c : Compiler) : Prop :=
  ∀ entry ∈ c.fragments, ∀ r, c.program.rule? entry.1 = some r →
    ∀ key ∈ entry.2.scan.textual, ∃ x, .var x ∈ r.head ∧ key = .rule entry.1 x

/-- A goal brings in the placeholders of its own arguments: a cached scan has only head variables,
and all of them are bound. -/
theorem addGoal_needs (hc : c.SelfContained) (hs : s.Needs P) {g : Goal}
    (hg : ∀ t ∈ g.args, ∀ key ∈ t.placeholders rule, P key) (h : c.addGoal rule s g = .ok s') :
    s'.Needs P := by
  obtain ⟨fragment, hfragment, hadd⟩ | ⟨-, -, -, -, hadd⟩ := addGoal_cases h
  · obtain ⟨r, b, s₁, hr, hmatch, rfl⟩ := addRule_eq_ok hadd
    have hlength := Program.length_of_rule? hr
    obtain ⟨hs₁, hb⟩ := matchHead_needs hs (by simp)
      (fun pair hpair ↦ hg _ (List.of_mem_zip hpair).2) hmatch
    refine hs₁.require fun key hkey ↦ ?_
    obtain ⟨k, hk, hkey⟩ := Scan.mem_textual_substitute.mp hkey
    obtain ⟨x, hx, rfl⟩ := hc _ (mem_of_lookup_eq_some hfragment) r hr k hk
    -- A head variable is bound, so only the placeholders of its argument remain.
    obtain ⟨arg, harg⟩ := Program.exists_mem_zip hlength hx
    obtain ⟨value, hvalue⟩ := matchHead_bound hmatch (Or.inr ⟨arg, harg⟩)
    rw [hvalue] at hkey
    exact hb _ (mem_of_lookup_eq_some hvalue) key hkey
  · obtain ⟨id, -, hcolumns⟩ := addFacts_eq_ok hadd
    refine matchColumns_needs (Scope.Needs.equate ?_ ?_ ?_) hg hcolumns
    · exact hs
    · exact fun key hkey ↦ absurd hkey List.not_mem_nil
    · exact fun key hkey ↦ absurd hkey List.not_mem_nil

/-- The placeholders of compiled goals are those of their arguments. -/
theorem addGoals_needs (hc : c.SelfContained) (hs : s.Needs P) {goals : List Goal}
    (hgoals : ∀ g ∈ goals, ∀ t ∈ g.args, ∀ key ∈ t.placeholders rule, P key)
    (h : c.addGoals rule goals s = .ok s') : s'.Needs P := by
  induction goals generalizing s with
  | nil =>
    obtain rfl : s = s' := by simpa [addGoals] using h
    exact hs
  | cons g gs ih =>
    obtain ⟨hg, hgs⟩ := List.forall_mem_cons.mp hgoals
    obtain ⟨s₁, hgoal, hrest⟩ := addGoals_cons h
    exact ih (addGoal_needs hc hs hg hgoal) hgs hrest

/-! ### Resolution -/

/-- A compiled rule has no placeholders but its own head variables, because no parameter stands in a
rule. -/
theorem selfContained_compileRule {p : Program} (hp : p.Closed) {r : Rule}
    (hr : r ∈ c.program.rules) (hc : c.program = p ∧ c.SelfContained) :
    (c.compileRule r).1.program = p ∧ (c.compileRule r).1.SelfContained := by
  obtain ⟨rfl, hc⟩ := hc
  refine ⟨(c.sameTask_compileRule r).program, ?_⟩
  obtain ⟨_, -, h⟩ | ⟨-, s, hgoals, h⟩ | ⟨-, _, -, h⟩ := c.compileRule_cases r <;> rw [h]
  · exact hc
  · intro entry hentry r' hr'
    rcases List.mem_append.mp hentry with hentry | hentry
    · exact hc entry hentry r' hr'
    · rw [List.mem_singleton.mp hentry] at hr' ⊢
      obtain rfl := Option.some.inj ((Program.rule?_of_mem hp hr).symm.trans hr')
      -- Rules have no parameters, so only head variables are left.
      have hopen : c.openScope.2.SelfContained := hc
      have hempty : c.openScope.1.Needs fun key ↦ ∃ x, .var x ∈ r.head ∧ key = .rule r.key x :=
        fun key hkey ↦ absurd hkey List.not_mem_nil
      refine addGoals_needs hopen hempty (fun g hg t ht key hkey ↦ ?_) hgoals
      have hparam := (hp.rules r hr t (Rule.mem_terms_of_mem_select hg ht)).2
      cases t with
      | var x =>
        by_cases hx : r.isParam x = true
        · have heq : .rule r.key x = key := by simpa [Term.placeholders, hx] using hkey
          exact ⟨x, Rule.isParam_iff.mp hx, heq.symm⟩
        · simp [Term.placeholders, hx] at hkey
      | param name => simp [Term.isParam] at hparam
      | const text => exact absurd hkey List.not_mem_nil
  · exact hc

/-- **Cached scans have no placeholders but the head variables of their rules.** -/
theorem selfContained_resolve {p : Program} (hp : p.Closed) (symbols : SymbolTable)
    (policy : BodyPolicy) (maxPasses : Nat) :
    ((Compiler.fresh p symbols policy).resolve maxPasses).compiler.SelfContained :=
  (resolve_induction (P := fun c ↦ c.program = p ∧ c.SelfContained)
    (fun _ _ hr hc ↦ selfContained_compileRule hp hr hc) (fun _ _ _ hc ↦ hc)
    ⟨rfl, fun _ hentry ↦ absurd hentry List.not_mem_nil⟩ maxPasses).2

end Compiler

/-! ### Values -/

section Values

variable {db : Database} {config : Config} {bindings : List (Placeholder × String)}

/-- The environment in which each placeholder has the number of the constant with its text. -/
def Config.env (config : Config) (db : Database) (bindings : List (Placeholder × String)) : Env where
  column := fun _ _ ↦ .null
  param := fun key ↦
    match (config.valueOf bindings key).bind db.constantId? with
    | some id => .integer id
    | none => .null

/-- A placeholder with a text has the cell of that text. -/
theorem Program.env_param (p : Program) {key : Placeholder} {text : String}
    (h : config.valueOf bindings key = some text) :
    (config.env p.database bindings).param key = p.symbolTable.cell text := by
  simp only [Config.env, h, Option.bind_some, p.constantId?_database]
  rfl

/-- Placeholders that all have values are bound to these. -/
theorem Config.exists_bind {keys : List Placeholder}
    (h : ∀ key ∈ keys, ∃ text, config.valueOf bindings key = some text) :
    ∃ values, config.bind bindings keys = .ok values ∧
      ∀ key ∈ keys, values.lookup key = config.valueOf bindings key := by
  induction keys with
  | nil => exact ⟨[], rfl, by simp⟩
  | cons key keys ih =>
    obtain ⟨⟨text, htext⟩, hkeys⟩ := List.forall_mem_cons.mp h
    obtain ⟨values, hvalues, hlookup⟩ := ih hkeys
    refine ⟨(key, text) :: values, by simp [Config.bind, htext, hvalues, Except.map], ?_⟩
    intro key' hkey'
    rw [List.lookup_cons]
    by_cases heq : key' = key
    · simp [heq, htext]
    · rw [beq_false_of_ne heq]
      exact hlookup key' ((List.mem_cons.mp hkey').resolve_left heq)

/-- Environments coincide on placeholders that are looked up to the same texts. -/
theorem Config.coincide_startEnv {values : List (Placeholder × String)} {keys : List Placeholder}
    (h : ∀ key ∈ keys, values.lookup key = config.valueOf bindings key) :
    Env.Coincide [] keys (db.startEnv values) (config.env db bindings) := by
  refine ⟨fun s hs ↦ absurd hs List.not_mem_nil, fun key hkey ↦ ?_⟩
  show (match (values.lookup key).bind db.constantId? with
      | some id => Cell.integer id
      | none => .null) =
    match (config.valueOf bindings key).bind db.constantId? with
      | some id => Cell.integer id
      | none => .null
  rw [h key hkey]

/-- The placeholders of a query's goals have values if the goals' parameters have. -/
theorem Compiler.goals_supplied {c : Compiler} (hself : c.SelfContained) {goals : List Goal}
    {s : Scope} (hgoals : c.openScope.2.addGoals none goals c.openScope.1 = .ok s)
    (hparams : ∀ g ∈ goals, ∀ x, .param x ∈ g.args → ∃ text, config.param? x = some text) :
    ∀ key ∈ Condition.textualOf s.conditions, ∃ text, config.valueOf [] key = some text := by
  have hopen : c.openScope.2.SelfContained := hself
  refine Compiler.addGoals_needs hopen (fun _ h ↦ absurd h List.not_mem_nil)
    (fun g hg t ht key hkey ↦ ?_) hgoals
  cases t with
  | var x => exact absurd hkey List.not_mem_nil
  | const text => exact absurd hkey List.not_mem_nil
  | param x =>
    rw [List.mem_singleton.mp hkey]
    exact hparams g hg x ht

/-! ### Executions -/

/-- The answer, unless the store refuses to execute the fragment, according to `refusal`. -/
def Fragment.unlessRefused (f : Fragment) (answer : Answer)
    (refusal : Fragment → Option StorageError := Fragment.refusal?) : Except Error Answer :=
  match refusal f with
  | some e => .error (.storage e)
  | none => .ok answer

theorem Fragment.eq_of_unlessRefused {f : Fragment} {answer answer' : Answer}
    (h : f.unlessRefused answer = .ok answer') : answer = answer' := by
  unfold Fragment.unlessRefused at h
  split at h
  · cases h
  · exact Except.ok.inj h

/-- A fragment that only asks whether there is something lists the placeholders of its
conditions. -/
theorem Fragment.order_existence {f : Fragment} (hshape : f.shape = .existence) :
    f.order = Distinct.ofList f.scan.textual := by
  rw [Fragment.order, hshape]

/-- A fragment with rows lists those of its projection first. -/
theorem Fragment.order_rows {f : Fragment} {columns : List String} (hshape : f.shape = .rows columns) :
    f.order = Distinct.ofList
      (f.scan.projection.flatMap (fun entry ↦ entry.2.placeholders) ++ f.scan.textual) := by
  cases f
  cases hshape
  rfl

namespace CompiledQuery

variable {q : CompiledQuery}

/-- A query that asks for existence is answered by what its scan means, unless the store refuses. -/
theorem execute_existence (hsat : q.unsatisfiable = false) (hshape : q.fragment.shape = .existence)
    (hscoped : q.fragment.scan.WellScoped [])
    (hkeys : ∀ key ∈ q.fragment.scan.textual, ∃ text, config.valueOf q.bindings key = some text)
    (text : String) (refusal : Fragment → Option StorageError) :
    (q.execute config ⟨some db⟩ text refusal).answer = q.fragment.unlessRefused
      (if q.fragment.scan.holds db (config.env db q.bindings) then .yes else .no) refusal := by
  have horder := Fragment.order_existence hshape
  obtain ⟨values, hbind, hlookup⟩ : ∃ values, config.bind q.bindings q.fragment.order = .ok values ∧
      ∀ key ∈ q.fragment.order, values.lookup key = config.valueOf q.bindings key :=
    Config.exists_bind fun key hkey ↦ hkeys key (by simpa [horder] using hkey)
  have hholds : q.fragment.scan.holds db (db.startEnv values) =
      q.fragment.scan.holds db (config.env db q.bindings) :=
    q.fragment.scan.holds_congr hscoped
      (Config.coincide_startEnv fun key hkey ↦ hlookup key (by simpa [horder] using hkey))
  simp only [execute, hsat, hbind, Store.query, Database.execute_eq, hshape, hholds,
    Fragment.unlessRefused]
  cases refusal q.fragment with
  | some e => rfl
  | none =>
    cases q.fragment.scan.holds db (config.env db q.bindings) <;>
      simp [Fragment.answer, hshape, Cell.isTruthy]

/-- A query that asks for rows is answered by the rows that its scan means, unless the store
refuses. -/
theorem execute_rows {columns : List String} (hsat : q.unsatisfiable = false)
    (hshape : q.fragment.shape = .rows columns) (hscoped : q.fragment.scan.WellScoped [])
    (hprojection : ∀ entry ∈ q.fragment.scan.projection, entry.2.placeholders = [])
    (hkeys : ∀ key ∈ q.fragment.scan.textual, ∃ text, config.valueOf q.bindings key = some text)
    (text : String) (refusal : Fragment → Option StorageError) :
    (q.execute config ⟨some db⟩ text refusal).answer = q.fragment.unlessRefused (.rows columns
      ((q.fragment.scan.rows db (config.env db q.bindings)).map fun row ↦ row.map Cell.display))
      refusal := by
  have horder : q.fragment.order = Distinct.ofList q.fragment.scan.textual := by
    rw [Fragment.order_rows hshape, List.flatMap_eq_nil_iff.mpr hprojection, List.nil_append]
  obtain ⟨values, hbind, hlookup⟩ : ∃ values, config.bind q.bindings q.fragment.order = .ok values ∧
      ∀ key ∈ q.fragment.order, values.lookup key = config.valueOf q.bindings key :=
    Config.exists_bind fun key hkey ↦ hkeys key (by simpa [horder] using hkey)
  have hrows : q.fragment.scan.rows db (db.startEnv values) =
      q.fragment.scan.rows db (config.env db q.bindings) :=
    Scan.rows_congr hscoped hprojection
      (Config.coincide_startEnv fun key hkey ↦ hlookup key (by simpa [horder] using hkey))
  simp only [execute, hsat, hbind, Store.query, Database.execute_eq, hshape, hrows,
    Fragment.unlessRefused]
  cases refusal q.fragment with
  | some e => rfl
  | none => simp [Fragment.answer, hshape]

end CompiledQuery

end Values

end HornQuery
