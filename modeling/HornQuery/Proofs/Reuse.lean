import Mathlib
import HornQuery.Proofs.Placeholders
import HornQuery.Proofs.Progress

/-!
# Queries from the cache

A goal without variables on a compiled rule can be answered in two ways. The rule's scan may be nested
in a scope of its own, where the arguments become expressions, a repeated head variable an equation and
a constant in the head another one. Or the rule's scan may be taken from the cache as it is: head
variables that meet constants are supplied as texts at execution, those that meet parameters become the
parameters, and whether constants agree is decided at once.

Both ways give the same answer (`Program.reuse_agrees`). Matching a head goes through the same pairs in
both, and `HeadMatch.Mirrors` says how far they agree after each: a head variable is bound here exactly
if it is bound there, to a constant under its number or to the same parameter. The equations added on
one side are true exactly if no two constants were found to differ on the other. The rest is that
replacing a placeholder and supplying its value are the same, and that the cached scan has no
placeholders other than head variables.
-/

namespace HornQuery

open Scope (Valid Grows)

/-- Constants have the same number exactly if they have the same text. -/
theorem SymbolTable.Numbered.constant?_eq_iff {t : SymbolTable} (ht : t.Numbered)
    {text text' : String} {id id' : Int} (h : t.constant? text = some id)
    (h' : t.constant? text' = some id') : id = id' ↔ text = text' := by
  constructor
  · rintro rfl
    exact congrArg Symbol.text (ht.get?_inj h h')
  · rintro rfl
    exact Option.some.inj (h.symm.trans h')

namespace Compiler

variable {c : Compiler} {key : Symbol}

/-! ### Matching heads -/

/-- Both ways to match a head have bound the same variables so far: to a constant and its number, or
to the same parameter. -/
structure HeadMatch.Mirrors (m : HeadMatch) (t : SymbolTable) (key : Symbol) (b : Bindings) :
    Prop where
  unbound : ∀ x, m.bindings.lookup (.rule key x) = none → m.external.lookup (.rule key x) = none →
    b.lookup (.rule key x) = none
  constant : ∀ x text, m.bindings.lookup (.rule key x) = some text →
    m.external.lookup (.rule key x) = none ∧
      ∃ id, t.constant? text = some id ∧ b.lookup (.rule key x) = some (.int id)
  parameter : ∀ x e, m.external.lookup (.rule key x) = some e → b.lookup (.rule key x) = some e

namespace HeadMatch.Mirrors

variable {m : HeadMatch} {t : SymbolTable} {b : Bindings}

theorem nil : HeadMatch.Mirrors {} t key [] :=
  ⟨fun _ _ _ ↦ rfl, fun _ _ h ↦ (nomatch h), fun _ _ h ↦ (nomatch h)⟩

/-- A new head variable meets a constant. -/
theorem bindConstant (h : m.Mirrors t key b) {x text : String} {id : Int}
    (hbound : m.bindings.lookup (.rule key x) = none)
    (hexternal : m.external.lookup (.rule key x) = none) (hid : t.constant? text = some id) :
    HeadMatch.Mirrors { m with bindings := m.bindings ++ [(.rule key x, text)] } t key
      (b ++ [(.rule key x, .int id)]) := by
  have hfree := h.unbound x hbound hexternal
  refine ⟨fun y ↦ ?_, fun y text' ↦ ?_, fun y e ↦ ?_⟩ <;>
    simp only [lookup_append_singleton, Placeholder.rule.injEq, true_and]
  · by_cases hy : y = x
    · simp [hy, hbound]
    · simpa [hy] using h.unbound y
  · by_cases hy : y = x
    · subst hy
      simp only [hbound, hfree, hexternal, if_true, Option.none_or, Option.some.injEq]
      rintro rfl
      exact ⟨trivial, id, hid, rfl⟩
    · simpa [hy] using h.constant y text'
  · intro he
    rw [h.parameter y e he, Option.some_or]

/-- A new head variable meets a parameter. -/
theorem bindParameter (h : m.Mirrors t key b) {x : String} {value : Expr}
    (hbound : m.bindings.lookup (.rule key x) = none)
    (hexternal : m.external.lookup (.rule key x) = none) :
    HeadMatch.Mirrors { m with external := m.external ++ [(.rule key x, value)] } t key
      (b ++ [(.rule key x, value)]) := by
  have hfree := h.unbound x hbound hexternal
  refine ⟨fun y ↦ ?_, fun y text ↦ ?_, fun y e ↦ ?_⟩ <;>
    simp only [lookup_append_singleton, Placeholder.rule.injEq, true_and]
  · by_cases hy : y = x
    · simp [hy, hexternal]
    · simpa [hy] using h.unbound y
  · by_cases hy : y = x
    · subst hy
      simp [hbound]
    · simpa [hy] using h.constant y text
  · by_cases hy : y = x
    · subst hy
      simp [hexternal, hfree]
    · simpa [hy] using h.parameter y e

/-- Whether constants differ has no part in what is bound. -/
theorem judge (h : m.Mirrors t key b) (unsatisfiable : Bool) :
    HeadMatch.Mirrors { m with unsatisfiable } t key b :=
  ⟨h.unbound, h.constant, h.parameter⟩

/-- A head variable that is supplied has the same value in both ways. -/
theorem param_eq (h : m.Mirrors t key b) {db : Database}
    (hdb : ∀ text, db.constantId? text = t.constant? text)
    (hexternal : ∀ entry ∈ m.external, ∃ y, entry.2 = .param (.external y)) {x : String}
    (hx : (∃ text, m.bindings.lookup (.rule key x) = some text) ∨
      ∃ e, m.external.lookup (.rule key x) = some e) (config : Config) :
    ((config.env db []).rebind b).param (.rule key x) =
      ((config.env db m.bindings).rebind m.external).param (.rule key x) := by
  obtain ⟨text, hbound⟩ | ⟨e, hparam⟩ := hx
  · obtain ⟨hnone, id, hid, hlookup⟩ := h.constant x text hbound
    rw [← hdb] at hid
    rw [Env.rebind_param_of_lookup hlookup]
    simp [Env.rebind, hnone, Config.env, Config.valueOf, hbound, hid, Expr.value]
  · obtain ⟨outer, rfl⟩ := hexternal _ (mem_of_lookup_eq_some hparam)
    rw [Env.rebind_param_of_lookup (h.parameter x _ hparam), Env.rebind_param_of_lookup hparam]
    rfl

end HeadMatch.Mirrors

theorem argument_const {rule : Option Rule} {s : Scope} {text : String} {id : Int}
    (h : c.symbols.constant? text = some id) :
    c.argument rule s (.const text) = .ok (.int id, s) := by
  simp [argument, literal, h, Except.map]

/-- An equation between the numbers of constants is true exactly if the constants do not differ. -/
theorem holdAll_equate_constants {db : Database} {t : SymbolTable} (ht : t.Numbered) {s : Scope}
    {unsatisfiable : Bool} {text text' : String} {i j : Int} (hi : t.constant? text = some i)
    (hj : t.constant? text' = some j)
    (hs : ∀ env, Condition.holdAll db env s.conditions = !unsatisfiable) (env : Env) :
    Condition.holdAll db env (s.equate (.int i) (.int j)).conditions =
      !(unsatisfiable || decide (text ≠ text')) := by
  simp [Scope.equate, Scope.require, hs, Condition.holds, Expr.value,
    ht.constant?_eq_iff hi hj]

/-- Where a head can be matched at once, it can be matched in a scope, with the same bindings, and the
scope's conditions are true unless constants differ. -/
theorem HeadMatch.matchHead_of_foldlM (hc : c.symbols.Numbered) (db : Database)
    {pairs : List (Term × Term)} {m m' : HeadMatch} {b : Bindings} {s : Scope}
    (hpairs : ∀ pair ∈ pairs,
      pair.1.Known c.symbols.symbols ∧ pair.2.Known c.symbols.symbols)
    (hm : m.Mirrors c.symbols key b)
    (hs : ∀ env, Condition.holdAll db env s.conditions = !m.unsatisfiable)
    (h : pairs.foldlM (HeadMatch.step? key) m = some m') :
    ∃ b' s', c.matchHead none key pairs b s = .ok (b', s') ∧ m'.Mirrors c.symbols key b' ∧
      s'.sources = s.sources ∧
      ∀ env, Condition.holdAll db env s'.conditions = !m'.unsatisfiable := by
  induction pairs generalizing m b s with
  | nil =>
    obtain rfl : m = m' := by simpa using h
    exact ⟨b, s, rfl, hm, rfl, hs⟩
  | cons pair rest ih =>
    rw [List.foldlM_cons] at h
    obtain ⟨m₁, hstep, hrest⟩ := Option.bind_eq_some_iff.mp h
    obtain ⟨⟨hhead, harg⟩, hothers⟩ := List.forall_mem_cons.mp hpairs
    have hnumber : ∀ text, pair.2 = .const text → ∃ id, c.symbols.constant? text = some id :=
      fun text heq ↦ SymbolTable.exists_constant?_iff.mpr (harg text heq)
    obtain ⟨x, text, previous, rfl, hexternal, hbound, rfl⟩ | ⟨x, text, rfl, hexternal, hbound, rfl⟩ |
      ⟨x, outer, rfl, hbound, hexternal, rfl⟩ | ⟨expected, text, rfl, rfl⟩ :=
        HeadMatch.step?_cases hstep
    · -- A head variable that comes again: an equation here, a comparison there.
      obtain ⟨id, hid⟩ := hnumber text rfl
      obtain ⟨-, first, hfirst, hlookup⟩ := hm.constant x previous hbound
      obtain ⟨b', s', hmatch, hrest⟩ :=
        ih hothers (hm.judge _) (holdAll_equate_constants hc hfirst hid hs) hrest
      refine ⟨b', s', ?_, hrest⟩
      simp only [matchHead, argument_const hid, bind, Except.bind, hlookup]
      exact hmatch
    · -- A new head variable takes a constant.
      obtain ⟨id, hid⟩ := hnumber text rfl
      obtain ⟨b', s', hmatch, hrest⟩ := ih hothers (hm.bindConstant hbound hexternal hid) hs hrest
      refine ⟨b', s', ?_, hrest⟩
      simp only [matchHead, argument_const hid, bind, Except.bind, hm.unbound x hbound hexternal]
      exact hmatch
    · -- A new head variable takes a parameter, which stays a placeholder on both sides.
      obtain ⟨b', s', hmatch, hrest⟩ := ih hothers (hm.bindParameter hbound hexternal) hs hrest
      refine ⟨b', s', ?_, hrest⟩
      simp only [matchHead, argument, bind, Except.bind, hm.unbound x hbound hexternal]
      exact hmatch
    · -- A constant in the head: again an equation here, a comparison there.
      obtain ⟨id, hid⟩ := hnumber text rfl
      obtain ⟨wanted, hwanted⟩ := SymbolTable.exists_constant?_iff.mpr (hhead expected rfl)
      have hs₁ : ∀ env, Condition.holdAll db env (s.equate (.int id) (.int wanted)).conditions =
          !(m.unsatisfiable || decide (expected ≠ text)) := fun env ↦ by
        rw [holdAll_equate_constants hc hid hwanted hs]
        simp [eq_comm]
      obtain ⟨b', s', hmatch, hrest⟩ := ih hothers (hm.judge _) hs₁ hrest
      refine ⟨b', s', ?_, hrest⟩
      simp only [matchHead, argument_const hid, literal, hwanted, bind, Except.bind]
      exact hmatch

/-- A head variable has a value in one of the two forms. -/
def HeadMatch.Supplies (m : HeadMatch) (key : Symbol) (x : String) : Prop :=
  (∃ text, m.bindings.lookup (.rule key x) = some text) ∨
    ∃ e, m.external.lookup (.rule key x) = some e

/-- A pair keeps what is supplied, and supplies its own head variable. -/
theorem HeadMatch.supplies_step {m m' : HeadMatch} {pair : Term × Term}
    (h : HeadMatch.step? key m pair = some m') {x : String}
    (hx : m.Supplies key x ∨ pair.1 = .var x) : m'.Supplies key x := by
  obtain ⟨y, text, previous, rfl, -, hbound, rfl⟩ | ⟨y, text, rfl, -, -, rfl⟩ |
    ⟨y, outer, rfl, -, -, rfl⟩ | ⟨expected, text, rfl, rfl⟩ := HeadMatch.step?_cases h
  · rcases hx with hx | hx
    · exact hx
    · exact Or.inl ⟨previous, Term.var.inj hx ▸ hbound⟩
  · rcases hx with (⟨text', htext⟩ | hx) | hx
    · exact Or.inl ⟨text', by simp [List.lookup_append, htext]⟩
    · exact Or.inr hx
    · obtain rfl := Term.var.inj hx
      exact Or.inl (by rw [lookup_append_singleton]; cases m.bindings.lookup _ <;> simp)
  · rcases hx with (hx | ⟨e, he⟩) | hx
    · exact Or.inl hx
    · exact Or.inr ⟨e, by simp [List.lookup_append, he]⟩
    · obtain rfl := Term.var.inj hx
      exact Or.inr (by rw [lookup_append_singleton]; cases m.external.lookup _ <;> simp)
  · exact hx.resolve_right nofun

/-- Every head variable of a match is supplied. -/
theorem HeadMatch.supplies_of_foldlM {pairs : List (Term × Term)} {m m' : HeadMatch}
    (hm : pairs.foldlM (HeadMatch.step? key) m = some m') {x : String}
    (hx : m.Supplies key x ∨ ∃ arg, (.var x, arg) ∈ pairs) : m'.Supplies key x := by
  induction pairs generalizing m with
  | nil =>
    obtain rfl : m = m' := by simpa using hm
    simpa using hx
  | cons pair rest ih =>
    rw [List.foldlM_cons] at hm
    obtain ⟨m₁, hstep, hrest⟩ := Option.bind_eq_some_iff.mp hm
    obtain hx | ⟨arg, harg⟩ := hx
    · exact ih hrest (Or.inl (HeadMatch.supplies_step hstep (Or.inl hx)))
    · rcases List.mem_cons.mp harg with rfl | harg
      · exact ih hrest (Or.inl (HeadMatch.supplies_step hstep (Or.inr rfl)))
      · exact ih hrest (Or.inr ⟨arg, harg⟩)

/-! ### Goals -/

/-- What a goal and the head of its rule consist of has numbers, and different things have different
ones. -/
structure Knows (c : Compiler) (g : Goal) : Prop where
  numbered : c.symbols.Numbered
  args : ∀ t ∈ g.args, t.Known c.symbols.symbols
  head : ∀ r, c.program.rule? g.symbol = some r → ∀ t ∈ r.head, t.Known c.symbols.symbols

/-- A compiler for a closed program knows a goal as soon as it knows the goal's constants. -/
theorem knows_of_closed {p : Program} (hp : p.Closed) (hprogram : c.program = p)
    (hsymbols : c.symbols = p.symbolTable) {g : Goal}
    (hconsts : ∀ text, .const text ∈ g.args → text ∈ p.constants) : c.Knows g := by
  refine ⟨hsymbols ▸ p.symbolTable_numbered, fun t ht text heq ↦ ?_, fun r hr t ht text heq ↦ ?_⟩
  · rw [hsymbols, Program.mem_symbolTable, ← Program.mem_constants]
    exact hconsts text (heq ▸ ht)
  · rw [hprogram] at hr
    rw [hsymbols, Program.mem_symbolTable]
    exact (hp.rules r (Program.mem_of_rule? hr) t (List.mem_append_left _ ht)).1 text heq

/-- Then the constants of the rule's head are known as well. -/
theorem Knows.pairs {g : Goal} (hg : c.Knows g) {r : Rule} (hr : c.program.rule? g.symbol = some r) :
    ∀ pair ∈ r.head.zip g.args,
      pair.1.Known c.symbols.symbols ∧ pair.2.Known c.symbols.symbols := fun _ hpair ↦
  ⟨hg.head r hr _ (List.of_mem_zip hpair).1, hg.args _ (List.of_mem_zip hpair).2⟩

/-- What a goal's arguments supply from outside are parameters, which no scan can capture. -/
theorem HeadMatch.external_avoid {key : Symbol} {pairs : List (Term × Term)} {m : HeadMatch}
    (h : pairs.foldlM (HeadMatch.step? key) {} = some m) (aliases : List String) :
    m.external.Avoid aliases := by
  intro entry hentry source field heq
  obtain ⟨x, hx⟩ := HeadMatch.external_isParam h entry hentry
  rw [hx] at heq
  cases heq

/-- A query from the cache has a counterpart in a scope of its own, which has a combination exactly if
the constants agree and the cached scan has one. -/
theorem reuse_holds (hself : c.SelfContained) (hscoped : c.Scoped) {g : Goal} (hg : c.Knows g)
    {q : CompiledQuery} (hq : c.reuse g = some q) {db : Database}
    (hdb : ∀ text, db.constantId? text = c.symbols.constant? text) :
    ∃ s, c.openScope.2.addGoals none [g] c.openScope.1 = .ok s ∧
      ∀ (config : Config) (names : List String),
        (s.finish names).scan.holds db (config.env db []) =
          (!q.unsatisfiable && q.fragment.scan.holds db (config.env db q.bindings)) := by
  obtain ⟨r, m, fragment, hr, hm, hfragment, rfl⟩ := reuse_eq_some hq
  have hlength := Program.length_of_rule? hr
  have hpairs := hg.pairs hr
  obtain ⟨b, s, hmatch, hmirrors, hsources, hconditions⟩ :=
    HeadMatch.matchHead_of_foldlM (c := c.openScope.2) (s := c.openScope.1) hg.numbered db
      hpairs .nil (fun _ ↦ rfl) hm
  refine ⟨s.require (.exists (fragment.scan.substitute b)), ?_, fun config names ↦ ?_⟩
  · have hfragment' : c.openScope.2.fragment? g.symbol = some fragment := hfragment
    have hr' : c.openScope.2.program.rule? g.symbol = some r := hr
    simp only [addGoals, addGoal, hfragment', addRule, hr', hmatch, bind, Except.bind, pure,
      Except.pure]
  · have havoid := matchHead_avoid (Scope.Valid.empty _) (hscoped.fragment hfragment).2 hmatch
    have hexternal := HeadMatch.external_avoid hm fragment.scan.declared
    have hnested : (fragment.scan.substitute b).holds db (config.env db []) =
        (fragment.scan.substitute m.external).holds db (config.env db m.bindings) := by
      rw [Scan.holds_substitute _ havoid, Scan.holds_substitute _ hexternal]
      refine Scan.holds_congr _ (hscoped.fragment hfragment).1
        ⟨fun t ht ↦ absurd ht List.not_mem_nil, fun key hkey ↦ ?_⟩
      obtain ⟨x, hx, rfl⟩ := hself _ (mem_of_lookup_eq_some hfragment) r hr key hkey
      -- The cached scan has no other placeholders, and every head variable meets an argument.
      obtain ⟨arg, harg⟩ := Program.exists_mem_zip hlength hx
      exact hmirrors.param_eq hdb (HeadMatch.external_isParam hm)
        (HeadMatch.supplies_of_foldlM hm (Or.inr ⟨arg, harg⟩)) config
    have hempty : s.sources = [] := hsources
    simp [Scope.finish, Scope.require, Scan.holds, hempty, Database.draws, hconditions,
      Condition.holds, hnested]

/-- A placeholder of a query from the cache is a head variable with a text from the goal, or a
parameter of the goal. -/
theorem reuse_placeholder (hself : c.SelfContained) {g : Goal} {q : CompiledQuery}
    (hq : c.reuse g = some q) {key : Placeholder} (hkey : key ∈ q.fragment.scan.textual) :
    (∃ x text, key = .rule g.symbol x ∧ q.bindings.lookup key = some text) ∨
      ∃ x, key = .external x ∧ .param x ∈ g.args := by
  obtain ⟨r, m, fragment, hr, hm, hfragment, rfl⟩ := reuse_eq_some hq
  have hlength := Program.length_of_rule? hr
  obtain ⟨k, hk, hkey⟩ := Scan.mem_textual_substitute.mp hkey
  obtain ⟨x, hx, rfl⟩ := hself _ (mem_of_lookup_eq_some hfragment) r hr k hk
  obtain ⟨arg, harg⟩ := Program.exists_mem_zip hlength hx
  cases hexternal : m.external.lookup (.rule g.symbol x) with
  | some e =>
    obtain ⟨outer, rfl, hmem⟩ := HeadMatch.external_foldlM (Q := fun y ↦ .param y ∈ g.args) (by simp)
      (fun pair hpair y hy ↦ hy ▸ (List.of_mem_zip hpair).2) hm _ (mem_of_lookup_eq_some hexternal)
    rw [hexternal] at hkey
    exact Or.inr ⟨outer, List.mem_singleton.mp hkey, hmem⟩
  | none =>
    rw [hexternal] at hkey
    obtain rfl := List.mem_singleton.mp hkey
    obtain ⟨text, htext⟩ | ⟨_, h⟩ := HeadMatch.supplies_of_foldlM hm (Or.inr ⟨arg, harg⟩)
    · exact Or.inl ⟨x, text, rfl, htext⟩
    · rw [hexternal] at h
      cases h

/-- A query from the cache has a value for each of its placeholders if the goal's parameters have. -/
theorem reuse_supplied (hself : c.SelfContained) {g : Goal} {q : CompiledQuery}
    (hq : c.reuse g = some q) {config : Config}
    (hparams : ∀ x, .param x ∈ g.args → ∃ text, config.param? x = some text) :
    ∀ key ∈ q.fragment.scan.textual, ∃ text, config.valueOf q.bindings key = some text := by
  intro key hkey
  obtain ⟨x, text, rfl, htext⟩ | ⟨x, rfl, hx⟩ := reuse_placeholder hself hq hkey
  · exact ⟨text, htext⟩
  · exact hparams x hx

/-- A query from the cache is answered by no if constants differ, else by what its scan means. -/
theorem execute_reuse (hself : c.SelfContained) (hscoped : c.Scoped) {g : Goal}
    {q : CompiledQuery} (hq : c.reuse g = some q) {config : Config}
    (hparams : ∀ x, .param x ∈ g.args → ∃ text, config.param? x = some text) (db : Database)
    (text : String) (refusal : Fragment → Option StorageError) :
    (q.execute config ⟨some db⟩ text refusal).answer =
      if q.unsatisfiable then .ok .no
      else q.fragment.unlessRefused
        (if q.fragment.scan.holds db (config.env db q.bindings) then .yes else .no) refusal := by
  have hshape : q.fragment.shape = .existence := by
    obtain ⟨_, _, _, -, -, -, rfl⟩ := reuse_eq_some hq
    rfl
  cases hunsat : q.unsatisfiable with
  | true => simp [CompiledQuery.execute, hunsat, Fragment.emptyAnswer, hshape]
  | false =>
    rw [CompiledQuery.execute_existence hunsat hshape (reuse_wellScoped hscoped hq)
      (reuse_supplied hself hq hparams)]
    simp

end Compiler

/-! ### Answers -/

/-- **The cache gives the answer of the scope.** Take a program that is in the store, with its rules
resolved and any number of scopes opened since, and a goal whose constants have numbers and whose
parameters have values. If the goal can be answered from the cache, it can be compiled in a scope of
its own, and each way gives the same answer, yes or no, provided that the store executes what it is
given. Which fragments it refuses is left open. A way whose fragment is refused ends with the error of
the store, and this is the only difference: the two fragments nest in different ways, so one may be
refused and not the other. Where constants differ the cached fragment is not executed at all, and the
answer is no whatever the store refuses. -/
theorem Program.reuse_agrees {p : Program} (hp : p.Collected) {symbols : SymbolTable}
    (hsymbols : (p.materialize ⟨some {}⟩).symbols = .ok symbols) (policy : BodyPolicy)
    (maxPasses scopes : Nat) {c : Compiler}
    (hc : c = ((Compiler.fresh p symbols policy).resolve maxPasses).compiler.later scopes)
    {g : Goal} (hconsts : ∀ text, .const text ∈ g.args → text ∈ p.constants) {config : Config}
    (hparams : ∀ x, .param x ∈ g.args → ∃ text, config.param? x = some text) {q : CompiledQuery}
    (hq : c.reuse g = some q) (text : String) (refusal : Fragment → Option StorageError) :
    ∃ fragment answer, (c.compileGoals none [g] []).2 = .ok fragment ∧
      (answer = .yes ∨ answer = .no) ∧ (q.unsatisfiable = true → answer = .no) ∧
      (q.execute config (p.materialize ⟨some {}⟩).store text refusal).answer =
        (if q.unsatisfiable then .ok answer else q.fragment.unlessRefused answer refusal) ∧
      (({ fragment } : CompiledQuery).execute config (p.materialize ⟨some {}⟩).store text
        refusal).answer = fragment.unlessRefused answer refusal ∧
      (refusal fragment = none → (q.unsatisfiable = false → refusal q.fragment = none) →
        (q.execute config (p.materialize ⟨some {}⟩).store text refusal).answer =
          (({ fragment } : CompiledQuery).execute config (p.materialize ⟨some {}⟩).store text
            refusal).answer) := by
  obtain ⟨rfl, hstore, -⟩ := Program.materialize_eq_ok hsymbols
  rw [hstore]
  have hsame := Compiler.sameTask_resolve (p.compiler policy) maxPasses
  have hsym : c.symbols = p.symbolTable := by rw [hc]; exact hsame.symbols
  have hknows : c.Knows g :=
    Compiler.knows_of_closed hp.closed (by rw [hc]; exact hsame.program) hsym hconsts
  have hself : c.SelfContained := by
    rw [hc]
    exact Compiler.selfContained_resolve hp.closed p.symbolTable policy maxPasses
  have hscoped : c.Scoped := by
    rw [hc]
    exact (Compiler.scoped_resolve (fun _ h ↦ absurd h List.not_mem_nil) maxPasses).later scopes
  have hdb : ∀ text, p.database.constantId? text = c.symbols.constant? text := fun text ↦ by
    rw [p.constantId?_database, hsym]
  obtain ⟨s, hgoals, hholds⟩ := Compiler.reuse_holds hself hscoped hknows hq hdb
  have hfragment : (c.compileGoals none [g] []).2 = .ok (s.finish []) := by
    simp only [Compiler.compileGoals, hgoals]
    rfl
  have hneeds := Compiler.goals_supplied hself hgoals fun g' hg' x hx ↦
    hparams x (List.mem_singleton.mp hg' ▸ hx)
  -- Both ways of answering come down to this test, apart from what the storage refuses.
  let answer : Answer :=
    if !q.unsatisfiable && q.fragment.scan.holds p.database (config.env p.database q.bindings)
      then .yes else .no
  have hembedded : (({ fragment := s.finish [] } : CompiledQuery).execute config
      ⟨some p.database⟩ text refusal).answer = (s.finish []).unlessRefused answer refusal := by
    rw [CompiledQuery.execute_existence (q := { fragment := s.finish [] }) rfl rfl
      (Compiler.compileGoals_scoped hscoped hfragment).1 hneeds, hholds]
  have hcached : (q.execute config ⟨some p.database⟩ text refusal).answer =
      if q.unsatisfiable then .ok answer else q.fragment.unlessRefused answer refusal := by
    rw [Compiler.execute_reuse hself hscoped hq hparams]
    simp only [answer]
    cases q.unsatisfiable <;> rfl
  refine ⟨s.finish [], answer, hfragment, ?_, fun hunsat ↦ ?_, hcached, hembedded, fun hrun hcache ↦ ?_⟩
  · simp only [answer]
    split
    · exact Or.inl rfl
    · exact Or.inr rfl
  · simp [answer, hunsat]
  · rw [hcached, hembedded]
    cases hunsat : q.unsatisfiable with
    | true => simp [Fragment.unlessRefused, hrun]
    | false => simp [Fragment.unlessRefused, hrun, hcache hunsat]

/-- The goal `step(a, :to, b)`, whose arguments are constants and a parameter. -/
def stepGoal : Goal := ⟨"step", [.const "a", .param "to", .const "b"]⟩

/-- A program with a fact that is listed twice and a rule on it. -/
def stepProgram : Program where
  symbols := [⟨"edge", 2⟩, .constant "a", .constant "b"]
  vars := ["X", "Y"]
  occurrences :=
    [(⟨"edge", 2⟩, ["a", "b"]), (⟨"edge", 2⟩, ["a", "b"]), (⟨"step", 3⟩, ["X", "Y", "b"]),
      (⟨"edge", 2⟩, ["X", "Y"]), (⟨"edge", 2⟩, ["X", ":to"]), (⟨"step", 3⟩, ["X", "b", "b"]),
      (⟨"step", 3⟩, ["a", ":to", "b"])]
  facts := [⟨"edge", ["a", "b"]⟩, ⟨"edge", ["a", "b"]⟩]
  relations := [⟨"edge", 2⟩]
  rules := [⟨"step", [.var "X", .var "Y", .const "b"], [⟨"edge", [.var "X", .var "Y"]⟩]⟩]
  queries :=
    [⟨[⟨"edge", [.var "X", .param "to"]⟩, ⟨"step", [.var "X", .const "b", .const "b"]⟩],
        "edge(X, :to), step(X, b, b)"⟩,
      ⟨[stepGoal], "step(a, :to, b)"⟩]

theorem parse_stepProgram :
    Program.parse ("edge(a, b). edge(a, b). step(X, Y, b) :- edge(X, Y). " ++
      "?- edge(X, :to), step(X, b, b). ?- step(a, :to, b).") = .ok ⟨stepProgram, 5, 0⟩ := by
  decide +kernel

/-- With `b` for the parameter, both ways say yes if the store refuses nothing. -/
theorem Program.reuse_agrees_step : ∃ q fragment,
    ((stepProgram.compiler .joinAll).resolve 1).compiler.reuse stepGoal = some q ∧
      (((stepProgram.compiler .joinAll).resolve 1).compiler.compileGoals none [stepGoal] []).2 =
        .ok fragment ∧
      (q.execute { params := [("to", "b")] } (stepProgram.materialize ⟨some {}⟩).store ""
        (fun _ ↦ none)).answer = .ok .yes ∧
      (({ fragment } : CompiledQuery).execute { params := [("to", "b")] }
        (stepProgram.materialize ⟨some {}⟩).store "" (fun _ ↦ none)).answer = .ok .yes := by
  obtain ⟨q, hq, hyes⟩ : ∃ q,
      ((stepProgram.compiler .joinAll).resolve 1).compiler.reuse stepGoal = some q ∧
      (q.execute { params := [("to", "b")] } (stepProgram.materialize ⟨some {}⟩).store ""
        (fun _ ↦ none)).answer = .ok .yes := ⟨_, rfl, rfl⟩
  have hsymbols : (stepProgram.materialize ⟨some {}⟩).symbols = .ok stepProgram.symbolTable := rfl
  have hconsts : ∀ text, .const text ∈ stepGoal.args → text ∈ stepProgram.constants := by
    intro text htext
    have hab : text = "a" ∨ text = "b" := by simpa [stepGoal] using htext
    rcases hab with rfl | rfl <;> decide
  have hparams : ∀ x, .param x ∈ stepGoal.args →
      ∃ text, ({ params := [("to", "b")] } : Config).param? x = some text := by
    intro x hx
    obtain rfl : x = "to" := by simpa [stepGoal] using hx
    exact ⟨"b", rfl⟩
  obtain ⟨fragment, -, hfragment, -, -, -, -, hequal⟩ :=
    Program.reuse_agrees (Program.collected_of_parse parse_stepProgram) hsymbols .joinAll 1 0 rfl
      hconsts hparams hq "" fun _ ↦ none
  exact ⟨q, fragment, hq, hfragment, hyes, (hequal rfl fun _ ↦ rfl).symm.trans hyes⟩

/-- The goals `p(X0)`, …, `p(X32)`. Each of them is a source, and so is each of their variables. -/
def crowd : List Goal := (List.range 33).map fun i ↦ ⟨"p", [.var s!"X{i}"]⟩

/-- The source of a program with a rule that has all goals of the crowd and a constant in its head. -/
def crowdSource : String :=
  "p(a). q(b). r(a) :- " ++ ", ".intercalate (crowd.map Goal.display) ++ ". ?- r(b)."

/-- The program that is read from `crowdSource`. -/
def crowdProgram : Program where
  symbols := [⟨"p", 1⟩, .constant "a", ⟨"q", 1⟩, .constant "b"]
  vars := (List.range 33).map fun i ↦ s!"X{i}"
  occurrences := [(⟨"p", 1⟩, ["a"]), (⟨"q", 1⟩, ["b"]), (⟨"r", 1⟩, ["a"])] ++
    (List.range 33).map (fun i ↦ (⟨"p", 1⟩, [s!"X{i}"])) ++ [(⟨"r", 1⟩, ["b"])]
  facts := [⟨"p", ["a"]⟩, ⟨"q", ["b"]⟩]
  relations := [⟨"p", 1⟩, ⟨"q", 1⟩]
  rules := [⟨"r", [.const "a"], crowd⟩]
  queries := [⟨[⟨"r", [.const "b"]⟩], "r(b)"⟩]

theorem parse_crowdProgram : Program.parse crowdSource = .ok ⟨crowdProgram, 4, 0⟩ := by
  decide +kernel

/-- **The two ways may differ where the store refuses.** The constants of `r(b)` and of the rule's head
differ, so the cache answers no without a look at the rule's scan. Nested in a scope, that scan has
more sources than the store allows for a block. -/
theorem Program.reuse_differs_crowd : ∃ q fragment,
    Program.parse crowdSource = .ok ⟨crowdProgram, 4, 0⟩ ∧
      (crowdProgram.materialize ⟨some {}⟩).symbols = .ok crowdProgram.symbolTable ∧
      ((crowdProgram.compiler .joinAll).resolve 1).report = .ok ⟨1, [⟨"r/1", .compiled 1⟩]⟩ ∧
      ((crowdProgram.compiler .joinAll).resolve 1).compiler.reuse ⟨"r", [.const "b"]⟩ = some q ∧
      (((crowdProgram.compiler .joinAll).resolve 1).compiler.compileGoals none
        [⟨"r", [.const "b"]⟩] []).2 = .ok fragment ∧
      (q.execute {} (crowdProgram.materialize ⟨some {}⟩).store "r(b)").answer = .ok .no ∧
      (({ fragment } : CompiledQuery).execute {} (crowdProgram.materialize ⟨some {}⟩).store
        "r(b)").answer = .error (.storage (.tooManySources 66)) := by
  have hcached : (((crowdProgram.compiler .joinAll).resolve 1).compiler.reuse
      ⟨"r", [.const "b"]⟩).map (fun q ↦
        (q.execute {} (crowdProgram.materialize ⟨some {}⟩).store "r(b)").answer) =
      some (.ok .no) := by
    decide +kernel
  have hembedded : (((crowdProgram.compiler .joinAll).resolve 1).compiler.compileGoals none
      [⟨"r", [.const "b"]⟩] []).2.toOption.map (fun fragment ↦
        (({ fragment } : CompiledQuery).execute {} (crowdProgram.materialize ⟨some {}⟩).store
          "r(b)").answer) = some (.error (.storage (.tooManySources 66))) := by
    decide +kernel
  obtain ⟨q, hq, hno⟩ := Option.map_eq_some_iff.mp hcached
  obtain ⟨fragment, hfragment, herror⟩ := Option.map_eq_some_iff.mp hembedded
  exact ⟨q, fragment, parse_crowdProgram, rfl, by decide +kernel, hq,
    except_toOption_eq_some hfragment, hno, herror⟩

end HornQuery
