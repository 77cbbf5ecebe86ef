import Mathlib
import HornQuery.Proofs.Answers
import HornQuery.Proofs.Rendering

/-!
# Who supplies a placeholder

A placeholder is a head variable of a rule or a parameter of a query, and either has one place that
supplies its value. Whatever a compiler has been asked to do with the program's own rules, the scan it
keeps for a rule has no placeholders but the head variables of that very rule, so that nesting it in
another scan, which binds all of them, leaves nothing of it behind. A compiled query has a text for each
head variable that is left in it, and its other placeholders are parameters written in its goals. A run
can therefore lack a value only for such a parameter (`Compiler.placeholders_supplied`).

No scan projects a placeholder, neither in its own block nor in one nested in it (`Scan.Bare`). So the
placeholders of a scan are those of its text, although nested projections are never written.
-/

namespace HornQuery

/-! ### Projections without placeholders -/

mutual

/-- No scan nested in the condition projects a placeholder. -/
def Condition.Bare : Condition → Prop
  | .eq _ _ => True
  | .exists scan => scan.Bare

/-- Neither the scan nor any scan nested in it projects a placeholder. -/
def Scan.Bare : Scan → Prop
  | ⟨_, conditions, projection⟩ =>
    (∀ entry ∈ projection, entry.2.placeholders = []) ∧ Condition.AllBare conditions

/-- No scan nested in the conditions projects a placeholder. -/
def Condition.AllBare : List Condition → Prop
  | [] => True
  | c :: cs => c.Bare ∧ Condition.AllBare cs

end

theorem Condition.allBare_iff {cs : List Condition} :
    Condition.AllBare cs ↔ ∀ c ∈ cs, c.Bare := by
  induction cs with
  | nil => simp [Condition.AllBare]
  | cons c cs ih => simp [Condition.AllBare, ih]

mutual

/-- In a bare condition, the placeholders that are collected scan by scan are those in its text. -/
theorem Condition.mem_placeholders_iff {key : Placeholder} :
    (c : Condition) → c.Bare →
      (key ∈ c.ownPlaceholders ∨ key ∈ c.nestedPlaceholders ↔ key ∈ c.textual)
  | .eq left right => fun _ ↦ by
    simp [Condition.ownPlaceholders, Condition.nestedPlaceholders, Condition.textual]
  | .exists scan => fun h ↦ by
    rw [Condition.ownPlaceholders, Condition.nestedPlaceholders, Condition.textual,
      scan.mem_placeholders_iff h]
    simp

/-- The placeholders of a scan that projects none are those of its text. -/
theorem Scan.mem_placeholders_iff {key : Placeholder} :
    (s : Scan) → s.Bare → (key ∈ s.placeholders ↔ key ∈ s.textual)
  | ⟨_, conditions, projection⟩ => fun h ↦ by
    have hprojection : projection.flatMap (fun entry ↦ entry.2.placeholders) = [] :=
      List.flatMap_eq_nil_iff.mpr h.1
    rw [Scan.placeholders, Scan.textual, hprojection, List.nil_append, List.mem_append]
    exact Condition.mem_placeholdersOf_iff conditions h.2

theorem Condition.mem_placeholdersOf_iff {key : Placeholder} :
    (cs : List Condition) → Condition.AllBare cs →
      (key ∈ Condition.ownPlaceholdersOf cs ∨ key ∈ Condition.nestedPlaceholdersOf cs ↔
        key ∈ Condition.textualOf cs)
  | [] => fun _ ↦ by
    simp [Condition.ownPlaceholdersOf, Condition.nestedPlaceholdersOf, Condition.textualOf]
  | c :: cs => fun h ↦ by
    have hfirst : key ∈ c.ownPlaceholders ∨ key ∈ c.nestedPlaceholders ↔ key ∈ c.textual :=
      c.mem_placeholders_iff h.1
    have hrest : key ∈ Condition.ownPlaceholdersOf cs ∨ key ∈ Condition.nestedPlaceholdersOf cs ↔
        key ∈ Condition.textualOf cs := Condition.mem_placeholdersOf_iff cs h.2
    simp only [Condition.ownPlaceholdersOf, Condition.nestedPlaceholdersOf, Condition.textualOf,
      List.mem_append, ← hfirst, ← hrest]
    tauto

end

/-- An expression without placeholders stays without them. -/
theorem Expr.placeholders_substitute {b : Bindings} {e : Expr} (h : e.placeholders = []) :
    (e.substitute b).placeholders = [] := by
  rw [Expr.placeholders_substitute_eq, h, List.flatMap_nil]

mutual

/-- Bindings do not bring placeholders into projections that have none. -/
theorem Condition.Bare.substitute {b : Bindings} :
    (c : Condition) → c.Bare → (c.substitute b).Bare
  | .eq _ _ => fun _ ↦ trivial
  | .exists scan => Scan.Bare.substitute scan

/-- Replacing placeholders does not put any into a projection. -/
theorem Scan.Bare.substitute {b : Bindings} : (s : Scan) → s.Bare → (s.substitute b).Bare
  | ⟨_, conditions, projection⟩ => fun h ↦ by
    refine ⟨fun entry hentry ↦ ?_, Condition.AllBare.substitute conditions h.2⟩
    obtain ⟨original, horiginal, rfl⟩ := List.mem_map.mp hentry
    exact Expr.placeholders_substitute (h.1 original horiginal)

theorem Condition.AllBare.substitute {b : Bindings} :
    (cs : List Condition) → Condition.AllBare cs →
      Condition.AllBare (Condition.substituteAll b cs)
  | [] => fun _ ↦ trivial
  | c :: cs => fun h ↦ ⟨Condition.Bare.substitute c h.1, Condition.AllBare.substitute cs h.2⟩

end

/-! ### The conditions of a scope -/

/-- Every condition of the scope satisfies `C`. -/
def Scope.Conditions (s : Scope) (C : Condition → Prop) : Prop :=
  ∀ x ∈ s.conditions, C x

theorem Scope.Conditions.require {s : Scope} {C : Condition → Prop} (hs : s.Conditions C)
    {x : Condition} (hx : C x) : (s.require x).Conditions C := by
  intro y hy
  rcases List.mem_append.mp hy with hy | hy
  · exact hs y hy
  · rw [List.mem_singleton.mp hy]
    exact hx

namespace Compiler

variable {c : Compiler} {rule : Option Rule} {s s' : Scope} {C : Condition → Prop}

/-- Arguments add conditions only for new variables, and these are equations. -/
theorem argument_conditions (heq : ∀ left right, C (.eq left right)) (hs : s.Conditions C) {t : Term}
    {value : Expr} (h : c.argument rule s t = .ok (value, s')) : s'.Conditions C := by
  obtain ⟨_, _, -, -, -, -, rfl⟩ | ⟨name, -, -, hid⟩ | ⟨_, -, -, rfl⟩ | ⟨_, _, -, -, -, rfl⟩ :=
    argument_cases h
  · exact hs
  · obtain ⟨i, -, hfound⟩ | ⟨-, hadded⟩ := s.idOf_cases name
    · obtain ⟨-, rfl⟩ := Prod.mk.inj (hfound.symm.trans hid)
      exact hs
    · obtain ⟨-, rfl⟩ := Prod.mk.inj (hadded.symm.trans hid)
      exact hs.require (heq _ _)
  · exact hs
  · exact hs

/-- Matching columns adds equations. -/
theorem matchColumns_conditions (heq : ∀ left right, C (.eq left right)) {source : String}
    {position : Nat} {ts : List Term} (hs : s.Conditions C)
    (h : c.matchColumns rule source position ts s = .ok s') : s'.Conditions C := by
  induction ts generalizing position s with
  | nil =>
    obtain rfl : s = s' := by simpa [matchColumns] using h
    exact hs
  | cons t ts ih =>
    obtain ⟨value, s₁, harg, hrest⟩ := matchColumns_cons h
    exact ih ((argument_conditions heq hs harg).require (heq _ _)) hrest

/-- So does matching a head. -/
theorem matchHead_conditions (heq : ∀ left right, C (.eq left right)) {key : Symbol}
    {pairs : List (Term × Term)} {b b' : Bindings} (hs : s.Conditions C)
    (h : c.matchHead rule key pairs b s = .ok (b', s')) : s'.Conditions C := by
  induction pairs generalizing b s with
  | nil =>
    obtain ⟨-, rfl⟩ : b = b' ∧ s = s' := by simpa [matchHead] using h
    exact hs
  | cons pair rest ih =>
    obtain ⟨value, s₁, harg, hrest⟩ := matchHead_cons h
    have hs₁ := argument_conditions heq hs harg
    obtain ⟨_, _, -, -, hrest⟩ | ⟨_, -, -, hrest⟩ | ⟨_, _, -, -, hrest⟩ | ⟨_, -, hrest⟩ := hrest
    · exact ih (hs₁.require (heq _ _)) hrest
    · exact ih hs₁ hrest
    · exact ih (hs₁.require (heq _ _)) hrest
    · exact ih hs₁ hrest

/-- Goals add equations and the existence of combinations in scans of the cache. -/
theorem addGoals_conditions (heq : ∀ left right, C (.eq left right))
    (hnested : ∀ entry ∈ c.fragments, ∀ b, C (.exists (entry.2.scan.substitute b)))
    (hs : s.Conditions C) {goals : List Goal} (h : c.addGoals rule goals s = .ok s') :
    s'.Conditions C := by
  induction goals generalizing s with
  | nil =>
    obtain rfl : s = s' := by simpa [addGoals] using h
    exact hs
  | cons g gs ih =>
    obtain ⟨s₁, hgoal, hrest⟩ := addGoals_cons h
    refine ih ?_ hrest
    obtain ⟨fragment, hfragment, hadd⟩ | ⟨-, -, -, -, hadd⟩ := addGoal_cases hgoal
    · obtain ⟨r, b, s₂, -, hmatch, rfl⟩ := addRule_eq_ok hadd
      exact (matchHead_conditions heq hs hmatch).require
        (hnested _ (mem_of_lookup_eq_some hfragment) b)
    · obtain ⟨id, -, hcolumns⟩ := addFacts_eq_ok hadd
      refine matchColumns_conditions heq (Scope.Conditions.require ?_ (heq _ _)) hcolumns
      exact hs

end Compiler

/-! ### Finished scopes -/

/-- Where no placeholder is projected, the text shows those of the conditions. -/
theorem Fragment.mem_order_iff_textual {f : Fragment} {key : Placeholder}
    (h : ∀ entry ∈ f.scan.projection, entry.2.placeholders = []) :
    key ∈ f.order ↔ key ∈ f.scan.textual := by
  cases hshape : f.shape with
  | existence => rw [order_existence hshape, Distinct.mem_ofList]
  | rows columns =>
    rw [order_rows hshape, List.flatMap_eq_nil_iff.mpr h, List.nil_append, Distinct.mem_ofList]

namespace Scope

variable {s : Scope} {names : List String}

/-- A finished scope projects columns, never placeholders. -/
theorem placeholders_projection_finish :
    ∀ entry ∈ (s.finish names).scan.projection, entry.2.placeholders = [] := by
  intro entry hentry
  obtain ⟨column, -, rfl⟩ := List.mem_map.mp hentry
  rfl

/-- So its scan is bare if its conditions are. -/
theorem bare_finish (hs : s.Conditions Condition.Bare) : (s.finish names).scan.Bare :=
  ⟨placeholders_projection_finish, Condition.allBare_iff.mpr hs⟩

/-- The parameters of the SQL text are the placeholders of the conditions. -/
theorem mem_order_finish {key : Placeholder} :
    key ∈ (s.finish names).order ↔ key ∈ Condition.textualOf s.conditions :=
  Fragment.mem_order_iff_textual placeholders_projection_finish

end Scope

/-! ### The cache -/

namespace Compiler

variable {c : Compiler}

/-- A scope projects none of the placeholders that scans of the cache bring along. -/
theorem bare_of_addGoals (hc : ∀ entry ∈ c.fragments, entry.2.scan.Bare) {rule : Option Rule}
    {goals : List Goal} {s : Scope} (h : c.openScope.2.addGoals rule goals c.openScope.1 = .ok s)
    (names : List String) : (s.finish names).scan.Bare := by
  have hnested : ∀ entry ∈ c.openScope.2.fragments, ∀ b,
      (Condition.exists (entry.2.scan.substitute b)).Bare :=
    fun entry hentry b ↦ Scan.Bare.substitute _ (hc entry hentry)
  exact Scope.bare_finish (addGoals_conditions (fun _ _ ↦ trivial) hnested
    (fun x hx ↦ absurd hx List.not_mem_nil) h)

/-- Every scan in the cache belongs to a rule of the program, projects no placeholder, and has no
placeholders but the head variables of its rule. -/
structure Owned (c : Compiler) : Prop where
  keys : ∀ entry ∈ c.fragments, ∃ r ∈ c.program.rules, r.key = entry.1
  bare : ∀ entry ∈ c.fragments, entry.2.scan.Bare
  selfContained : c.SelfContained

/-- Compiling a rule of the program adds at most a scan that belongs to it. -/
theorem owned_compileRule {p : Program} (hp : p.Closed) {r : Rule} (hr : r ∈ c.program.rules)
    (hc : c.program = p ∧ c.Owned) :
    (c.compileRule r).1.program = p ∧ (c.compileRule r).1.Owned := by
  obtain ⟨hprogram, howned⟩ := hc
  obtain ⟨hsame, hself⟩ := selfContained_compileRule hp hr ⟨hprogram, howned.selfContained⟩
  refine ⟨hsame, ?_, ?_, hself⟩ <;>
    obtain ⟨_, -, h⟩ | ⟨-, s, hgoals, h⟩ | ⟨-, _, -, h⟩ := c.compileRule_cases r <;> rw [h]
  · exact howned.keys
  · intro entry hentry
    rcases List.mem_append.mp hentry with hentry | hentry
    · exact howned.keys entry hentry
    · rw [List.mem_singleton.mp hentry]
      exact ⟨r, hr, rfl⟩
  · exact howned.keys
  · exact howned.bare
  · intro entry hentry
    rcases List.mem_append.mp hentry with hentry | hentry
    · exact howned.bare entry hentry
    · rw [List.mem_singleton.mp hentry]
      exact bare_of_addGoals howned.bare hgoals _
  · exact howned.bare

/-- Therefore all that is cached belongs to rules, after any history over the program's own
rules. -/
theorem owned_performAll {p : Program} (hp : p.Closed) (symbols : SymbolTable) (policy : BodyPolicy)
    {ops : List Operation} (hops : ∀ op ∈ ops, op.Own p) :
    ((Compiler.fresh p symbols policy).performAll ops).1.Owned := by
  have hempty : (Compiler.fresh p symbols policy).Owned :=
    ⟨fun _ h ↦ absurd h List.not_mem_nil, fun _ h ↦ absurd h List.not_mem_nil,
      fun _ h ↦ absurd h List.not_mem_nil⟩
  exact (performAll_induction (P := fun c ↦ c.program = p ∧ c.Owned)
    (fun _ _ hr hc ↦ owned_compileRule hp hr hc)
    (fun _ _ _ hc ↦ ⟨hc.1, hc.2.keys, hc.2.bare, hc.2.selfContained⟩)
    (fun _ hc ↦ ⟨hc.1, hc.2.keys, hc.2.bare, hc.2.selfContained⟩) hops ⟨rfl, hempty⟩).2

/-! ### Queries -/

/-- A parameter of a compiled query's SQL is a head variable with a text from the query, or a parameter
of one of its goals. -/
theorem compileQuery_order (hself : c.SelfContained) {q : Query} {compiled : CompiledQuery}
    (h : (c.compileQuery q).2 = .ok compiled) {key : Placeholder}
    (hkey : key ∈ compiled.fragment.order) :
    (∃ k x text, key = .rule k x ∧ compiled.bindings.lookup key = some text) ∨
      ∃ x, key = .external x ∧ ∃ g ∈ c.policy.select q.goals, .param x ∈ g.args := by
  obtain ⟨cached, hreuse, heq⟩ | ⟨-, heq⟩ := c.compileQuery_cases q <;> rw [heq] at h
  · obtain rfl := Except.ok.inj h
    obtain ⟨g, hgoals, -, -, hg⟩ := reuse?_eq_some hreuse
    have hshape : cached.fragment.shape = .existence := by
      obtain ⟨_, _, _, -, -, -, rfl⟩ := reuse_eq_some hg
      rfl
    rw [Fragment.order_existence hshape, Distinct.mem_ofList] at hkey
    obtain ⟨x, text, rfl, htext⟩ | ⟨x, rfl, hx⟩ := reuse_placeholder hself hg hkey
    · exact Or.inl ⟨_, x, text, rfl, htext⟩
    · exact Or.inr ⟨x, rfl, g, by rw [hgoals]; exact List.mem_singleton.mpr rfl, hx⟩
  · obtain ⟨fragment, hfragment, rfl⟩ := except_map_eq_ok h
    obtain ⟨s, hgoals, rfl⟩ := compileGoals_eq_ok hfragment
    have hopen : c.openScope.2.SelfContained := hself
    have hneeds : s.Needs fun key ↦
        ∃ x, key = .external x ∧ ∃ g ∈ c.policy.select q.goals, .param x ∈ g.args := by
      refine addGoals_needs hopen (fun _ h ↦ absurd h List.not_mem_nil)
        (fun g hg t ht key hkey ↦ ?_) hgoals
      cases t with
      | var x => exact absurd hkey List.not_mem_nil
      | const text => exact absurd hkey List.not_mem_nil
      | param x => exact ⟨x, List.mem_singleton.mp hkey, g, hg, ht⟩
    exact Or.inr (hneeds key (Scope.mem_order_finish.mp hkey))

end Compiler

/-! ### Missing values -/

/-- Values are missing only for a placeholder that has none. -/
theorem Config.bind_eq_error {config : Config} {bindings : List (Placeholder × String)}
    {keys : List Placeholder} {e : Error} (h : config.bind bindings keys = .error e) :
    ∃ key ∈ keys, config.valueOf bindings key = none ∧ e = .missingBinding key := by
  induction keys with
  | nil => cases h
  | cons key keys ih =>
    rw [Config.bind] at h
    cases hvalue : config.valueOf bindings key with
    | none =>
      rw [hvalue] at h
      exact ⟨key, List.mem_cons_self, hvalue, (Except.error.inj h).symm⟩
    | some value =>
      rw [hvalue] at h
      cases hrest : config.bind bindings keys with
      | ok values => simp [hrest, Except.map] at h
      | error e' =>
        obtain ⟨k, hk, hnone, heq⟩ := ih (hrest.trans (congrArg _ (by simpa [hrest, Except.map] using h)))
        exact ⟨k, List.mem_cons_of_mem _ hk, hnone, heq⟩

/-- An execution that is answered by an error lacks the value of a placeholder. -/
theorem CompiledQuery.execute_eq_error {q : CompiledQuery} {config : Config} {store : Store}
    {text message : String} (h : (q.execute config store text).answer = .ok (.error message)) :
    ∃ key ∈ q.fragment.order, config.valueOf q.bindings key = none ∧
      message = (Error.missingBinding key).message := by
  unfold execute at h
  split at h
  · rw [Fragment.emptyAnswer] at h
    split at h <;> cases h
  · simp only at h
    split at h
    · rename_i e he
      obtain ⟨key, hkey, hnone, rfl⟩ := Config.bind_eq_error he
      exact ⟨key, hkey, hnone, (Answer.error.inj (Except.ok.inj h)).symm⟩
    · split at h
      · cases h
      · rename_i table _
        rw [Fragment.answer] at h
        split at h
        · split at h
          · split at h <;> cases h
          · cases h
        · cases h

/-! ### Wordings -/

namespace Placeholder

/-- A parameter is displayed as it is written. -/
theorem display_external (x : String) : (external x).display = ":" ++ x := rfl

/-- A head variable is displayed with a parenthesis first, so that it cannot be taken for a
parameter. -/
theorem head?_display_rule (k : Symbol) (x : String) :
    (rule k x).display.toList.head? = some '(' := by
  have h : (rule k x).display = "(" ++ k.display ++ ", " ++ x ++ ")" := rfl
  simp [h, String.toList_append]

/-- A parameter of a query is told by its written form. -/
theorem eq_of_display_external {key : Placeholder} {x : String}
    (h : key.display = (external x).display) : key = external x := by
  cases key with
  | rule k y =>
    have hfirst := head?_display_rule k y
    rw [h, display_external, String.toList_append] at hfirst
    cases hfirst
  | external y =>
    rw [display_external, display_external, String.append_right_inj] at h
    rw [h]

end Placeholder

theorem Error.message_missingBinding (key : Placeholder) :
    (Error.missingBinding key).message =
      "Required parameter " ++ key.display ++ " missing at execution" := rfl

/-- The message tells which parameter is missing, as far as its display does. -/
theorem Error.message_missingBinding_inj {key key' : Placeholder} :
    (Error.missingBinding key).message = (Error.missingBinding key').message ↔
      key.display = key'.display := by
  rw [message_missingBinding, message_missingBinding, String.append_left_inj,
    String.append_right_inj]

/-- How the wording of a compile error begins. -/
def CompileError.opening : CompileError → String
  | .arityMismatch _ _ => "Arity mismatch: "
  | .unknownRelation _ => "Unknown relation: "
  | .unknownSymbol _ => "Unknown symbol: "
  | .ruleFailed _ _ => "Rule "

/-- The wording of a compile error says of which kind it is. -/
theorem CompileError.message_opening (e : CompileError) : ∃ rest, e.message = e.opening ++ rest := by
  cases e with
  | arityMismatch used defined =>
    refine ⟨used.display ++ " used, but " ++ used.text ++ " is defined with arity "
      ++ Text.bracketed (defined.map toString), ?_⟩
    simp only [← String.append_assoc]
    rfl
  | unknownRelation relation => exact ⟨relation.display, rfl⟩
  | unknownSymbol symbol => exact ⟨symbol.display, rfl⟩
  | ruleFailed key reason =>
    refine ⟨key.display ++ " failed to compile: " ++ reason, ?_⟩
    simp only [← String.append_assoc]
    rfl

/-- No compile error reads like a missing parameter. -/
theorem CompileError.message_ne_missingBinding (e : CompileError) (key : Placeholder) :
    e.message ≠ (Error.missingBinding key).message := by
  intro h
  obtain ⟨rest, hrest⟩ := e.message_opening
  have hfirst := congrArg (fun s ↦ s.toList.take 2) (hrest.symm.trans h)
  rw [Error.message_missingBinding] at hfirst
  cases e <;> simp [opening, String.toList_append] at hfirst

/-- No other compile error is worded like one about a symbol without a number. -/
theorem CompileError.message_ne_unknownSymbol {e : CompileError}
    (h : ∀ symbol, e ≠ .unknownSymbol symbol) (symbol : Symbol) :
    e.message ≠ (CompileError.unknownSymbol symbol).message := by
  intro hmessage
  obtain ⟨rest, hrest⟩ := e.message_opening
  obtain ⟨rest', hrest'⟩ := (CompileError.unknownSymbol symbol).message_opening
  have hfirst := congrArg (fun s ↦ s.toList.take 9) (hrest.symm.trans (hmessage.trans hrest'))
  cases e with
  | unknownSymbol other => exact h other rfl
  | _ => simp [opening, String.toList_append] at hfirst

/-! ### Runs -/

/-- If the answer says that a parameter is missing, the parameter stands in a goal of the query and is
not configured. -/
def Config.LacksOnlyOwn (config : Config) (q : Query) (answer : Answer) : Prop :=
  ∀ key, answer = .error (Error.missingBinding key).message →
    ∃ x, key = .external x ∧ config.param? x = none ∧
      ∃ g ∈ config.bodyPolicy.select q.goals, .param x ∈ g.args

/-- If an answer complains of a missing parameter, it is one of the query's own. -/
theorem Compiler.lacksOnlyOwn_of_answer {c : Compiler} (hself : c.SelfContained) {config : Config}
    (hpolicy : c.policy = config.bodyPolicy) {store : Store} {q : Query} {outcome : Outcome}
    (h : (c.answer config store q).outcomes = .ok [outcome]) : config.LacksOnlyOwn q outcome.answer := by
  rintro key hkey
  obtain ⟨-, ⟨e, -, heq⟩ | ⟨compiled, sql, hcompiled, heq⟩⟩ := c.answer_cases config store q
  · obtain rfl := List.singleton_inj.mp (Except.ok.inj (h.symm.trans heq))
    exact absurd (Answer.error.inj hkey) (e.message_ne_missingBinding key)
  · obtain ⟨answer, hanswer, hsame⟩ := except_map_eq_ok (heq.symm.trans h)
    obtain rfl := List.singleton_inj.mp hsame
    obtain rfl : answer = .error (Error.missingBinding key).message := hkey
    obtain ⟨key', hmem, hnone, hmessage⟩ := CompiledQuery.execute_eq_error hanswer
    obtain ⟨k, x, text, rfl, htext⟩ | ⟨x, rfl, hx⟩ := compileQuery_order hself hcompiled hmem
    · -- A head variable has a text, so it cannot be the one that is missing.
      have hsome : config.valueOf compiled.bindings (.rule k x) = some text := htext
      rw [hsome] at hnone
      cases hnone
    · rw [hpolicy] at hx
      exact ⟨x, Placeholder.eq_of_display_external (Error.message_missingBinding_inj.mp hmessage),
        hnone, hx⟩

namespace Compiler

/-- **Every placeholder has a supplier.** Take a collected program and whatever was asked of its
compiler before, as long as only rules of the program were compiled.

* The placeholders of a scan in the cache are head variables of the rule it is kept for.
* In a compiled query, each placeholder of a rule has a text, and every other placeholder is a
  parameter of a goal that takes part.
* If an answer of a run says that a parameter is missing, it is one that such a goal of that very query
  names, and it is not configured. -/
theorem placeholders_supplied {p : Program} (hp : p.Collected) (symbols : SymbolTable)
    (policy : BodyPolicy) {ops : List Operation} (hops : ∀ op ∈ ops, op.Own p) {c : Compiler}
    (hc : c = ((Compiler.fresh p symbols policy).performAll ops).1) :
    (∀ entry ∈ c.fragments, ∃ r ∈ p.rules, r.key = entry.1 ∧
        ∀ key ∈ entry.2.params, ∃ x ∈ r.params, key = .rule r.key x) ∧
      (∀ q compiled, (c.compileQuery q).2 = .ok compiled →
        (∀ k x, .rule k x ∈ compiled.fragment.render.params →
            ∃ text, compiled.bindings.lookup (.rule k x) = some text) ∧
          ∀ x, .external x ∈ compiled.fragment.render.params →
            ∃ g ∈ policy.select q.goals, .param x ∈ g.args) ∧
      ∀ config store report, (p.run config store).result = .ok report →
        List.Forall₂ (fun q outcome ↦ config.LacksOnlyOwn q outcome.answer) p.queries report.queries := by
  have hclosed := hp.closed
  have howned : c.Owned := hc ▸ owned_performAll hclosed symbols policy hops
  have hsame : SameTask (Compiler.fresh p symbols policy) c := hc ▸ sameTask_performAll hops
  refine ⟨fun entry hentry ↦ ?_, fun q compiled hcompiled ↦ ?_, fun config store report hrun ↦ ?_⟩
  · -- What is cached belongs to a rule, and has no placeholders but its head variables.
    obtain ⟨r, hr, hkey⟩ := howned.keys entry hentry
    rw [hsame.program] at hr
    have hrule : c.program.rule? entry.1 = some r := by
      rw [hsame.program, ← hkey]
      exact Program.rule?_of_mem hclosed hr
    refine ⟨r, hr, hkey, fun key hmem ↦ ?_⟩
    have htext := (entry.2.scan.mem_placeholders_iff (howned.bare entry hentry)).mp
      (Distinct.mem_ofList.mp hmem)
    obtain ⟨x, hx, rfl⟩ := howned.selfContained entry hentry r hrule key htext
    exact ⟨x, Term.mem_vars.mpr hx, by rw [hkey]⟩
  · constructor
    · intro k x hmem
      rw [Fragment.render_params] at hmem
      obtain ⟨_, _, text, -, htext⟩ | ⟨y, hy, -⟩ :=
        compileQuery_order howned.selfContained hcompiled hmem
      · exact ⟨text, htext⟩
      · cases hy
    · intro x hmem
      rw [Fragment.render_params] at hmem
      obtain ⟨k, y, _, hy, -⟩ | ⟨y, hy, hgoal⟩ :=
        compileQuery_order howned.selfContained hcompiled hmem
      · cases hy
      · obtain rfl := Placeholder.external.inj hy
        rwa [hsame.policy] at hgoal
  · obtain ⟨symbols', -, houtcomes⟩ := Program.run_eq_ok hrun
    have hresolved := selfContained_resolve hclosed symbols' config.bodyPolicy config.maxPasses
    have hpolicy := (sameTask_resolve (Compiler.fresh p symbols' config.bodyPolicy)
      config.maxPasses).policy
    refine (answerAll_outcomes 0 houtcomes).imp ?_
    rintro q outcome ⟨n, hn⟩
    exact lacksOnlyOwn_of_answer (c := Compiler.later _ n) hresolved hpolicy hn

/-- After a resolution and a query, the cached scan waits for the head variables of its rule. Without a
value for the parameter `to` both queries of the program are answered by an error that names it. -/
theorem placeholders_supplied_step :
    (∃ fragment, ((stepProgram.compiler .joinAll).performAll
          [.resolve 1, .compileQuery ⟨[stepGoal], ""⟩]).1.fragments = [(⟨"step", 3⟩, fragment)] ∧
        fragment.params = [.rule ⟨"step", 3⟩ "X", .rule ⟨"step", 3⟩ "Y"] ∧
        ∃ r ∈ stepProgram.rules, r.key = ⟨"step", 3⟩ ∧
          ∀ key ∈ fragment.params, ∃ x ∈ r.params, key = .rule r.key x) ∧
      ∃ report, (stepProgram.run {} {}).result = .ok report ∧
        report.queries.map Outcome.answer =
          [.error "Required parameter :to missing at execution",
            .error "Required parameter :to missing at execution"] ∧
        List.Forall₂ (fun q outcome ↦ ({} : Config).LacksOnlyOwn q outcome.answer)
          stepProgram.queries report.queries := by
  have hcollected := Program.collected_of_parse parse_stepProgram
  have hops : ∀ op ∈ [Operation.resolve 1, .compileQuery ⟨[stepGoal], ""⟩], op.Own stepProgram := by
    simp [Operation.Own]
  obtain ⟨hcache, -, hrun⟩ :=
    placeholders_supplied hcollected stepProgram.symbolTable .joinAll hops rfl
  have hreport : (stepProgram.run {} {}).result =
      .ok ⟨3, 2, ⟨1, [⟨"step/3", .compiled 1⟩]⟩,
        [⟨"edge(X, :to), step(X, b, b)", none, .error "Required parameter :to missing at execution"⟩,
          ⟨"step(a, :to, b)", none, .error "Required parameter :to missing at execution"⟩]⟩ := by
    decide +kernel
  exact ⟨⟨_, rfl, rfl, hcache _ List.mem_cons_self⟩, _, hreport, rfl, hrun {} {} _ hreport⟩

end Compiler

end HornQuery
