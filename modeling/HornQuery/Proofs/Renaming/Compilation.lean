import Mathlib
import HornQuery.Proofs.Compilation
import HornQuery.Proofs.Renaming.Evaluation

/-!
# Compiling programs that correspond

Two programs correspond if they say the same under other names, as far as goals take part in them
(`Program.Corresponds`). Which goals do is a matter of the policy, and the two programs may each have
their own; goals that do not take part may be anything.

Compiling the two leads to the same fragments up to names, and to errors that say the same
(`Compiler.compileRule_corresponds`, `Compiler.compileQuery_corresponds`). A rule that failed keeps the
wording of its error as a reason, and an error of a rule that needs it quotes that reason. So errors
correspond if they are of the same kind with the names changed, and reasons correspond if they are
wordings of errors that do.
-/

namespace HornQuery

/-! ### Results that are alike -/

section Alike

variable {ε ε' α α' β β' : Type} {E : ε → ε' → Prop} {R : α → α' → Prop} {S : β → β' → Prop}

/-- Both are values that `R` relates, or both are errors that `E` relates. -/
inductive Alike (E : ε → ε' → Prop) (R : α → α' → Prop) : Except ε α → Except ε' α' → Prop
  | ok {a : α} {a' : α'} (h : R a a') : Alike E R (.ok a) (.ok a')
  | error {e : ε} {e' : ε'} (h : E e e') : Alike E R (.error e) (.error e')

namespace Alike

variable {x : Except ε α} {x' : Except ε' α'}

theorem ok_inv {a : α} {a' : α'} (h : Alike E R (.ok a) (.ok a')) : R a a' := by
  cases h with
  | ok ha => exact ha

/-- Values that are related are the values found. -/
theorem attach (h : Alike E R x x') :
    Alike E (fun a a' ↦ x = .ok a ∧ x' = .ok a' ∧ R a a') x x' := by
  cases h with
  | ok ha => exact .ok ⟨rfl, rfl, ha⟩
  | error he => exact .error he

/-- Values may be related by less. -/
theorem imp {R' : α → α' → Prop} (h : Alike E R x x') (himp : ∀ a a', R a a' → R' a a') :
    Alike E R' x x' := by
  cases h with
  | ok ha => exact .ok (himp _ _ ha)
  | error he => exact .error he

theorem imp_error {E' : ε → ε' → Prop} (h : Alike E R x x') (himp : ∀ e e', E e e' → E' e e') :
    Alike E' R x x' := by
  cases h with
  | ok ha => exact .ok ha
  | error he => exact .error (himp _ _ he)

/-- If two first steps are alike, and so is what follows related values, then both chains are. -/
theorem bind {f : α → Except ε β} {f' : α' → Except ε' β'} (h : Alike E R x x')
    (hf : ∀ a a', R a a' → Alike E S (f a) (f' a')) : Alike E S (x >>= f) (x' >>= f') := by
  cases h with
  | ok ha => exact hf _ _ ha
  | error he => exact .error he

/-- The same for functions that cannot fail. -/
theorem map {f : α → β} {f' : α' → β'} (h : Alike E R x x')
    (hf : ∀ a a', R a a' → S (f a) (f' a')) : Alike E S (x.map f) (x'.map f') := by
  cases h with
  | ok ha => exact .ok (hf _ _ ha)
  | error he => exact .error he

end Alike

end Alike

section Lists

variable {α β γ δ : Type}

/-- In lists with related entries, the first entries that pass a test are related if the test cannot
tell related entries apart. -/
theorem find?_rel {R : α → β → Prop} {l : List α} {l' : List β} (h : List.Forall₂ R l l')
    {p : α → Bool} {q : β → Bool} (hpq : ∀ a b, R a b → p a = q b) :
    Option.Rel R (l.find? p) (l'.find? q) := by
  induction h with
  | nil => exact .none
  | cons hab _ ih =>
    rw [List.find?_cons, List.find?_cons, ← hpq _ _ hab]
    split
    · exact .some hab
    · exact ih

theorem map_eq_of_forall₂ {R : α → β → Prop} {l : List α} {l' : List β} (h : List.Forall₂ R l l')
    {f : α → γ} {g : β → γ} (hfg : ∀ a b, R a b → g b = f a) : l'.map g = l.map f := by
  induction h with
  | nil => rfl
  | cons hab _ ih => rw [List.map_cons, List.map_cons, hfg _ _ hab, ih]

/-- Searches through related lists find the same thing, up to its image. -/
theorem findSome?_of_forall₂ {R : α → β → Prop} {l : List α} {l' : List β}
    (h : List.Forall₂ R l l') {f : α → Option γ} {g : β → Option δ} {k : γ → δ}
    (hfg : ∀ a b, R a b → g b = (f a).map k) : l'.findSome? g = (l.findSome? f).map k := by
  induction h with
  | nil => rfl
  | @cons a b l l' hab _ ih =>
    rw [List.findSome?_cons, List.findSome?_cons, hfg a b hab, ih]
    cases f a <;> rfl

/-- Under renamed keys, related entries are found. -/
theorem lookup_rel [DecidableEq α] [DecidableEq β] {f : α → β} (hf : Function.Injective f)
    {R : γ → δ → Prop} {l : List (α × γ)} {l' : List (β × δ)}
    (h : List.Forall₂ (fun e e' ↦ e'.1 = f e.1 ∧ R e.2 e'.2) l l') (a : α) :
    Option.Rel R (l.lookup a) (l'.lookup (f a)) := by
  induction h with
  | nil => exact .none
  | cons he _ ih =>
    simp only [lookup_cons_ite, he.1, hf.eq_iff]
    split
    · exact .some he.2
    · exact ih

end Lists

variable {ρ : Renaming} {π π' : BodyPolicy}

/-! ### Errors and reasons -/

/-- The errors are of the same kind, with the names changed. -/
inductive CompileError.Corresponds (ρ : Renaming) : CompileError → CompileError → Prop
  | arityMismatch (used : Symbol) (defined : List Nat) :
    Corresponds ρ (.arityMismatch used defined) (.arityMismatch (used.rename ρ) defined)
  | unknownRelation (relation : Symbol) :
    Corresponds ρ (.unknownRelation relation) (.unknownRelation (relation.rename ρ))
  | unknownSymbol (symbol : Symbol) :
    Corresponds ρ (.unknownSymbol symbol) (.unknownSymbol (symbol.rename ρ))
  | notCompiled (rule : Symbol) :
    Corresponds ρ (.ruleFailed rule "rule is not compiled yet")
      (.ruleFailed (rule.rename ρ) "rule is not compiled yet")
  | ruleFailed (rule : Symbol) {cause cause' : CompileError} (h : Corresponds ρ cause cause') :
    Corresponds ρ (.ruleFailed rule cause.message) (.ruleFailed (rule.rename ρ) cause'.message)

/-- The reasons are wordings of errors that correspond. -/
def CorrespondingReasons (ρ : Renaming) (reason reason' : String) : Prop :=
  ∃ e e', CompileError.Corresponds ρ e e' ∧ reason = e.message ∧ reason' = e'.message

/-- The second result is the image of the first, or both are errors that correspond. -/
abbrev CompilesTo {α α' : Type} (ρ : Renaming) (f : α → α') :
    Except CompileError α → Except CompileError α' → Prop :=
  Alike (CompileError.Corresponds ρ) fun a a' ↦ a' = f a

/-! ### Programs -/

/-- The rules have the same head and the same goals that take part, under other names. -/
structure Rule.Corresponds (ρ : Renaming) (π π' : BodyPolicy) (r r' : Rule) : Prop where
  name : r'.name = ρ.text r.name
  head : r'.head = r.head.map (Term.rename ρ)
  body : π'.select r'.body = (π.select r.body).map (Goal.rename ρ)

namespace Rule.Corresponds

variable {r r' : Rule}

/-- Rules that correspond have corresponding keys, since their heads are equally long. -/
theorem key (h : r.Corresponds ρ π π' r') : r'.key = r.key.rename ρ := by
  simp [Rule.key, Symbol.rename, h.name, h.head]

/-- A variable stands in the head of one rule exactly if its new name stands in the other's. -/
theorem isParam (h : r.Corresponds ρ π π' r') (x : String) : r'.isParam (ρ.var x) = r.isParam x := by
  have hvar : Term.var (ρ.var x) = (Term.var x).rename ρ := rfl
  rw [Bool.eq_iff_iff]
  simp only [Rule.isParam, List.contains_iff_mem, h.head, hvar,
    List.mem_map_of_injective Term.rename_injective]

end Rule.Corresponds

/-- The programs have the same symbols, facts, rules and queries under other names, as far as goals
take part. -/
structure Program.Corresponds (ρ : Renaming) (π π' : BodyPolicy) (p p' : Program) : Prop where
  symbols : p'.symbols = p.symbols.map (Symbol.rename ρ)
  facts : p'.facts = p.facts.map (Fact.rename ρ)
  relations : p'.relations = p.relations.map (Symbol.rename ρ)
  rules : List.Forall₂ (Rule.Corresponds ρ π π') p.rules p'.rules
  queries : List.Forall₂ (fun q q' ↦ π'.select q'.goals = (π.select q.goals).map (Goal.rename ρ))
    p.queries p'.queries

namespace Program.Corresponds

variable {p p' : Program} (h : p.Corresponds ρ π π' p')

include h

/-- Rules are found under the new names of their keys. Different keys have different new names, so
no rule is found in another's place. -/
theorem rule? (key : Symbol) :
    Option.Rel (Rule.Corresponds ρ π π') (p.rule? key) (p'.rule? (key.rename ρ)) :=
  find?_rel h.rules fun r r' hr ↦ by simp only [hr.key, Symbol.rename_inj]

/-- So there is a rule for a symbol in both programs or in none. -/
theorem isSome_rule? (key : Symbol) : (p'.rule? (key.rename ρ)).isSome = (p.rule? key).isSome := by
  have hrule := h.rule? key
  generalize p.rule? key = r, p'.rule? _ = r' at hrule
  cases hrule <;> rfl

/-- There are facts for a relation in both programs or in none. -/
theorem hasFacts (relation : Symbol) : p'.hasFacts (relation.rename ρ) = p.hasFacts relation := by
  rw [Program.hasFacts, Program.hasFacts, h.relations, Bool.eq_iff_iff, List.contains_iff_mem,
    List.contains_iff_mem, List.mem_map_of_injective Symbol.rename_injective]

theorem keys : p'.rules.map Rule.key = (p.rules.map Rule.key).map (Symbol.rename ρ) := by
  rw [List.map_map]
  exact map_eq_of_forall₂ h.rules fun r r' hr ↦ hr.key

/-- Renaming does not touch arities. -/
theorem definedArities (name : String) : p'.definedArities (ρ.text name) = p.definedArities name := by
  have hrules : ∀ (q : Program) (text : String),
      (q.rules.filter fun r ↦ r.name = text).map (·.head.length) =
        ((q.rules.map Rule.key).filter fun key ↦ key.text = text).map Symbol.arity := by
    intro q text
    simp only [List.filter_map, List.map_map]
    rfl
  simp only [Program.definedArities, hrules, h.keys, h.relations, List.filter_map, List.map_map,
    Function.comp_def, Symbol.rename, ρ.text_injective.eq_iff]

end Program.Corresponds

/-- The tables keep the same numbers for symbols under other names. -/
def SymbolTable.Corresponds (ρ : Renaming) (t t' : SymbolTable) : Prop :=
  t'.entries = t.entries.map (Prod.map (Symbol.rename ρ) id)

/-- A symbol has the number that its new name has. -/
theorem SymbolTable.Corresponds.get? {t t' : SymbolTable} (h : t.Corresponds ρ t') (s : Symbol) :
    t'.get? (s.rename ρ) = t.get? s := by
  rw [SymbolTable.get?, SymbolTable.get?, h, lookup_map Symbol.rename_injective, Option.map_id_fun, id]

/-! ### Scopes -/

/-- A scope under other names. -/
def Scope.rename (ρ : Renaming) (s : Scope) : Scope :=
  { s with vars := s.vars.map ρ.var, conditions := s.conditions.map (Condition.rename ρ) }

namespace Scope

variable (s : Scope)

theorem require_rename (c : Condition) :
    (s.rename ρ).require (c.rename ρ) = (s.require c).rename ρ := by
  simp [require, rename]

theorem equate_rename (left right : Expr) :
    (s.rename ρ).equate (left.rename ρ) (right.rename ρ) = (s.equate left right).rename ρ :=
  s.require_rename (.eq left right)

/-- A variable is looked up by its name, but the column that it is bound to depends on its place
only. -/
theorem idOf_rename (name : String) :
    (s.rename ρ).idOf (ρ.var name) = Prod.map (Expr.rename ρ) (rename ρ) (s.idOf name) := by
  simp only [idOf, rename, idxOf?_map ρ.var_injective]
  cases s.vars.idxOf? name with
  | some i => rfl
  | none => simp [Expr.rename, Condition.rename, rename]

/-- The columns are the same, under the new names of the variables. -/
theorem columnsFor_rename (names : List String) :
    (s.rename ρ).columnsFor (names.map ρ.var) = (s.columnsFor names).map (Prod.map ρ.var id) := by
  simp only [columnsFor, rename, List.filterMap_map, List.map_filterMap, Function.comp_def,
    idxOf?_map ρ.var_injective, Option.map_map]
  rfl

/-- Aliases and labels are numbered, so nothing but the placeholders and the names of the columns
changes. -/
theorem finish_rename (names : List String) :
    (s.rename ρ).finish (names.map ρ.var) = (s.finish names).rename ρ := by
  have hshape : ∀ columns : List (String × String),
      (if (columns.map (Prod.map ρ.var id)).isEmpty then Shape.existence
        else .rows ((columns.map (Prod.map ρ.var id)).map (·.1))) =
      Shape.rename ρ (if columns.isEmpty then .existence else .rows (columns.map (·.1))) := by
    intro columns
    cases columns with
    | nil => rfl
    | cons column columns => simp [Shape.rename]
  rw [finish, columnsFor_rename, hshape]
  simp only [finish, Fragment.rename, Scan.rename, Condition.renameAll_eq_map, List.zipIdx_map,
    List.map_map]
  rfl

end Scope

/-! ### Compilers -/

/-- The compilers work on programs that correspond, and so do all that they have found out. -/
structure Compiler.Corresponds (ρ : Renaming) (π π' : BodyPolicy) (c c' : Compiler) : Prop where
  program : c.program.Corresponds ρ π π' c'.program
  policy : c.policy = π ∧ c'.policy = π'
  symbols : c.symbols.Corresponds ρ c'.symbols
  fragments : c'.fragments = c.fragments.map (Prod.map (Symbol.rename ρ) (Fragment.rename ρ))
  failures : List.Forall₂ (fun e e' ↦ e'.1 = e.1.rename ρ ∧ CorrespondingReasons ρ e.2 e'.2)
    c.failures c'.failures
  scopes : c'.scopes = c.scopes

namespace Compiler

variable {c c' : Compiler} {rule rule' : Option Rule}

/-- The cache has the same scans under the new names of the rules. -/
theorem Corresponds.fragment? (h : c.Corresponds ρ π π' c') (key : Symbol) :
    c'.fragment? (key.rename ρ) = (c.fragment? key).map (Fragment.rename ρ) := by
  rw [Compiler.fragment?, h.fragments, lookup_map Symbol.rename_injective]
  rfl

theorem Corresponds.isCompiled (h : c.Corresponds ρ π π' c') (key : Symbol) :
    c'.isCompiled (key.rename ρ) = c.isCompiled key := by
  simp only [Compiler.isCompiled, h.fragment?, Option.isSome_map]

/-- The same rules have failed, for reasons that correspond. -/
theorem Corresponds.failure (h : c.Corresponds ρ π π' c') (key : Symbol) :
    Option.Rel (CorrespondingReasons ρ) (c.failures.lookup key)
      (c'.failures.lookup (key.rename ρ)) :=
  lookup_rel Symbol.rename_injective h.failures key

/-- Scopes are counted alike. -/
theorem Corresponds.openScope (h : c.Corresponds ρ π π' c') :
    c'.openScope.1 = c.openScope.1.rename ρ ∧ c.openScope.2.Corresponds ρ π π' c'.openScope.2 := by
  refine ⟨?_, ⟨h.program, h.policy, h.symbols, h.fragments, h.failures, ?_⟩⟩
  · rw [openScope_fst, openScope_fst, h.scopes]
    rfl
  · exact congrArg (· + 1) h.scopes

/-- A failure that is recorded in both for corresponding reasons keeps the compilers alike. -/
theorem Corresponds.markFailed (h : c.Corresponds ρ π π' c') (key : Symbol) {reason reason' : String}
    (hreason : CorrespondingReasons ρ reason reason') :
    (c.markFailed key reason).Corresponds ρ π π' (c'.markFailed (key.rename ρ) reason') :=
  ⟨h.program, h.policy, h.symbols, h.fragments, .cons ⟨rfl, hreason⟩ h.failures, h.scopes⟩

/-! ### Goals -/

/-- A constant and its new name are written as the same number. -/
theorem literal_corresponds (h : c.Corresponds ρ π π' c') (text : String) :
    CompilesTo ρ (Expr.rename ρ) (c.literal text) (c'.literal (ρ.text text)) := by
  have hid : c'.symbols.constant? (ρ.text text) = c.symbols.constant? text :=
    h.symbols.get? (.constant text)
  rw [literal, literal, hid]
  cases c.symbols.constant? text with
  | some id => exact .ok rfl
  | none => exact .error (.unknownSymbol (.constant text))

/-- Whether an argument is a head variable, another variable, a parameter or a constant is the same
for both. -/
theorem argument_corresponds (h : c.Corresponds ρ π π' c')
    (hr : Option.Rel (Rule.Corresponds ρ π π') rule rule') (s : Scope) (t : Term) :
    CompilesTo ρ (Prod.map (Expr.rename ρ) (Scope.rename ρ)) (c.argument rule s t)
      (c'.argument rule' (s.rename ρ) (t.rename ρ)) := by
  cases t with
  | var name =>
    simp only [Term.rename, argument]
    cases hr with
    | none => exact .ok (s.idOf_rename name)
    | @some r r' hr =>
      cases hparam : r.isParam name with
      | true =>
        simp only [Option.filter_some, hr.isParam, hparam, if_true]
        exact .ok (by rw [hr.key]; rfl)
      | false =>
        simp only [Option.filter_some, hr.isParam, hparam, Bool.false_eq_true, if_false]
        exact .ok (s.idOf_rename name)
  | param name => exact .ok rfl
  | const text => exact (literal_corresponds h text).map fun _ _ heq ↦ by rw [heq]; rfl

/-- Columns are matched alike, one after the other. -/
theorem matchColumns_corresponds (h : c.Corresponds ρ π π' c')
    (hr : Option.Rel (Rule.Corresponds ρ π π') rule rule') (source : String) (position : Nat)
    (ts : List Term) (s : Scope) :
    CompilesTo ρ (Scope.rename ρ) (c.matchColumns rule source position ts s)
      (c'.matchColumns rule' source position (ts.map (Term.rename ρ)) (s.rename ρ)) := by
  induction ts generalizing position s with
  | nil => exact .ok rfl
  | cons t ts ih =>
    rw [List.map_cons, matchColumns, matchColumns]
    refine (argument_corresponds h hr s t).bind ?_
    rintro ⟨value, s⟩ _ rfl
    have hrest := ih (position + 1) (s.equate (.column source (Schema.argColumn position)) value)
    rw [← s.equate_rename] at hrest
    exact hrest

/-- A goal on facts refers to the same table by the same alias. -/
theorem addFacts_corresponds (h : c.Corresponds ρ π π' c')
    (hr : Option.Rel (Rule.Corresponds ρ π π') rule rule') (s : Scope) (g : Goal) :
    CompilesTo ρ (Scope.rename ρ) (c.addFacts rule s g)
      (c'.addFacts rule' (s.rename ρ) (g.rename ρ)) := by
  rw [addFacts, addFacts, Goal.symbol_rename, h.symbols.get?]
  cases c.symbols.get? g.symbol with
  | none => exact .error (.unknownSymbol g.symbol)
  | some id =>
    simp only [Goal.rename, List.length_map]
    have hcolumns := matchColumns_corresponds h hr (s.addTable g.args.length).1 1 g.args
      ((s.addTable g.args.length).2.equate
        (.column (s.addTable g.args.length).1 Schema.functorColumn) (.int id))
    rw [← Scope.equate_rename] at hcolumns
    exact hcolumns

/-- What a head binds is bound under the new names of the placeholders. -/
theorem matchHead_corresponds (h : c.Corresponds ρ π π' c')
    (hr : Option.Rel (Rule.Corresponds ρ π π') rule rule') (key : Symbol)
    (pairs : List (Term × Term)) (b : Bindings) (s : Scope) :
    CompilesTo ρ (Prod.map (Bindings.rename ρ) (Scope.rename ρ)) (c.matchHead rule key pairs b s)
      (c'.matchHead rule' (key.rename ρ) (pairs.map (Prod.map (Term.rename ρ) (Term.rename ρ)))
        (b.rename ρ) (s.rename ρ)) := by
  induction pairs generalizing b s with
  | nil => exact .ok rfl
  | cons pair pairs ih =>
    obtain ⟨head, arg⟩ := pair
    rw [List.map_cons, Prod.map_apply, matchHead, matchHead]
    refine (argument_corresponds h hr s arg).bind ?_
    rintro ⟨value, s⟩ _ rfl
    cases head with
    | var name =>
      -- Renaming keeps keys apart, so the variable is bound in both or in none.
      have hlookup := b.lookup_rename (ρ := ρ) (.rule key name)
      simp only [Placeholder.rename] at hlookup
      simp only [Prod.map_apply, Term.rename, hlookup]
      cases b.lookup (.rule key name) with
      | some previous =>
        have hrest := ih b (s.equate previous value)
        rw [← s.equate_rename] at hrest
        exact hrest
      | none =>
        have happend : (b ++ [(.rule key name, value)] : Bindings).rename ρ =
            b.rename ρ ++ [(.rule (key.rename ρ) (ρ.var name), value.rename ρ)] :=
          List.map_append
        have hrest := ih (b ++ [(.rule key name, value)]) s
        rw [happend] at hrest
        exact hrest
    | const text =>
      refine (literal_corresponds h text).bind ?_
      rintro expected _ rfl
      have hrest := ih b (s.equate value expected)
      rw [← s.equate_rename] at hrest
      exact hrest
    | param name => exact ih b s

/-- Substituting and renaming commute, so the nested scans are alike. -/
theorem addRule_corresponds (h : c.Corresponds ρ π π' c')
    (hr : Option.Rel (Rule.Corresponds ρ π π') rule rule') (s : Scope) (g : Goal)
    (fragment : Fragment) :
    CompilesTo ρ (Scope.rename ρ) (c.addRule rule s g fragment)
      (c'.addRule rule' (s.rename ρ) (g.rename ρ) (fragment.rename ρ)) := by
  have hcallee := h.program.rule? g.symbol
  rw [addRule, addRule, Goal.symbol_rename]
  generalize c.program.rule? g.symbol = callee, c'.program.rule? _ = callee' at hcallee
  cases hcallee with
  | none => exact .error (.unknownRelation g.symbol)
  | some hcallee =>
    simp only [hcallee.head, Goal.rename, List.zip_map]
    refine (matchHead_corresponds h hr g.symbol _ [] s).bind ?_
    rintro ⟨b, s⟩ _ rfl
    refine .ok ?_
    rw [← Scope.require_rename, Condition.rename, ← Scan.substitute_rename]
    rfl

/-- Both goals are compiled in the same way, or fail for the same reason. -/
theorem addGoal_corresponds (h : c.Corresponds ρ π π' c')
    (hr : Option.Rel (Rule.Corresponds ρ π π') rule rule') (s : Scope) (g : Goal) :
    CompilesTo ρ (Scope.rename ρ) (c.addGoal rule s g)
      (c'.addGoal rule' (s.rename ρ) (g.rename ρ)) := by
  rw [addGoal, addGoal, Goal.symbol_rename, h.fragment?]
  cases c.fragment? g.symbol with
  | some fragment => exact addRule_corresponds h hr s g fragment
  | none =>
    have hfailure := h.failure g.symbol
    have hrule := h.program.isSome_rule? g.symbol
    simp only [Option.map_none]
    generalize c.failures.lookup g.symbol = reason, c'.failures.lookup _ = reason' at hfailure
    cases hfailure with
    | some hreason =>
      obtain ⟨e, e', he, rfl, rfl⟩ := hreason
      exact .error (.ruleFailed g.symbol he)
    | none =>
      simp only [hrule, h.program.hasFacts, Goal.rename, h.program.definedArities]
      split
      · exact .error (.notCompiled g.symbol)
      · split
        · exact addFacts_corresponds h hr s g
        · split
          · exact .error (.unknownRelation g.symbol)
          · exact .error (.arityMismatch g.symbol _)

/-- By induction on the goals, so are all of them. -/
theorem addGoals_corresponds (h : c.Corresponds ρ π π' c')
    (hr : Option.Rel (Rule.Corresponds ρ π π') rule rule') (goals : List Goal) (s : Scope) :
    CompilesTo ρ (Scope.rename ρ) (c.addGoals rule goals s)
      (c'.addGoals rule' (goals.map (Goal.rename ρ)) (s.rename ρ)) := by
  induction goals generalizing s with
  | nil => exact .ok rfl
  | cons g goals ih =>
    refine (addGoal_corresponds h hr s g).bind ?_
    rintro s _ rfl
    exact ih s

/-! ### Rules and queries -/

/-- So fragments correspond as a whole. -/
theorem compileGoals_corresponds (h : c.Corresponds ρ π π' c')
    (hr : Option.Rel (Rule.Corresponds ρ π π') rule rule') (goals : List Goal) (names : List String) :
    CompilesTo ρ (Fragment.rename ρ) (c.compileGoals rule goals names).2
      (c'.compileGoals rule' (goals.map (Goal.rename ρ)) (names.map ρ.var)).2 := by
  obtain ⟨hscope, hopen⟩ := h.openScope
  have hgoals := addGoals_corresponds hopen hr goals c.openScope.1
  rw [← hscope] at hgoals
  refine hgoals.map ?_
  rintro s _ rfl
  exact s.finish_rename names

/-- **Rules that correspond** are compiled to the same fragment up to names, or fail with errors that
correspond. -/
theorem compileRule_corresponds (h : c.Corresponds ρ π π' c') {r r' : Rule}
    (hr : r.Corresponds ρ π π' r') :
    (c.compileRule r).1.Corresponds ρ π π' (c'.compileRule r').1 ∧
      CompilesTo ρ (Fragment.rename ρ) (c.compileRule r).2 (c'.compileRule r').2 := by
  rw [compileRule, compileRule, hr.key, h.fragment?, h.policy.1, h.policy.2]
  cases c.fragment? r.key with
  | some fragment => exact ⟨h, .ok rfl⟩
  | none =>
    -- Both open a scope of the same number, so that their aliases are the same.
    obtain ⟨-, hopen⟩ := h.openScope
    have hnames : (Goal.varsOf (π'.select r'.body)).filter (fun x ↦ !r'.isParam x) =
        ((Goal.varsOf (π.select r.body)).filter fun x ↦ !r.isParam x).map ρ.var := by
      simp only [hr.body, Goal.varsOf_rename, List.filter_map, Function.comp_def, hr.isParam]
    have hgoals := compileGoals_corresponds h (.some hr) (π.select r.body)
      ((Goal.varsOf (π.select r.body)).filter fun x ↦ !r.isParam x)
    rw [← hr.body, ← hnames] at hgoals
    simp only [Option.map_none, compileGoals] at hgoals ⊢
    generalize (c.openScope.2.addGoals _ _ _).map _ = x, (c'.openScope.2.addGoals _ _ _).map _ = x'
      at hgoals ⊢
    cases hgoals with
    | ok hfragment =>
      subst hfragment
      refine ⟨⟨hopen.program, hopen.policy, hopen.symbols, ?_, hopen.failures, hopen.scopes⟩, .ok rfl⟩
      show c'.fragments ++ _ = (c.fragments ++ _).map _
      rw [h.fragments, List.map_append]
      rfl
    | error he => exact ⟨hopen, .error he⟩

namespace HeadMatch

/-- How a goal meets a head, under other names. -/
def rename (ρ : Renaming) (m : HeadMatch) : HeadMatch :=
  ⟨renameValues ρ m.bindings, m.external.rename ρ, m.unsatisfiable⟩

/-- Comparing a head with arguments only asks whether texts are equal, which an injective renaming
keeps. -/
theorem step?_rename (key : Symbol) (m : HeadMatch) (pair : Term × Term) :
    step? (key.rename ρ) (m.rename ρ) (Prod.map (Term.rename ρ) (Term.rename ρ) pair) =
      (step? key m pair).map (rename ρ) := by
  obtain ⟨head, arg⟩ := pair
  -- Both lists are asked for renamed keys only.
  have hbound : ∀ x, (m.rename ρ).bindings.lookup (.rule (key.rename ρ) (ρ.var x)) =
      (m.bindings.lookup (.rule key x)).map ρ.text :=
    fun x ↦ lookup_renameValues m.bindings (.rule key x)
  have hexternal : ∀ x, (m.rename ρ).external.lookup (.rule (key.rename ρ) (ρ.var x)) =
      (m.external.lookup (.rule key x)).map (Expr.rename ρ) :=
    fun x ↦ m.external.lookup_rename (.rule key x)
  cases head with
  | var x =>
    cases arg with
    | var y => rfl
    | const text =>
      simp only [Prod.map_apply, Term.rename, step?, hexternal, hbound, Option.isSome_map]
      split
      · rfl
      · cases m.bindings.lookup (.rule key x) with
        | some previous => simp [rename, ρ.text_injective.eq_iff]
        | none => simp [rename, renameValues, Placeholder.rename]
    | param outer =>
      simp only [Prod.map_apply, Term.rename, step?, hexternal, hbound, Option.isSome_map]
      split
      · rfl
      · simp [rename, Bindings.rename, Placeholder.rename, Expr.rename]
  | const expected =>
    cases arg with
    | const text => simp [Term.rename, step?, rename, ρ.text_injective.eq_iff]
    | var y => rfl
    | param outer => rfl
  | param name => cases arg <;> rfl

/-- So it is for all pairs of a head. -/
theorem foldlM_step?_rename (key : Symbol) (pairs : List (Term × Term)) (m : HeadMatch) :
    (pairs.map (Prod.map (Term.rename ρ) (Term.rename ρ))).foldlM (step? (key.rename ρ))
      (m.rename ρ) = (pairs.foldlM (step? key) m).map (rename ρ) := by
  induction pairs generalizing m with
  | nil => rfl
  | cons pair pairs ih =>
    rw [List.map_cons, List.foldlM_cons, List.foldlM_cons, step?_rename]
    cases step? key m pair with
    | none => rfl
    | some m' => exact ih m'

end HeadMatch

end Compiler

/-- A query ready to be executed, under other names. -/
def CompiledQuery.rename (ρ : Renaming) (q : CompiledQuery) : CompiledQuery :=
  ⟨q.fragment.rename ρ, renameValues ρ q.bindings, q.unsatisfiable⟩

namespace Compiler

variable {c c' : Compiler}

/-- A query is made from the cache for both or for none. -/
theorem reuse_corresponds (h : c.Corresponds ρ π π' c') (g : Goal) :
    c'.reuse (g.rename ρ) = (c.reuse g).map (CompiledQuery.rename ρ) := by
  have hrule := h.program.rule? g.symbol
  rw [reuse, reuse, Goal.symbol_rename, h.fragment?]
  generalize c.program.rule? g.symbol = r, c'.program.rule? _ = r' at hrule
  cases hrule with
  | none => rfl
  | @some r r' hr =>
    have hmatch : (r'.head.zip (g.rename ρ).args).foldlM (HeadMatch.step? (g.symbol.rename ρ)) {} =
        ((r.head.zip g.args).foldlM (HeadMatch.step? g.symbol) {}).map (HeadMatch.rename ρ) := by
      rw [hr.head, Goal.rename, List.zip_map]
      exact HeadMatch.foldlM_step?_rename g.symbol (r.head.zip g.args) {}
    simp only [Option.bind_eq_bind, Option.bind_some, hmatch]
    cases (r.head.zip g.args).foldlM (HeadMatch.step? g.symbol) {} with
    | none => rfl
    | some m =>
      cases c.fragment? g.symbol with
      | none => rfl
      | some fragment =>
        have hscan := fragment.scan.substitute_rename (ρ := ρ) m.external
        exact congrArg (fun scan ↦ some (CompiledQuery.mk ⟨scan, .existence⟩ _ _)) hscan

theorem reuse?_corresponds (h : c.Corresponds ρ π π' c') (goals : List Goal) :
    c'.reuse? (goals.map (Goal.rename ρ)) = (c.reuse? goals).map (CompiledQuery.rename ρ) := by
  cases goals with
  | nil => rfl
  | cons g rest =>
    cases rest with
    | nil =>
      have hclosed : (g.rename ρ).args.all (fun t ↦ !t.isVar) = g.args.all fun t ↦ !t.isVar := by
        simp [Goal.rename, Function.comp_def]
      simp only [List.map_cons, List.map_nil, reuse?, hclosed, Goal.symbol_rename, h.isCompiled,
        reuse_corresponds h]
      split <;> rfl
    | cons g' rest => rfl

/-- **Queries that correspond** are compiled to the same fragment and bindings up to names, or fail
with errors that correspond. -/
theorem compileQuery_corresponds (h : c.Corresponds ρ π π' c') {q q' : Query}
    (hq : π'.select q'.goals = (π.select q.goals).map (Goal.rename ρ)) :
    (c.compileQuery q).1.Corresponds ρ π π' (c'.compileQuery q').1 ∧
      CompilesTo ρ (CompiledQuery.rename ρ) (c.compileQuery q).2 (c'.compileQuery q').2 := by
  rw [compileQuery, compileQuery, h.policy.1, h.policy.2, hq, reuse?_corresponds h]
  cases c.reuse? (π.select q.goals) with
  | some compiled => exact ⟨h, .ok rfl⟩
  | none =>
    have hgoals := compileGoals_corresponds h .none (π.select q.goals)
      (Goal.varsOf (π.select q.goals))
    rw [← Goal.varsOf_rename] at hgoals
    refine ⟨h.openScope.2, hgoals.map ?_⟩
    rintro fragment _ rfl
    rfl

end Compiler

end HornQuery
