import Mathlib
import HornQuery.Proofs.Ownership

/-!
# Which arguments are read

Not every argument of a goal has a part in whether the goal holds. A goal on facts reads all of its
arguments. A goal on a rule reads an argument if it meets a constant in the head, if it meets a variable
that occurs in the head again, or if the body reads that variable (`Program.Reads`). So a rule may ignore
an argument even if the head variable in its place occurs in the body: the goal it occurs in may be on a
rule that ignores it in turn.

The placeholders of compiled goals are exactly those of the arguments that are read
(`Compiler.addGoals_textual`), and a query that compiles looks up exactly the parameters that its goals
read (`Compiler.external_mem_order_iff`), whether it is compiled in a scope or taken from the cache.
-/

namespace HornQuery

/-- Whether the goal holds may depend on its argument `t`. -/
inductive Program.Reads (p : Program) (policy : BodyPolicy) : Goal → Term → Prop
  /-- A fact has an argument in each place. -/
  | facts {g : Goal} {t : Term} (hr : p.rule? g.symbol = none) (ht : t ∈ g.args) : Reads p policy g t
  /-- A constant in the head has to agree with the argument. -/
  | constant {g : Goal} {t : Term} {r : Rule} {text : String} (hr : p.rule? g.symbol = some r)
    (ht : (.const text, t) ∈ r.head.zip g.args) : Reads p policy g t
  /-- Arguments for the same head variable have to agree with each other. -/
  | repeated {g : Goal} {t : Term} {r : Rule} {x : String} (hr : p.rule? g.symbol = some r)
    (ht : (.var x, t) ∈ r.head.zip g.args) (hx : List.Duplicate (.var x) r.head) : Reads p policy g t
  /-- The body reads the head variable. -/
  | body {g g' : Goal} {t : Term} {r : Rule} {x : String} (hr : p.rule? g.symbol = some r)
    (ht : (.var x, t) ∈ r.head.zip g.args) (hg : g' ∈ policy.select r.body)
    (h : Reads p policy g' (.var x)) : Reads p policy g t

theorem Program.Reads.mem_args {p : Program} {policy : BodyPolicy} {g : Goal} {t : Term}
    (h : p.Reads policy g t) : t ∈ g.args := by
  cases h with
  | facts _ ht => exact ht
  | constant _ ht => exact (List.of_mem_zip ht).2
  | repeated _ ht _ => exact (List.of_mem_zip ht).2
  | body _ ht _ _ => exact (List.of_mem_zip ht).2

/-- A first component that stands with two different second ones occurs twice. -/
theorem duplicate_of_mem_of_mem {α β : Type} {a : α} {b b' : β} {pairs : List (α × β)}
    (h : (a, b) ∈ pairs) (h' : (a, b') ∈ pairs) (hne : b ≠ b') :
    List.Duplicate a (pairs.map Prod.fst) := by
  induction pairs with
  | nil => cases h
  | cons pair rest ih =>
    rw [List.map_cons, List.duplicate_cons_iff]
    rcases List.mem_cons.mp h with heq | h
    · rcases List.mem_cons.mp h' with heq' | h'
      · exact absurd (Prod.mk.inj (heq.trans heq'.symm)).2 hne
      · exact .inl ⟨by rw [← heq], List.mem_map_of_mem (f := Prod.fst) h'⟩
    · rcases List.mem_cons.mp h' with heq' | h'
      · exact .inl ⟨by rw [← heq'], List.mem_map_of_mem (f := Prod.fst) h⟩
      · exact .inr (ih h h')

/-! ### Placeholders of a scope -/

theorem Condition.textualOf_append (cs cs' : List Condition) :
    Condition.textualOf (cs ++ cs') = Condition.textualOf cs ++ Condition.textualOf cs' := by
  induction cs with
  | nil => rfl
  | cons c cs ih => rw [List.cons_append, Condition.textualOf, Condition.textualOf, ih, List.append_assoc]

/-- The placeholders of a scope's conditions. -/
def Scope.textual (s : Scope) : List Placeholder := Condition.textualOf s.conditions

namespace Scope

theorem textual_require (s : Scope) (c : Condition) : (s.require c).textual = s.textual ++ c.textual := by
  rw [textual, require, Condition.textualOf_append, Condition.textualOf, Condition.textualOf,
    List.append_nil]
  rfl

theorem textual_equate (s : Scope) (left right : Expr) :
    (s.equate left right).textual = s.textual ++ (left.placeholders ++ right.placeholders) :=
  s.textual_require _

end Scope

namespace Compiler

variable {c : Compiler} {rule : Option Rule} {s s' : Scope} {k : Placeholder}

/-- An argument adds no placeholder to a scope; the value has those of the term. -/
theorem argument_textual {t : Term} {value : Expr} (h : c.argument rule s t = .ok (value, s')) :
    s'.textual = s.textual ∧ value.placeholders = t.placeholders rule := by
  obtain ⟨r, x, rfl, rfl, hparam, rfl, rfl⟩ | ⟨x, rfl, hfree, hid⟩ | ⟨name, rfl, rfl, rfl⟩ |
    ⟨text, id, rfl, -, rfl, rfl⟩ := argument_cases h
  · exact ⟨rfl, by simp [Term.placeholders, Expr.placeholders, Option.filter_some, hparam]⟩
  · have hnone : (Term.var x).placeholders rule = [] := by
      cases rule with
      | none => rfl
      | some r => simp [Term.placeholders, hfree r rfl]
    rw [hnone]
    obtain ⟨i, -, heq⟩ | ⟨-, heq⟩ := s.idOf_cases x <;> rw [heq] at hid <;>
      obtain ⟨rfl, rfl⟩ := Prod.mk.inj hid
    · exact ⟨rfl, rfl⟩
    · exact ⟨(s.textual_require _).trans (List.append_nil _), rfl⟩
  · exact ⟨rfl, rfl⟩
  · exact ⟨rfl, rfl⟩

/-- Each column brings in the placeholders of its argument, in order. -/
theorem matchColumns_textual {source : String} {position : Nat} {ts : List Term}
    (h : c.matchColumns rule source position ts s = .ok s') :
    s'.textual = s.textual ++ ts.flatMap (Term.placeholders rule) := by
  induction ts generalizing position s with
  | nil =>
    obtain rfl : s = s' := by simpa [matchColumns] using h
    exact (List.append_nil _).symm
  | cons t ts ih =>
    obtain ⟨value, s₁, harg, hrest⟩ := matchColumns_cons h
    obtain ⟨hs₁, hvalue⟩ := argument_textual harg
    rw [ih hrest, Scope.textual_equate, hs₁, hvalue, List.flatMap_cons, List.append_assoc]
    rfl

/-! ### Heads -/

/-- Matching the pairs puts the placeholder into an equation, if head variables are bound already as
`b` says: its argument meets a constant, or a variable that comes again or is bound. -/
inductive Compares (rule : Option Rule) (key : Symbol) (b : Bindings) (pairs : List (Term × Term))
    (k : Placeholder) : Prop
  | constant {text : String} {t : Term} (ht : (.const text, t) ∈ pairs) (hk : k ∈ t.placeholders rule)
  | repeated {x : String} {t : Term} (ht : (.var x, t) ∈ pairs)
    (hx : List.Duplicate (.var x) (pairs.map Prod.fst)) (hb : b.lookup (.rule key x) = none)
    (hk : k ∈ t.placeholders rule)
  | bound {x : String} {t : Term} {value : Expr} (ht : (.var x, t) ∈ pairs)
    (hb : b.lookup (.rule key x) = some value) (hk : k ∈ value.placeholders ∨ k ∈ t.placeholders rule)

section Heads

variable {key : Symbol} {b b' : Bindings} {rest pairs : List (Term × Term)} {arg : Term}

theorem not_compares_nil : ¬ Compares rule key b [] k := by
  rintro (⟨ht, -⟩ | ⟨ht, -, -, -⟩ | ⟨ht, -, -⟩) <;> cases ht

/-- A comparison among later pairs remains one with a pair in front. -/
theorem Compares.cons (h : Compares rule key b rest k) (pair : Term × Term) :
    Compares rule key b (pair :: rest) k := by
  cases h with
  | constant ht hk => exact .constant (List.mem_cons_of_mem _ ht) hk
  | repeated ht hx hb hk => exact .repeated (List.mem_cons_of_mem _ ht) (hx.duplicate_cons _) hb hk
  | bound ht hb hk => exact .bound (List.mem_cons_of_mem _ ht) hb hk

/-- A head term other than a variable compares the argument if it is a constant. -/
theorem compares_cons_of_ne_var {head : Term} (hhead : ∀ x, head ≠ .var x) :
    Compares rule key b ((head, arg) :: rest) k ↔
      ((∃ text, head = .const text) ∧ k ∈ arg.placeholders rule) ∨ Compares rule key b rest k := by
  constructor
  · intro h
    cases h with
    | constant ht hk =>
      rcases List.mem_cons.mp ht with heq | ht
      · obtain ⟨rfl, rfl⟩ := Prod.mk.inj heq
        exact .inl ⟨⟨_, rfl⟩, hk⟩
      · exact .inr (.constant ht hk)
    | repeated ht hx hb hk =>
      rcases List.mem_cons.mp ht with heq | ht
      · exact absurd (Prod.mk.inj heq).1.symm (hhead _)
      · obtain ⟨heq, -⟩ | hx := List.duplicate_cons_iff.mp hx
        · exact absurd heq (hhead _)
        · exact .inr (.repeated ht hx hb hk)
    | bound ht hb hk =>
      rcases List.mem_cons.mp ht with heq | ht
      · exact absurd (Prod.mk.inj heq).1.symm (hhead _)
      · exact .inr (.bound ht hb hk)
  · rintro (⟨⟨text, rfl⟩, hk⟩ | h)
    · exact .constant List.mem_cons_self hk
    · exact h.cons _

/-- A variable that is bound compares its argument with what it is bound to. -/
theorem compares_cons_bound {x : String} {previous : Expr} (hx : b.lookup (.rule key x) = some previous) :
    Compares rule key b ((.var x, arg) :: rest) k ↔
      (k ∈ previous.placeholders ∨ k ∈ arg.placeholders rule) ∨ Compares rule key b rest k := by
  constructor
  · intro h
    cases h with
    | constant ht hk =>
      rcases List.mem_cons.mp ht with heq | ht
      · cases heq
      · exact .inr (.constant ht hk)
    | repeated ht hdup hb hk =>
      -- The variable is bound, so it is another one that comes again.
      obtain ⟨heq, -⟩ | hdup := List.duplicate_cons_iff.mp hdup
      · rw [← Term.var.inj heq, hx] at hb
        cases hb
      · rcases List.mem_cons.mp ht with heq | ht
        · rw [Term.var.inj (Prod.mk.inj heq).1, hx] at hb
          cases hb
        · exact .inr (.repeated ht hdup hb hk)
    | bound ht hb hk =>
      rcases List.mem_cons.mp ht with heq | ht
      · obtain ⟨hvar, rfl⟩ := Prod.mk.inj heq
        obtain rfl := Term.var.inj hvar
        obtain rfl := Option.some.inj (hx.symm.trans hb)
        exact .inl hk
      · exact .inr (.bound ht hb hk)
  · rintro (hk | h)
    · exact .bound List.mem_cons_self hx hk
    · exact h.cons _

/-- A variable that is not bound yet compares nothing; its places in the rest do. -/
theorem compares_cons_free {x : String} {value : Expr} (hx : b.lookup (.rule key x) = none)
    (hvalue : value.placeholders = arg.placeholders rule) :
    Compares rule key b ((.var x, arg) :: rest) k ↔
      Compares rule key (b ++ [(.rule key x, value)]) rest k := by
  have hself : (b ++ [(Placeholder.rule key x, value)]).lookup (.rule key x) = some value :=
    (lookup_append_singleton_eq_some hx).mpr (.inr ⟨rfl, rfl⟩)
  have hother : ∀ y, y ≠ x → (b ++ [(Placeholder.rule key x, value)]).lookup (.rule key y) =
      b.lookup (.rule key y) := fun y hy ↦ by
    rw [lookup_append_singleton, if_neg fun h ↦ hy (Placeholder.rule.inj h).2, Option.or_none]
  constructor
  · intro h
    cases h with
    | constant ht hk =>
      rcases List.mem_cons.mp ht with heq | ht
      · cases heq
      · exact .constant ht hk
    | @repeated y t ht hdup hb hk =>
      by_cases hy : y = x
      · subst hy
        -- The variable has a second place in the rest, where it is bound by then.
        have hmem : .var y ∈ rest.map Prod.fst := by
          obtain ⟨-, hmem⟩ | hdup := List.duplicate_cons_iff.mp hdup
          · exact hmem
          · exact hdup.mem
        obtain ⟨⟨_, t'⟩, ht', rfl⟩ := List.mem_map.mp hmem
        rcases List.mem_cons.mp ht with heq | ht
        · rw [(Prod.mk.inj heq).2, ← hvalue] at hk
          exact .bound ht' hself (.inl hk)
        · exact .bound ht hself (.inr hk)
      · rcases List.mem_cons.mp ht with heq | ht
        · exact absurd (Term.var.inj (Prod.mk.inj heq).1) hy
        · obtain ⟨heq, -⟩ | hdup := List.duplicate_cons_iff.mp hdup
          · exact absurd (Term.var.inj heq).symm hy
          · exact .repeated ht hdup ((hother y hy).trans hb) hk
    | @bound y t _ ht hb hk =>
      have hy : y ≠ x := by
        rintro rfl
        rw [hx] at hb
        cases hb
      rcases List.mem_cons.mp ht with heq | ht
      · exact absurd (Term.var.inj (Prod.mk.inj heq).1) hy
      · exact .bound ht ((hother y hy).trans hb) hk
  · intro h
    cases h with
    | constant ht hk => exact .constant (List.mem_cons_of_mem _ ht) hk
    | @repeated y t ht hdup hb hk =>
      have hy : y ≠ x := by
        rintro rfl
        rw [hself] at hb
        cases hb
      exact .repeated (List.mem_cons_of_mem _ ht) (hdup.duplicate_cons _) ((hother y hy).symm.trans hb) hk
    | @bound y t _ ht hb hk =>
      by_cases hy : y = x
      · subst hy
        obtain rfl := Option.some.inj (hself.symm.trans hb)
        have hdup : List.Duplicate (.var y) (((.var y, arg) :: rest).map Prod.fst) :=
          List.Mem.duplicate_cons_self (List.mem_map_of_mem ht)
        rcases hk with hk | hk
        · exact .repeated List.mem_cons_self hdup hx (hvalue ▸ hk)
        · exact .repeated (List.mem_cons_of_mem _ ht) hdup hx hk
      · exact .bound (List.mem_cons_of_mem _ ht) ((hother y hy).symm.trans hb) hk

/-- Matching a head adds the placeholders that it compares, and no others. -/
theorem matchHead_textual (h : c.matchHead rule key pairs b s = .ok (b', s')) :
    k ∈ s'.textual ↔ k ∈ s.textual ∨ Compares rule key b pairs k := by
  induction pairs generalizing b s with
  | nil =>
    obtain ⟨-, rfl⟩ : b = b' ∧ s = s' := by simpa [matchHead] using h
    exact (or_iff_left not_compares_nil).symm
  | cons pair rest ih =>
    obtain ⟨head, arg⟩ := pair
    obtain ⟨value, s₁, harg, hrest⟩ := matchHead_cons h
    obtain ⟨hs₁, hvalue⟩ := argument_textual harg
    obtain ⟨x, previous, rfl, hx, hrest⟩ | ⟨x, rfl, hx, hrest⟩ | ⟨text, id, rfl, -, hrest⟩ |
      ⟨name, rfl, hrest⟩ := hrest
    · rw [ih hrest, compares_cons_bound hx, Scope.textual_equate, hs₁, hvalue, List.mem_append,
        List.mem_append, or_assoc]
    · rw [ih hrest, compares_cons_free hx hvalue, hs₁]
    · have hnone : (Expr.int id).placeholders = [] := rfl
      rw [ih hrest, compares_cons_of_ne_var (fun _ h ↦ by cases h), Scope.textual_equate, hs₁, hvalue,
        hnone, List.append_nil, List.mem_append, or_assoc]
      simp
    · rw [ih hrest, compares_cons_of_ne_var (fun _ h ↦ by cases h), hs₁]
      simp

/-- A head variable is bound to the value of one of its arguments. -/
theorem matchHead_origin (h : c.matchHead rule key pairs b s = .ok (b', s')) {x : String}
    {value : Expr} (hx : b'.lookup (.rule key x) = some value) :
    b.lookup (.rule key x) = some value ∨
      ∃ t, (.var x, t) ∈ pairs ∧ value.placeholders = t.placeholders rule := by
  induction pairs generalizing b s with
  | nil =>
    obtain ⟨rfl, -⟩ : b = b' ∧ s = s' := by simpa [matchHead] using h
    exact .inl hx
  | cons pair rest ih =>
    obtain ⟨head, arg⟩ := pair
    obtain ⟨new, s₁, harg, hrest⟩ := matchHead_cons h
    have hlater : ∀ {b : Bindings} {s : Scope}, c.matchHead rule key rest b s = .ok (b', s') →
        b.lookup (.rule key x) = some value ∨
          ∃ t, (.var x, t) ∈ (head, arg) :: rest ∧ value.placeholders = t.placeholders rule :=
      fun hrest ↦ (ih hrest).imp_right (.imp fun _ h ↦ ⟨List.mem_cons_of_mem _ h.1, h.2⟩)
    obtain ⟨y, previous, -, -, hrest⟩ | ⟨y, rfl, hy, hrest⟩ | ⟨_, _, -, -, hrest⟩ | ⟨_, -, hrest⟩ :=
      hrest
    · exact hlater hrest
    · refine (hlater hrest).elim (fun hfound ↦ ?_) .inr
      obtain hfound | ⟨heq, rfl⟩ := (lookup_append_singleton_eq_some hy).mp hfound
      · exact .inl hfound
      · obtain rfl := (Placeholder.rule.inj heq).2
        exact .inr ⟨arg, List.mem_cons_self, (argument_textual harg).2⟩
    · exact hlater hrest
    · exact hlater hrest

end Heads

/-! ### Goals -/

/-- The scans in the cache have the placeholders of those head variables that their rules read. -/
def Exact (c : Compiler) : Prop :=
  ∀ entry ∈ c.fragments, ∀ r, c.program.rule? entry.1 = some r → ∀ x, .var x ∈ r.head →
    (.rule entry.1 x ∈ entry.2.scan.textual ↔
      ∃ g ∈ c.policy.select r.body, c.program.Reads c.policy g (.var x))

/-- A goal on facts reads all its arguments. -/
theorem addFacts_textual {g : Goal} (hr : c.program.rule? g.symbol = none)
    (h : c.addFacts rule s g = .ok s') :
    k ∈ s'.textual ↔
      k ∈ s.textual ∨ ∃ t, c.program.Reads c.policy g t ∧ k ∈ t.placeholders rule := by
  obtain ⟨id, -, hcolumns⟩ := addFacts_eq_ok h
  have hreads : ∀ t, c.program.Reads c.policy g t ↔ t ∈ g.args := fun t ↦
    ⟨Program.Reads.mem_args, .facts hr⟩
  have hopened : ((s.addTable g.args.length).2.equate
      (.column (Scope.tableAlias s.number s.tables) Schema.functorColumn) (.int id)).textual =
        s.textual :=
    (Scope.textual_equate _ _ _).trans (List.append_nil _)
  simp only [matchColumns_textual hcolumns, hopened, List.mem_append, List.mem_flatMap, hreads]

/-- A goal on a rule reads the arguments that the rule compares or reads itself, and no others. -/
theorem addRule_textual (hself : c.SelfContained) (hexact : c.Exact) {g : Goal} {fragment : Fragment}
    (hfragment : c.fragment? g.symbol = some fragment) (h : c.addRule rule s g fragment = .ok s') :
    k ∈ s'.textual ↔
      k ∈ s.textual ∨ ∃ t, c.program.Reads c.policy g t ∧ k ∈ t.placeholders rule := by
  obtain ⟨r, b, s₁, hr, hmatch, rfl⟩ := addRule_eq_ok h
  have hmem := mem_of_lookup_eq_some hfragment
  have hlength := Program.length_of_rule? hr
  have hheads : (r.head.zip g.args).map Prod.fst = r.head := List.map_fst_zip hlength.le
  -- What a head variable is bound to, by one of its arguments.
  have hbound : ∀ x, .var x ∈ r.head → ∃ value t, b.lookup (.rule g.symbol x) = some value ∧
      (.var x, t) ∈ r.head.zip g.args ∧ value.placeholders = t.placeholders rule := by
    intro x hx
    obtain ⟨arg, harg⟩ := Program.exists_mem_zip hlength hx
    obtain ⟨value, hvalue⟩ := matchHead_bound hmatch (.inr ⟨arg, harg⟩)
    obtain hnil | ⟨t, ht, hsame⟩ := matchHead_origin hmatch hvalue
    · cases hnil
    · exact ⟨value, t, hvalue, ht, hsame⟩
  rw [Scope.textual_require, List.mem_append, matchHead_textual hmatch]
  constructor
  · rintro ((hk | hcompares) | hk)
    · exact .inl hk
    · cases hcompares with
      | constant ht hk => exact .inr ⟨_, .constant hr ht, hk⟩
      | repeated ht hx _ hk => exact .inr ⟨_, .repeated hr ht (hheads ▸ hx), hk⟩
      | bound _ hb _ => cases hb
    · obtain ⟨key, hkey, hk⟩ := Scan.mem_textual_substitute.mp hk
      obtain ⟨x, hx, rfl⟩ := hself _ hmem r hr key hkey
      obtain ⟨value, t, hvalue, ht, hsame⟩ := hbound x hx
      obtain ⟨g', hg', hread⟩ := (hexact _ hmem r hr x hx).mp hkey
      rw [hvalue, Option.getD_some, hsame] at hk
      exact .inr ⟨t, .body hr ht hg' hread, hk⟩
  · rintro (hk | ⟨t, hread, hk⟩)
    · exact .inl (.inl hk)
    · cases hread with
      | facts hnone _ =>
        rw [hr] at hnone
        cases hnone
      | constant hr' ht =>
        obtain rfl := Option.some.inj (hr.symm.trans hr')
        exact .inl (.inr (.constant ht hk))
      | repeated hr' ht hx =>
        obtain rfl := Option.some.inj (hr.symm.trans hr')
        exact .inl (.inr (.repeated ht (hheads.symm ▸ hx) rfl hk))
      | @body _ g' _ _ x hr' ht hg' hread =>
        obtain rfl := Option.some.inj (hr.symm.trans hr')
        have hx := (List.of_mem_zip ht).1
        obtain ⟨value, t', hvalue, ht', hsame⟩ := hbound x hx
        by_cases heq : t = t'
        · -- The argument is the one that goes into the body.
          have hkey := (hexact _ hmem r hr x hx).mpr ⟨g', hg', hread⟩
          refine .inr (Scan.mem_textual_substitute.mpr ⟨_, hkey, ?_⟩)
          rw [hvalue, Option.getD_some, hsame, ← heq]
          exact hk
        · exact .inl (.inr (.repeated ht (duplicate_of_mem_of_mem ht ht' heq) rfl hk))

/-- **The placeholders of compiled goals are those of the arguments that are read.** -/
theorem addGoals_textual (hself : c.SelfContained) (hexact : c.Exact) {goals : List Goal}
    (h : c.addGoals rule goals s = .ok s') :
    k ∈ s'.textual ↔ k ∈ s.textual ∨
      ∃ g ∈ goals, ∃ t, c.program.Reads c.policy g t ∧ k ∈ t.placeholders rule := by
  induction goals generalizing s with
  | nil =>
    obtain rfl : s = s' := by simpa [addGoals] using h
    simp
  | cons g gs ih =>
    obtain ⟨s₁, hgoal, hrest⟩ := addGoals_cons h
    have hstep : k ∈ s₁.textual ↔
        k ∈ s.textual ∨ ∃ t, c.program.Reads c.policy g t ∧ k ∈ t.placeholders rule := by
      obtain ⟨fragment, hfragment, hadd⟩ | ⟨-, -, hr, -, hadd⟩ := addGoal_cases hgoal
      · exact addRule_textual hself hexact hfragment hadd
      · exact addFacts_textual hr hadd
    rw [ih hrest, hstep, or_assoc, List.exists_mem_cons_iff]

/-! ### Resolution -/

/-- The body of a rule reads a head variable exactly if the variable is a placeholder of its scan. -/
theorem rule_mem_textual_iff (hself : c.SelfContained) (hexact : c.Exact) {r : Rule}
    (h : c.openScope.2.addGoals (some r) (c.policy.select r.body) c.openScope.1 = .ok s) {x : String}
    (hx : .var x ∈ r.head) :
    .rule r.key x ∈ s.textual ↔
      ∃ g ∈ c.policy.select r.body, c.program.Reads c.policy g (.var x) := by
  have hself' : c.openScope.2.SelfContained := hself
  have hexact' : c.openScope.2.Exact := hexact
  have hempty : .rule r.key x ∉ c.openScope.1.textual := List.not_mem_nil
  rw [addGoals_textual hself' hexact' h, or_iff_right hempty]
  refine exists_congr fun g ↦ and_congr_right fun hg ↦ ⟨?_, fun hread ↦ ⟨_, hread, ?_⟩⟩
  · -- Only the variable itself is compiled to this placeholder.
    rintro ⟨t, hread, hk⟩
    cases t with
    | var y =>
      obtain ⟨r', -, heq⟩ := List.mem_map.mp hk
      rw [← (Placeholder.rule.inj heq).2]
      exact hread
    | param name => cases List.mem_singleton.mp hk
    | const text => cases hk
  · simp [Term.placeholders, Option.filter_some, Rule.isParam_iff.mpr hx]

/-- A rule that is compiled into an exact cache has an exact scan. -/
theorem exact_compileRule {p : Program} (hp : p.Closed) {r : Rule} (hr : r ∈ c.program.rules)
    (hc : c.program = p ∧ c.SelfContained ∧ c.Exact) :
    (c.compileRule r).1.program = p ∧ (c.compileRule r).1.SelfContained ∧
      (c.compileRule r).1.Exact := by
  obtain ⟨hprogram, hself, hexact⟩ := hc
  obtain ⟨hsame, hself'⟩ := selfContained_compileRule hp hr ⟨hprogram, hself⟩
  refine ⟨hsame, hself', ?_⟩
  obtain ⟨_, -, h⟩ | ⟨-, s, hgoals, h⟩ | ⟨-, _, -, h⟩ := c.compileRule_cases r <;> rw [h]
  · exact hexact
  · intro entry hentry r' hr' x hx
    rcases List.mem_append.mp hentry with hentry | hentry
    · exact hexact entry hentry r' hr' x hx
    · subst hprogram
      rw [List.mem_singleton.mp hentry] at hr' ⊢
      obtain rfl := Option.some.inj ((Program.rule?_of_mem hp hr).symm.trans hr')
      exact rule_mem_textual_iff hself hexact hgoals hx
  · exact hexact

/-- Resolution leaves an exact cache. -/
theorem exact_resolve {p : Program} (hp : p.Closed) (symbols : SymbolTable) (policy : BodyPolicy)
    (maxPasses : Nat) :
    ((Compiler.fresh p symbols policy).resolve maxPasses).compiler.Exact :=
  (resolve_induction (P := fun c ↦ c.program = p ∧ c.SelfContained ∧ c.Exact)
    (fun _ _ hr hc ↦ exact_compileRule hp hr hc) (fun _ _ _ hc ↦ hc)
    ⟨rfl, fun _ hentry ↦ absurd hentry List.not_mem_nil, fun _ hentry ↦
      absurd hentry List.not_mem_nil⟩ maxPasses).2.2

/-! ### Queries -/

section Queries

variable {key : Symbol} {m m' : HeadMatch} {pairs : List (Term × Term)} {x name : String}

/-- A head variable that has met a parameter keeps it and does not come again. -/
theorem HeadMatch.external_kept {e : Expr} (hx : m.external.lookup (.rule key x) = some e)
    (h : pairs.foldlM (HeadMatch.step? key) m = some m') :
    m'.external.lookup (.rule key x) = some e ∧ .var x ∉ pairs.map Prod.fst := by
  induction pairs generalizing m with
  | nil =>
    obtain rfl : m = m' := by simpa using h
    exact ⟨hx, List.not_mem_nil⟩
  | cons pair rest ih =>
    rw [List.foldlM_cons] at h
    obtain ⟨m₁, hstep, hrest⟩ := Option.bind_eq_some_iff.mp h
    have hone : m₁.external.lookup (.rule key x) = some e ∧ .var x ≠ pair.1 := by
      have hne : ∀ y, m.external.lookup (.rule key y) = none → Term.var x ≠ .var y := by
        rintro y hy heq
        rw [← Term.var.inj heq, hx] at hy
        cases hy
      obtain ⟨y, _, _, rfl, hy, -, rfl⟩ | ⟨y, _, rfl, hy, -, rfl⟩ | ⟨y, _, rfl, -, hy, rfl⟩ |
        ⟨_, _, rfl, rfl⟩ := HeadMatch.step?_cases hstep
      · exact ⟨hx, hne y hy⟩
      · exact ⟨hx, hne y hy⟩
      · exact ⟨by rw [List.lookup_append, hx, Option.some_or], hne y hy⟩
      · exact ⟨hx, fun heq ↦ by cases heq⟩
    obtain ⟨hkept, hnot⟩ := ih hone.1 hrest
    rw [List.map_cons, List.mem_cons, not_or]
    exact ⟨hkept, hone.2, hnot⟩

/-- A parameter is taken over only for a head variable that has this one place. -/
theorem HeadMatch.external_of_param (h : pairs.foldlM (HeadMatch.step? key) m = some m') {head : Term}
    (hmem : (head, .param name) ∈ pairs) :
    ∃ x, head = .var x ∧ m'.external.lookup (.rule key x) = some (.param (.external name)) ∧
      ¬ m.Supplies key x ∧ ¬ List.Duplicate (.var x) (pairs.map Prod.fst) := by
  induction pairs generalizing m with
  | nil => cases hmem
  | cons pair rest ih =>
    rw [List.foldlM_cons] at h
    obtain ⟨m₁, hstep, hrest⟩ := Option.bind_eq_some_iff.mp h
    rcases List.mem_cons.mp hmem with rfl | hmem
    · -- A parameter is taken by a head variable only, and only by one that has nothing yet.
      obtain ⟨y, _, _, heq, -⟩ | ⟨y, _, heq, -⟩ | ⟨y, outer, heq, hbound, hfree, rfl⟩ | ⟨_, _, heq, -⟩ :=
        HeadMatch.step?_cases hstep
      · cases heq
      · cases heq
      · obtain ⟨rfl, hname⟩ := Prod.mk.inj heq
        obtain rfl := Term.param.inj hname
        have hnew : (m.external ++ [(Placeholder.rule key y, Expr.param (.external name))]).lookup
            (.rule key y) = some (.param (.external name)) :=
          (lookup_append_singleton_eq_some hfree).mpr (.inr ⟨rfl, rfl⟩)
        obtain ⟨hkept, hnot⟩ := HeadMatch.external_kept hnew hrest
        refine ⟨y, rfl, hkept, ?_, fun hdup ↦ ?_⟩
        · rintro (⟨_, h⟩ | ⟨_, h⟩)
          · rw [hbound] at h
            cases h
          · rw [hfree] at h
            cases h
        · obtain ⟨-, hy⟩ | hdup := List.duplicate_cons_iff.mp hdup
          · exact hnot hy
          · exact hnot hdup.mem
      · cases heq
    · -- An earlier step supplied another variable, for else the parameter could not have been
      -- taken.
      obtain ⟨y, rfl, hkept, hfree, hdup⟩ := ih hrest hmem
      have hother : m.Supplies key y ∨ pair.1 = .var y → False := fun h ↦
        hfree (HeadMatch.supplies_step hstep h)
      refine ⟨y, rfl, hkept, fun h ↦ hother (.inl h), fun h ↦ ?_⟩
      obtain ⟨heq, -⟩ | h := List.duplicate_cons_iff.mp h
      · exact hother (.inr heq)
      · exact hdup h

/-- A head variable is bound to a parameter only where it meets that parameter. -/
theorem HeadMatch.param_of_external (h : pairs.foldlM (HeadMatch.step? key) m = some m')
    (hx : m'.external.lookup (.rule key x) = some (.param (.external name))) :
    m.external.lookup (.rule key x) = some (.param (.external name)) ∨ (.var x, .param name) ∈ pairs := by
  induction pairs generalizing m with
  | nil =>
    obtain rfl : m = m' := by simpa using h
    exact .inl hx
  | cons pair rest ih =>
    rw [List.foldlM_cons] at h
    obtain ⟨m₁, hstep, hrest⟩ := Option.bind_eq_some_iff.mp h
    refine (ih hrest).elim (fun hlookup ↦ ?_) fun hmem ↦ .inr (List.mem_cons_of_mem _ hmem)
    obtain ⟨_, _, _, -, -, -, rfl⟩ | ⟨_, _, -, -, -, rfl⟩ | ⟨y, outer, rfl, -, hfree, rfl⟩ |
      ⟨_, _, -, rfl⟩ := HeadMatch.step?_cases hstep
    · exact .inl hlookup
    · exact .inl hlookup
    · obtain hlookup | ⟨heq, hparam⟩ := (lookup_append_singleton_eq_some hfree).mp hlookup
      · exact .inl hlookup
      · obtain rfl := (Placeholder.rule.inj heq).2
        obtain rfl := Placeholder.external.inj (Expr.param.inj hparam)
        exact .inr List.mem_cons_self
    · exact .inl hlookup

/-- A query from the cache has the parameters that its goal reads. -/
theorem reuse_external_mem_iff (hself : c.SelfContained) (hexact : c.Exact) {g : Goal}
    {q : CompiledQuery} (h : c.reuse g = some q) :
    .external name ∈ q.fragment.scan.textual ↔ c.program.Reads c.policy g (.param name) := by
  obtain ⟨r, m, fragment, hr, hm, hfragment, rfl⟩ := reuse_eq_some h
  have hmem := mem_of_lookup_eq_some hfragment
  have hheads : (r.head.zip g.args).map Prod.fst = r.head :=
    List.map_fst_zip (Program.length_of_rule? hr).le
  rw [Scan.mem_textual_substitute]
  constructor
  · -- What the cached query reads is a head variable, for which the caller's parameter stands.
    rintro ⟨k, hk, hname⟩
    obtain ⟨y, hy, rfl⟩ := hself _ hmem r hr k hk
    obtain ⟨g', hg', hread⟩ := (hexact _ hmem r hr y hy).mp hk
    cases hlookup : m.external.lookup (.rule g.symbol y) with
    | none =>
      rw [hlookup] at hname
      cases List.mem_singleton.mp hname
    | some e =>
      obtain ⟨outer, rfl⟩ := HeadMatch.external_isParam hm _ (mem_of_lookup_eq_some hlookup)
      rw [hlookup] at hname
      obtain rfl := Placeholder.external.inj (List.mem_singleton.mp hname)
      obtain hnil | ht := HeadMatch.param_of_external hm hlookup
      · cases hnil
      · exact .body hr ht hg' hread
  · -- The match went through, so the parameter meets neither a constant nor a repeated variable.
    intro hread
    cases hread with
    | facts hnone _ =>
      rw [hr] at hnone
      cases hnone
    | constant hr' ht =>
      obtain rfl := Option.some.inj (hr.symm.trans hr')
      obtain ⟨_, heq, -⟩ := HeadMatch.external_of_param hm ht
      cases heq
    | repeated hr' ht hx =>
      obtain rfl := Option.some.inj (hr.symm.trans hr')
      obtain ⟨_, heq, -, -, hdup⟩ := HeadMatch.external_of_param hm ht
      rw [hheads, ← heq] at hdup
      exact absurd hx hdup
    | body hr' ht hg' hread =>
      obtain rfl := Option.some.inj (hr.symm.trans hr')
      obtain ⟨y, heq, hlookup, -, -⟩ := HeadMatch.external_of_param hm ht
      obtain rfl := Term.var.inj heq
      refine ⟨_, (hexact _ hmem r hr _ (List.of_mem_zip ht).1).mpr ⟨_, hg', hread⟩, ?_⟩
      rw [hlookup]
      exact List.mem_singleton_self _

/-- **A query that compiles looks up the parameters that its goals read.** -/
theorem external_mem_order_iff (hself : c.SelfContained) (hexact : c.Exact) {q : Query}
    {compiled : CompiledQuery} (h : (c.compileQuery q).2 = .ok compiled) :
    .external name ∈ compiled.fragment.order ↔
      ∃ g ∈ c.policy.select q.goals, c.program.Reads c.policy g (.param name) := by
  obtain ⟨cached, hreuse, heq⟩ | ⟨-, heq⟩ := c.compileQuery_cases q <;> rw [heq] at h
  · -- Answered from the cache, by the statement that the rule's key has there.
    obtain rfl := Except.ok.inj h
    obtain ⟨g, hgoals, -, -, hg⟩ := reuse?_eq_some hreuse
    have hshape : cached.fragment.shape = .existence := by
      obtain ⟨_, _, _, -, -, -, rfl⟩ := reuse_eq_some hg
      rfl
    rw [Fragment.order_existence hshape, Distinct.mem_ofList, reuse_external_mem_iff hself hexact hg,
      hgoals]
    simp
  · -- Compiled afresh, from a scope that reads nothing yet.
    obtain ⟨fragment, hfragment, rfl⟩ := except_map_eq_ok h
    obtain ⟨s, hgoals, rfl⟩ := compileGoals_eq_ok hfragment
    have hself' : c.openScope.2.SelfContained := hself
    have hexact' : c.openScope.2.Exact := hexact
    have hempty : .external name ∉ c.openScope.1.textual := List.not_mem_nil
    refine Scope.mem_order_finish.trans ((addGoals_textual hself' hexact' hgoals).trans ?_)
    rw [or_iff_right hempty]
    refine exists_congr fun g ↦ and_congr_right fun _ ↦ ⟨?_, fun hread ↦ ⟨_, hread, ?_⟩⟩
    · rintro ⟨t, hread, hk⟩
      cases t with
      | var y => cases hk
      | param y =>
        obtain rfl := Placeholder.external.inj (List.mem_singleton.mp hk)
        exact hread
      | const text => cases hk
    · exact List.mem_singleton_self _

end Queries

end Compiler

end HornQuery
