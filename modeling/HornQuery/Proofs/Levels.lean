import Mathlib
import HornQuery.Proofs.Truth

/-!
# Levels of rules

A relation that rests on facts alone has height zero, and a rule is one higher than the highest
relation that its body refers to. `Program.Height` is a relation and not a function, because not every
rule has a height: a rule that runs into a faulty rule, into a relation that is not defined, or into a
cycle has none, and these are the only reasons (`Program.exists_height_iff`).

Heights are unique (`Program.Height.unique`) and have no gaps (`Program.Height.exists_rule`): where a
rule has some height, every smaller positive number is the height of a rule too.
-/

namespace HornQuery

namespace Program

variable {p : Program} {policy : BodyPolicy} {s t : Symbol} {r : Rule} {n : Nat}

/-! ### Definitions and their arities -/

/-- The relation is noted as one with facts, or a rule defines it. -/
def Defines (p : Program) (s : Symbol) : Prop :=
  s ∈ p.relations ∨ ∃ r ∈ p.rules, r.key = s

/-- The relation of the goal is not defined, but its name is, with another arity. -/
def WrongArity (p : Program) (g : Goal) : Prop :=
  ¬ p.Defines g.symbol ∧ ∃ n, p.Defines ⟨g.functor, n⟩

/-- A goal that takes part in the rule has a wrong arity. -/
def Faulty (p : Program) (policy : BodyPolicy) (r : Rule) : Prop :=
  ∃ g ∈ policy.select r.body, p.WrongArity g

/-- The name is not defined with any arity. -/
def Undefined (p : Program) (s : Symbol) : Prop :=
  ∀ n, ¬ p.Defines ⟨s.text, n⟩

/-- A symbol without a rule is the key of none. -/
theorem rule?_eq_none_iff : p.rule? s = none ↔ ¬ ∃ r ∈ p.rules, r.key = s := by
  simp [rule?]

/-- A relation that is defined has a rule, or it has facts and no rule. -/
theorem defines_iff : p.Defines s ↔
    (∃ r, p.rule? s = some r) ∨ (p.rule? s = none ∧ p.hasFacts s = true) := by
  rw [Defines, ← hasFacts_iff]
  cases hrule : p.rule? s with
  | none => simpa using fun r hr hkey ↦ (rule?_eq_none_iff.mp hrule ⟨r, hr, hkey⟩).elim
  | some r => simpa using Or.inr ⟨r, mem_of_rule? hrule, key_of_rule? hrule⟩

/-- The arities of a name are those with which it is defined, by a rule or by facts. -/
theorem mem_definedArities {name : String} :
    n ∈ p.definedArities name ↔ p.Defines ⟨name, n⟩ := by
  have hrelations : (∃ s ∈ p.relations, s.text = name ∧ s.arity = n) ↔ ⟨name, n⟩ ∈ p.relations := by
    constructor
    · rintro ⟨s, hs, rfl, rfl⟩
      exact hs
    · exact fun h ↦ ⟨_, h, rfl, rfl⟩
  simp [definedArities, Defines, Rule.key, List.mem_mergeSort, and_assoc, hrelations]

/-- A goal has a wrong arity if its name is defined, but not with this many arguments. -/
theorem wrongArity_iff {g : Goal} : p.WrongArity g ↔
    p.rule? g.symbol = none ∧ p.hasFacts g.symbol = false ∧ p.definedArities g.functor ≠ [] := by
  have hsome : (∃ n, p.Defines ⟨g.functor, n⟩) ↔ p.definedArities g.functor ≠ [] := by
    simp_rw [← mem_definedArities]
    exact ⟨fun ⟨_, h⟩ ↦ List.ne_nil_of_mem h, List.exists_mem_of_ne_nil _⟩
  rw [WrongArity, hsome, defines_iff, ← and_assoc]
  refine and_congr_left fun _ ↦ ?_
  cases p.rule? g.symbol <;> simp

/-! ### Heights -/

/-- The height of a relation: zero if it has only facts, and one more than the heights of the
relations that take part in its rule otherwise. -/
inductive Height (p : Program) (policy : BodyPolicy) : Symbol → Nat → Prop where
  /-- A relation without a rule has height zero if it has facts. -/
  | facts {s : Symbol} (hrule : p.rule? s = none) (hfacts : p.hasFacts s = true) :
    Height p policy s 0
  /-- A rule is one higher than the highest relation that takes part in it. -/
  | rule {s : Symbol} {r : Rule} (hrule : p.rule? s = some r) (height : Goal → Nat)
      (hbody : ∀ g ∈ policy.select r.body, Height p policy g.symbol (height g)) :
    Height p policy s (((policy.select r.body).map height).foldr max 0 + 1)

/-- Facts have height zero. -/
theorem height_facts_iff (hrule : p.rule? s = none) :
    p.Height policy s n ↔ p.hasFacts s = true ∧ n = 0 := by
  constructor
  · rintro (⟨-, hfacts⟩ | ⟨hsome, -, -⟩)
    · exact ⟨hfacts, rfl⟩
    · rw [hrule] at hsome
      cases hsome
  · rintro ⟨hfacts, rfl⟩
    exact .facts hrule hfacts

/-- A rule is one higher than the highest of its goals, all of which need a height. -/
theorem height_rule_iff (hrule : p.rule? s = some r) :
    p.Height policy s n ↔ ∃ height : Goal → Nat,
      (∀ g ∈ policy.select r.body, p.Height policy g.symbol (height g)) ∧
        n = ((policy.select r.body).map height).foldr max 0 + 1 := by
  constructor
  · rintro (⟨hnone, -⟩ | ⟨hsome, height, hbody⟩)
    · rw [hrule] at hnone
      cases hnone
    · obtain rfl := Option.some.inj (hrule.symm.trans hsome)
      exact ⟨height, hbody, rfl⟩
  · rintro ⟨height, hbody, rfl⟩
    exact .rule hrule height hbody

/-- Rules are above the facts. -/
theorem Height.one_le (hrule : p.rule? s = some r) (h : p.Height policy s n) : 1 ≤ n := by
  obtain ⟨height, -, rfl⟩ := (height_rule_iff hrule).mp h
  omega

theorem Height.defines (h : p.Height policy s n) : p.Defines s := by
  obtain ⟨hrule, hfacts⟩ | ⟨hrule, -, -⟩ := h
  · exact defines_iff.mpr (Or.inr ⟨hrule, hfacts⟩)
  · exact defines_iff.mpr (Or.inl ⟨_, hrule⟩)

/-- A symbol has at most one height, so that a level can be read off it. -/
theorem Height.unique {m : Nat} (h : p.Height policy s m) (h' : p.Height policy s n) : m = n := by
  induction h generalizing n with
  | facts hrule hfacts => exact ((height_facts_iff hrule).mp h').2.symm
  | rule hrule height hbody ih =>
    obtain ⟨height', hbody', rfl⟩ := (height_rule_iff hrule).mp h'
    rw [List.map_congr_left fun g hg ↦ ih g hg (hbody' g hg)]

theorem le_foldr_max {α : Type} {f : α → Nat} {l : List α} {a : α} (h : a ∈ l) :
    f a ≤ (l.map f).foldr max 0 :=
  List.le_max_of_le (List.mem_map_of_mem h) le_rfl

theorem foldr_max_le {α : Type} {f : α → Nat} {l : List α} (h : ∀ a ∈ l, f a ≤ n) :
    (l.map f).foldr max 0 ≤ n := by
  refine List.max_le_of_forall_le _ _ fun x hx ↦ ?_
  obtain ⟨a, ha, rfl⟩ := List.mem_map.mp hx
  exact h a ha

/-- A rule has at most the height `n + 1` exactly if all that takes part has at most the height `n`. -/
theorem exists_height_le_iff (hrule : p.rule? s = some r) :
    (∃ m ≤ n + 1, p.Height policy s m) ↔
      ∀ g ∈ policy.select r.body, ∃ m ≤ n, p.Height policy g.symbol m := by
  constructor
  · rintro ⟨m, hm, h⟩ g hg
    obtain ⟨height, hbody, rfl⟩ := (height_rule_iff hrule).mp h
    have hle := le_foldr_max (f := height) hg
    exact ⟨height g, by omega, hbody g hg⟩
  · intro h
    choose! height hle hbody using h
    exact ⟨_, Nat.succ_le_succ (foldr_max_le hle), .rule hrule height hbody⟩

/-- The heights of rules have no gaps. -/
theorem Height.exists_rule (h : p.Height policy s n) {m : Nat} (hpos : 1 ≤ m) (hm : m ≤ n) :
    ∃ r ∈ p.rules, p.Height policy r.key m := by
  induction h generalizing m with
  | facts hrule hfacts => omega
  | @rule s r hrule height hbody ih =>
    rcases Nat.lt_or_ge (((policy.select r.body).map height).foldr max 0) m with hlt | hge
    · -- The number is the height of the rule itself.
      obtain rfl : m = ((policy.select r.body).map height).foldr max 0 + 1 := by omega
      refine ⟨r, mem_of_rule? hrule, ?_⟩
      rw [key_of_rule? hrule]
      exact .rule hrule height hbody
    · -- Some goal is as high, or all would be lower than the highest.
      obtain ⟨g, hg, hle⟩ : ∃ g ∈ policy.select r.body, m ≤ height g := by
        by_contra hnone
        push Not at hnone
        have := foldr_max_le (n := m - 1) fun g hg ↦ Nat.le_sub_one_of_lt (hnone g hg)
        omega
      exact ih g hg hpos hle

/-- A rule with a height has no goal with a wrong arity. -/
theorem Height.not_faulty (hrule : p.rule? s = some r) (h : p.Height policy s n) :
    ¬ p.Faulty policy r := by
  rintro ⟨g, hg, hundefined, -⟩
  obtain ⟨height, hbody, -⟩ := (height_rule_iff hrule).mp h
  exact hundefined (hbody g hg).defines

/-! ### Rules without a height -/

/-- The rule of the first relation refers to the second. -/
def Refers (p : Program) (policy : BodyPolicy) (s t : Symbol) : Prop :=
  ∃ r, p.rule? s = some r ∧ ∃ g ∈ policy.select r.body, g.symbol = t

/-- The relation comes back to itself, has a faulty rule, or is not defined. -/
def Blocked (p : Program) (policy : BodyPolicy) (s : Symbol) : Prop :=
  Relation.TransGen (p.Refers policy) s s ∨ (∃ r, p.rule? s = some r ∧ p.Faulty policy r) ∨
    p.Undefined s

/-- What a symbol with a height refers to is lower. -/
theorem Height.refers (h : p.Height policy s n) (hrefers : p.Refers policy s t) :
    ∃ m < n, p.Height policy t m := by
  obtain ⟨r, hrule, g, hg, rfl⟩ := hrefers
  obtain ⟨height, hbody, rfl⟩ := (height_rule_iff hrule).mp h
  exact ⟨height g, Nat.lt_succ_of_le (le_foldr_max hg), hbody g hg⟩

/-- And so is everything that can be reached from it, however long the way. -/
theorem Height.reaches (h : p.Height policy s n)
    (hreaches : Relation.TransGen (p.Refers policy) s t) : ∃ m < n, p.Height policy t m := by
  induction hreaches with
  | single hrefers => exact h.refers hrefers
  | tail _ hrefers ih =>
    obtain ⟨m, hm, ht⟩ := ih
    obtain ⟨m', hm', ht'⟩ := ht.refers hrefers
    exact ⟨m', hm'.trans hm, ht'⟩

/-- A height rules out all that blocks: a way back, a faulty rule and a missing definition. -/
theorem Height.not_blocked (h : p.Height policy s n) : ¬ p.Blocked policy s := by
  rintro (hcycle | ⟨r, hrule, hfaulty⟩ | hundefined)
  · obtain ⟨m, hm, hs⟩ := h.reaches hcycle
    exact absurd (hs.unique h) hm.ne
  · exact h.not_faulty hrule hfaulty
  · exact hundefined s.arity h.defines

/-- A goal of a rule that is not faulty is defined, unless its name is not. -/
theorem defines_of_not_faulty {g : Goal} (hfaulty : ¬ p.Faulty policy r)
    (hg : g ∈ policy.select r.body) (hname : ¬ p.Undefined g.symbol) : p.Defines g.symbol := by
  by_contra hnot
  obtain ⟨n, hn⟩ := not_forall_not.mp hname
  exact hfaulty ⟨g, hg, hnot, n, hn⟩

theorem mem_keys_iff : s ∈ p.rules.map Rule.key ↔ ∃ r, p.rule? s = some r := by
  rw [← Option.isSome_iff_exists, rule?, List.find?_isSome]
  simp

/-- A relation leads on from another one that is reached from `s`. -/
def LeadsOn (p : Program) (policy : BodyPolicy) (s : Symbol)
    (t u : {key // key ∈ p.rules.map Rule.key}) : Prop :=
  Relation.ReflTransGen (p.Refers policy) s u ∧ Relation.TransGen (p.Refers policy) u t

/-- There are finitely many rules, so going on ends where there is no cycle. -/
theorem wellFounded_leadsOn
    (hacyclic : ∀ t, Relation.ReflTransGen (p.Refers policy) s t →
      ¬ Relation.TransGen (p.Refers policy) t t) : WellFounded (p.LeadsOn policy s) := by
  have : Finite {key // key ∈ p.rules.map Rule.key} := (List.finite_toSet _).to_subtype
  have : IsTrans _ (p.LeadsOn policy s) := ⟨fun _ _ _ htu huv ↦ ⟨huv.1, huv.2.trans htu.2⟩⟩
  have : Std.Irrefl (p.LeadsOn policy s) := ⟨fun t ht ↦ hacyclic t ht.1 ht.2⟩
  exact Finite.wellFounded_of_trans_of_irrefl _

/-- **A rule has a height exactly if nothing that it reaches is blocked.** -/
theorem exists_height_iff (hrule : ∃ r, p.rule? s = some r) :
    (∃ n, p.Height policy s n) ↔
      ∀ t, Relation.ReflTransGen (p.Refers policy) s t → ¬ p.Blocked policy t := by
  constructor
  · rintro ⟨n, h⟩ t hreaches
    rcases Relation.reflTransGen_iff_eq_or_transGen.mp hreaches with rfl | hreaches
    · exact h.not_blocked
    · obtain ⟨m, -, ht⟩ := h.reaches hreaches
      exact ht.not_blocked
  · intro hfree
    -- Heights are found from below; where there is no cycle, following references ends.
    suffices hall : ∀ t : {key // key ∈ p.rules.map Rule.key},
        Relation.ReflTransGen (p.Refers policy) s t → ∃ n, p.Height policy t n from
      hall ⟨s, mem_keys_iff.mpr hrule⟩ .refl
    intro t
    induction t using (wellFounded_leadsOn fun t ht hcycle ↦ hfree t ht (Or.inl hcycle)).induction with
    | _ t ih =>
      intro ht
      obtain ⟨r, hr⟩ := mem_keys_iff.mp t.2
      have hfaulty : ¬ p.Faulty policy r := fun h ↦ hfree t ht (Or.inr (Or.inl ⟨r, hr, h⟩))
      have hgoal : ∀ g ∈ policy.select r.body, ∃ n, p.Height policy g.symbol n := by
        intro g hg
        have hrefers : p.Refers policy t g.symbol := ⟨r, hr, g, hg, rfl⟩
        have hdefined := defines_of_not_faulty hfaulty hg fun h ↦
          hfree _ (ht.tail hrefers) (Or.inr (Or.inr h))
        rcases defines_iff.mp hdefined with hsome | ⟨hnone, hfacts⟩
        · exact ih ⟨g.symbol, mem_keys_iff.mpr hsome⟩ ⟨ht, .single hrefers⟩ (ht.tail hrefers)
        · exact ⟨0, .facts hnone hfacts⟩
      choose! height hbody using hgoal
      exact ⟨_, .rule hr height hbody⟩

end Program

end HornQuery
