import Mathlib
import HornQuery.BodyPolicy
import HornQuery.Proofs.Collected
import HornQuery.Proofs.Compilation

/-!
# Truth in a program

What a program says, without reference to tables or scans. A fact is true if the program lists it and
has no rule for its relation; where there is a rule, a fact is true if some assignment of the rule's
variables to constants of the program makes the rule's head that fact and the goals of its body true
(`Program.Holds`). Listed facts of a relation that has a rule do not count: rules shadow facts.

Listed facts may be repeated, and a query that joins goals on listed facts finds each combination of
copies. `Program.multiplicity` is the number of times that an assignment is found.
-/

namespace HornQuery

/-! ### Assignments -/

/-- Texts for variables and for parameters. -/
structure Assignment where
  /-- The text of a variable. -/
  var : String → String
  /-- The text of a parameter. -/
  param : String → String

namespace Assignment

/-- The text that a term stands for. -/
def text (a : Assignment) : Term → String
  | .var name => a.var name
  | .const text => text
  | .param name => a.param name

/-- The fact that a goal becomes. -/
def ground (a : Assignment) (g : Goal) : Fact := ⟨g.functor, g.args.map a.text⟩

@[simp] theorem symbol_ground (a : Assignment) (g : Goal) : (a.ground g).symbol = g.symbol := by
  simp [ground, Fact.symbol, Goal.symbol]

/-- Only the variables of a term matter if the parameters are the same. -/
theorem text_congr {a a' : Assignment} {t : Term} (hparam : a.param = a'.param)
    (h : ∀ x, t = .var x → a.var x = a'.var x) : a.text t = a'.text t := by
  cases t with
  | var name => exact h name rfl
  | const text => rfl
  | param name => exact congrFun hparam name

/-- The fact that a goal becomes depends on its own variables only. -/
theorem ground_congr {a a' : Assignment} {g : Goal} (hparam : a.param = a'.param)
    (h : ∀ x, .var x ∈ g.args → a.var x = a'.var x) : a.ground g = a'.ground g := by
  have hargs : g.args.map a.text = g.args.map a'.text :=
    List.map_congr_left fun t ht ↦ text_congr hparam fun x hx ↦ h x (hx ▸ ht)
  simp [ground, hargs]

end Assignment

/-! ### Truth -/

/-- Goals that take part are goals of the list. -/
theorem BodyPolicy.mem_of_mem_select {policy : BodyPolicy} {goals : List Goal} {g : Goal}
    (h : g ∈ policy.select goals) : g ∈ goals := by
  cases policy with
  | joinAll => exact h
  | firstClause => exact List.mem_of_mem_take h

/-- Arguments of goals that take part are terms of the rule. -/
theorem Rule.mem_terms_of_mem_select {r : Rule} {policy : BodyPolicy} {g : Goal} {t : Term}
    (hg : g ∈ policy.select r.body) (ht : t ∈ g.args) : t ∈ r.terms :=
  List.mem_append_right _ (List.mem_flatMap.mpr ⟨g, BodyPolicy.mem_of_mem_select hg, ht⟩)

theorem Term.mem_vars {ts : List Term} {x : String} : x ∈ Term.vars ts ↔ .var x ∈ ts := by
  rw [Term.vars, Distinct.mem_ofList, List.mem_filterMap]
  refine ⟨?_, fun h ↦ ⟨_, h, rfl⟩⟩
  rintro ⟨t, ht, hx⟩
  cases t with
  | var y => exact Option.some.inj hx ▸ ht
  | const text => cases hx
  | param y => cases hx

theorem Rule.isParam_iff {r : Rule} {x : String} : r.isParam x = true ↔ .var x ∈ r.head := by
  simp [Rule.isParam]

namespace Program

/-- The texts of a program's constants. -/
def constants (p : Program) : List String :=
  (p.symbols.filter fun s ↦ s.arity = 0).map Symbol.text

theorem mem_constants {p : Program} {text : String} :
    text ∈ p.constants ↔ .constant text ∈ p.symbols := by
  simp only [constants, List.mem_map, List.mem_filter, decide_eq_true_eq]
  constructor
  · rintro ⟨⟨_, _⟩, ⟨hmem, rfl⟩, rfl⟩
    exact hmem
  · exact fun h ↦ ⟨_, ⟨h, rfl⟩, rfl⟩

/-- A fact is true in a program. -/
inductive Holds (p : Program) (policy : BodyPolicy) : Fact → Prop where
  /-- A listed fact of a relation without a rule is true. -/
  | listed {f : Fact} (hrule : p.rule? f.symbol = none) (hf : f ∈ p.facts) : Holds p policy f
  /-- An instance of a rule's head is true if the goals that take part are. -/
  | derived {f : Fact} {r : Rule} (hrule : p.rule? f.symbol = some r) (a : Assignment)
      (hvars : ∀ x, .var x ∈ r.terms → a.var x ∈ p.constants) (hhead : r.head.map a.text = f.args)
      (hbody : ∀ g ∈ policy.select r.body, Holds p policy (a.ground g)) : Holds p policy f

variable {p : Program} {policy : BodyPolicy} {f : Fact}

/-- Without a rule, a fact is true if it is listed. -/
theorem holds_iff_mem (hrule : p.rule? f.symbol = none) : p.Holds policy f ↔ f ∈ p.facts := by
  constructor
  · rintro (⟨-, hf⟩ | ⟨hsome, -, -, -, -⟩)
    · exact hf
    · rw [hrule] at hsome
      cases hsome
  · exact .listed hrule

/-- With a rule, a fact is true if the rule derives it; facts that are listed do not count. -/
theorem holds_iff_derived {r : Rule} (hrule : p.rule? f.symbol = some r) :
    p.Holds policy f ↔ ∃ a : Assignment, (∀ x, .var x ∈ r.terms → a.var x ∈ p.constants) ∧
      r.head.map a.text = f.args ∧ ∀ g ∈ policy.select r.body, p.Holds policy (a.ground g) := by
  constructor
  · rintro (⟨hnone, -⟩ | ⟨hsome, a, hvars, hhead, hbody⟩)
    · rw [hrule] at hnone
      cases hnone
    · obtain rfl := Option.some.inj (hrule.symm.trans hsome)
      exact ⟨a, hvars, hhead, hbody⟩
  · rintro ⟨a, hvars, hhead, hbody⟩
    exact .derived hrule a hvars hhead hbody

/-- Variables of goals that do not take part may have any value, if there is any constant at all. -/
theorem holds_iff_selected {r : Rule} (hrule : p.rule? f.symbol = some r) {d : String}
    (hd : d ∈ p.constants) :
    p.Holds policy f ↔ ∃ a : Assignment, (∀ x, .var x ∈ r.head → a.var x ∈ p.constants) ∧
      (∀ g ∈ policy.select r.body, ∀ x, .var x ∈ g.args → a.var x ∈ p.constants) ∧
      r.head.map a.text = f.args ∧ ∀ g ∈ policy.select r.body, p.Holds policy (a.ground g) := by
  rw [holds_iff_derived hrule]
  constructor
  · rintro ⟨a, hvars, hhead, hbody⟩
    exact ⟨a, fun x hx ↦ hvars x (List.mem_append_left _ hx),
      fun g hg x hx ↦ hvars x (Rule.mem_terms_of_mem_select hg hx), hhead, hbody⟩
  · rintro ⟨a, hhead, hgoals, heq, hbody⟩
    -- Other variables are sent to the constant at hand.
    let a' : Assignment := ⟨fun x ↦ if a.var x ∈ p.constants then a.var x else d, a.param⟩
    have hsame : ∀ x, a.var x ∈ p.constants → a'.var x = a.var x := fun x hx ↦ if_pos hx
    refine ⟨a', fun x _ ↦ ?_, ?_, fun g hg ↦ ?_⟩
    · show (if a.var x ∈ p.constants then a.var x else d) ∈ p.constants
      split
      · assumption
      · exact hd
    · rw [← heq]
      exact List.map_congr_left fun t ht ↦
        Assignment.text_congr rfl fun x hx ↦ hsame x (hhead x (hx ▸ ht))
    · have hground : a'.ground g = a.ground g :=
        Assignment.ground_congr rfl fun x hx ↦ hsame x (hgoals g hg x hx)
      rw [hground]
      exact hbody g hg

end Program

/-! ### Rule heads -/

namespace Assignment

/-- The texts that the head variables meet, in order. -/
def headTexts (a : Assignment) (pairs : List (Term × Term)) : List (String × String) :=
  pairs.filterMap fun (head, arg) ↦ head.varName?.map fun x ↦ (x, a.text arg)

@[simp] theorem headTexts_var (a : Assignment) (x : String) (arg : Term)
    (rest : List (Term × Term)) :
    a.headTexts ((.var x, arg) :: rest) = (x, a.text arg) :: a.headTexts rest := rfl

@[simp] theorem headTexts_const (a : Assignment) (text : String) (arg : Term)
    (rest : List (Term × Term)) : a.headTexts ((.const text, arg) :: rest) = a.headTexts rest := rfl

@[simp] theorem headTexts_param (a : Assignment) (name : String) (arg : Term)
    (rest : List (Term × Term)) : a.headTexts ((.param name, arg) :: rest) = a.headTexts rest := rfl

/-- Where head variables have the texts `found`, a head term meets an argument with its text. -/
def meets (a : Assignment) (found : List (String × String)) : Term → Term → Bool
  | .var x, arg => found.lookup x = some (a.text arg)
  | .const text, arg => a.text arg = text
  | .param _, _ => true

/-- Where head variables have the texts `found`, every head term meets an argument with its text. -/
def headAgrees (a : Assignment) (found : List (String × String))
    (pairs : List (Term × Term)) : Bool :=
  pairs.all fun (head, arg) ↦ a.meets found head arg

@[simp] theorem headAgrees_cons (a : Assignment) (found : List (String × String))
    (head arg : Term) (rest : List (Term × Term)) :
    a.headAgrees found ((head, arg) :: rest) =
      (a.meets found head arg && a.headAgrees found rest) := rfl

/-- A head variable that has a text meets the arguments with this text. -/
theorem meets_var_of_some (a : Assignment) {found : List (String × String)} {x text : String}
    (h : found.lookup x = some text) (more : List (String × String)) (arg : Term) :
    a.meets (found ++ more) (.var x) arg = decide (text = a.text arg) := by
  rw [meets, List.lookup_append, h, Option.some_or]
  simp

/-- A head variable that has no text yet meets the argument that gives it one. -/
theorem meets_var_of_none (a : Assignment) {found : List (String × String)} {x : String}
    (h : found.lookup x = none) (more : List (String × String)) (arg : Term) :
    a.meets (found ++ (x, a.text arg) :: more) (.var x) arg = true := by
  rw [meets, List.lookup_append, h, Option.none_or]
  simp

/-- The text of a head variable. -/
def headValue (a : Assignment) (pairs : List (Term × Term)) (x : String) : String :=
  ((a.headTexts pairs).lookup x).getD ""

/-- A head variable has the first text that it meets. -/
theorem headValue_eq {a : Assignment} {pairs : List (Term × Term)} {x text : String}
    (h : (a.headTexts pairs).lookup x = some text) : a.headValue pairs x = text := by
  rw [headValue, h, Option.getD_some]

/-- A head variable has the text of an argument that it meets. -/
theorem exists_arg_of_lookup {a : Assignment} {pairs : List (Term × Term)} {x text : String}
    (h : (a.headTexts pairs).lookup x = some text) :
    ∃ arg, (.var x, arg) ∈ pairs ∧ text = a.text arg := by
  obtain ⟨⟨head, arg⟩, hmem, heq⟩ := List.mem_filterMap.mp (mem_of_lookup_eq_some h)
  obtain ⟨y, hy, hpair⟩ := Option.map_eq_some_iff.mp heq
  obtain ⟨rfl, rfl⟩ := Prod.mk.inj hpair
  cases head with
  | var name =>
    obtain rfl := Option.some.inj hy
    exact ⟨arg, hmem, rfl⟩
  | const text => cases hy
  | param name => cases hy

/-- Every head variable has a text. -/
theorem exists_lookup_of_mem {a : Assignment} {pairs : List (Term × Term)} {x : String} {arg : Term}
    (h : (.var x, arg) ∈ pairs) : ∃ text, (a.headTexts pairs).lookup x = some text := by
  cases hlookup : (a.headTexts pairs).lookup x with
  | some text => exact ⟨text, rfl⟩
  | none =>
    have hmem : (x, a.text arg) ∈ a.headTexts pairs := List.mem_filterMap.mpr ⟨_, h, rfl⟩
    exact absurd (List.lookup_eq_none_iff.mp hlookup _ hmem) (by simp)

end Assignment

namespace Program

variable {p : Program} {policy : BodyPolicy}

/-- Some assignment gives the head variables the texts `value`, sends the other variables of the goals
that take part to constants, and makes these goals true. -/
def BodyHolds (p : Program) (policy : BodyPolicy) (r : Rule) (value : String → String) : Prop :=
  ∃ a : Assignment, (∀ x, .var x ∈ r.head → a.var x = value x) ∧
    (∀ g ∈ policy.select r.body, ∀ x, .var x ∈ g.args → a.var x ∈ p.constants) ∧
    ∀ g ∈ policy.select r.body, p.Holds policy (a.ground g)

theorem key_of_rule? {key : Symbol} {r : Rule} (h : p.rule? key = some r) : r.key = key := by
  simpa using List.find?_some h

/-- A rule takes as many arguments as a goal on it has. -/
theorem length_of_rule? {g : Goal} {r : Rule} (h : p.rule? g.symbol = some r) :
    r.head.length = g.args.length :=
  congrArg Symbol.arity (key_of_rule? h)

theorem mem_of_rule? {key : Symbol} {r : Rule} (h : p.rule? key = some r) : r ∈ p.rules :=
  List.mem_of_find?_eq_some h

/-- A rule of the program is the one for its key. -/
theorem rule?_of_mem (hp : p.Closed) {r : Rule} (hr : r ∈ p.rules) : p.rule? r.key = some r := by
  obtain ⟨r', hr'⟩ : ∃ r', p.rule? r.key = some r' := by
    rw [← Option.isSome_iff_exists, rule?, List.find?_isSome]
    exact ⟨r, hr, by simp⟩
  rw [hr', List.inj_on_of_nodup_map hp.keys_nodup (mem_of_rule? hr') hr
    (key_of_rule? hr')]

/-- Two lists become the same exactly if what stands in the same place becomes the same. -/
theorem map_eq_map_iff_zip {α β γ : Type} {f : α → γ} {g : β → γ} {l : List α} {m : List β}
    (h : l.length = m.length) : l.map f = m.map g ↔ ∀ pair ∈ l.zip m, f pair.1 = g pair.2 := by
  induction l generalizing m with
  | nil => simp [List.eq_nil_of_length_eq_zero h.symm]
  | cons a l ih =>
    obtain ⟨b, m, rfl⟩ := List.exists_cons_of_length_eq_add_one h.symm
    simp [ih (Nat.succ.inj h)]

/-- Lists of the same length pair every entry with one. -/
theorem exists_mem_zip {α β : Type} {l : List α} {m : List β} (h : l.length = m.length) {a : α}
    (ha : a ∈ l) : ∃ b, (a, b) ∈ l.zip m := by
  obtain ⟨i, hi, rfl⟩ := List.mem_iff_getElem.mp ha
  refine ⟨m[i], List.mem_iff_getElem.mpr ⟨i, ?_, List.getElem_zip⟩⟩
  rw [List.length_zip]
  omega

/-- A goal on a rule is true exactly if every head term meets an argument with its text and the body
is true where the head variables have these texts. -/
theorem holds_ground_iff {a : Assignment} {g : Goal} {r : Rule} (hrule : p.rule? g.symbol = some r)
    (hhead : ∀ t ∈ r.head, t.isParam = false)
    (hnamed : r.head = [] → .constant r.name ∈ p.symbols)
    (hargs : ∀ t ∈ g.args, a.text t ∈ p.constants) :
    p.Holds policy (a.ground g) ↔
      a.headAgrees (a.headTexts (r.head.zip g.args)) (r.head.zip g.args) = true ∧
        p.BodyHolds policy r (a.headValue (r.head.zip g.args)) := by
  have hlength := length_of_rule? hrule
  constructor
  · intro h
    obtain ⟨a', hvars, heq, hbody⟩ := (holds_iff_derived (by simpa using hrule)).mp h
    have hzip := (map_eq_map_iff_zip hlength).mp heq
    -- The texts that head variables meet are those of the rule's own assignment.
    have hlookup : ∀ x arg, (.var x, arg) ∈ r.head.zip g.args →
        (a.headTexts (r.head.zip g.args)).lookup x = some (a'.var x) := by
      intro x arg hmem
      obtain ⟨text, htext⟩ := Assignment.exists_lookup_of_mem hmem
      obtain ⟨arg', hmem', rfl⟩ := Assignment.exists_arg_of_lookup htext
      rw [htext, ← hzip _ hmem']
      rfl
    refine ⟨List.all_eq_true.mpr ?_, a', fun x hx ↦ ?_,
      fun g' hg' x hx ↦ hvars x (Rule.mem_terms_of_mem_select hg' hx), hbody⟩
    · rintro ⟨head, arg⟩ hmem
      have hpair := hzip _ hmem
      cases head with
      | var x => exact decide_eq_true ((hlookup x arg hmem).trans (congrArg some hpair))
      | const text => exact decide_eq_true hpair.symm
      | param name => rfl
    · obtain ⟨arg, hmem⟩ := exists_mem_zip hlength hx
      exact (Assignment.headValue_eq (hlookup x arg hmem)).symm
  · rintro ⟨hagrees, a', hvalue, hvars, hbody⟩
    have hmeets := List.all_eq_true.mp hagrees
    have hvar : ∀ x arg, (.var x, arg) ∈ r.head.zip g.args → a'.var x = a.text arg := by
      intro x arg hmem
      have hpair : (a.headTexts (r.head.zip g.args)).lookup x = some (a.text arg) := by
        simpa [Assignment.meets] using hmeets _ hmem
      rw [hvalue x (List.of_mem_zip hmem).1, Assignment.headValue_eq hpair]
    have hconstant : ∃ d, d ∈ p.constants := by
      cases hargsnil : g.args with
      | nil =>
        rw [hargsnil] at hlength
        exact ⟨_, mem_constants.mpr (hnamed (List.eq_nil_of_length_eq_zero hlength))⟩
      | cons t ts => exact ⟨_, hargs t (hargsnil ▸ List.mem_cons_self)⟩
    obtain ⟨d, hd⟩ := hconstant
    refine (holds_iff_selected (by simpa using hrule) hd).mpr
      ⟨a', fun x hx ↦ ?_, hvars, (map_eq_map_iff_zip hlength).mpr ?_, hbody⟩
    · obtain ⟨arg, hmem⟩ := exists_mem_zip hlength hx
      rw [hvar x arg hmem]
      exact hargs arg (List.of_mem_zip hmem).2
    · rintro ⟨head, arg⟩ hmem
      cases head with
      | var x => exact hvar x arg hmem
      | const text =>
        have hpair : a.text arg = text := by simpa [Assignment.meets] using hmeets _ hmem
        exact hpair.symm
      | param name => exact absurd (hhead _ (List.of_mem_zip hmem).1) (by simp [Term.isParam])

/-! ### Multiplicities -/

open Classical in
/-- How often an assignment is found: once for every way to choose a copy of each listed fact, if
the goals on rules are true. -/
noncomputable def multiplicity (p : Program) (policy : BodyPolicy) (a : Assignment)
    (goals : List Goal) : Nat :=
  if ∀ g ∈ goals, (p.rule? g.symbol).isSome = true → p.Holds policy (a.ground g) then
    ((goals.filter fun g ↦ (p.rule? g.symbol).isNone).map fun g ↦ p.facts.count (a.ground g)).prod
  else 0

variable {a : Assignment} {g : Goal} {goals : List Goal}

@[simp] theorem multiplicity_nil : p.multiplicity policy a [] = 1 := by
  simp [multiplicity]

open Classical in
/-- A goal on a rule counts once if it is true, however many ways there are to derive it. -/
theorem multiplicity_cons_rule (hrule : (p.rule? g.symbol).isSome = true) :
    p.multiplicity policy a (g :: goals) =
      if p.Holds policy (a.ground g) then p.multiplicity policy a goals else 0 := by
  obtain ⟨r, hr⟩ := Option.isSome_iff_exists.mp hrule
  by_cases hg : p.Holds policy (a.ground g) <;> simp [multiplicity, hr, hg]

/-- A goal on facts counts as often as its fact is listed. -/
theorem multiplicity_cons_listed (hrule : p.rule? g.symbol = none) :
    p.multiplicity policy a (g :: goals) =
      p.facts.count (a.ground g) * p.multiplicity policy a goals := by
  have hall : (∀ g' ∈ g :: goals, (p.rule? g'.symbol).isSome = true → p.Holds policy (a.ground g')) ↔
      ∀ g' ∈ goals, (p.rule? g'.symbol).isSome = true → p.Holds policy (a.ground g') := by
    simp [hrule]
  by_cases hgoals : ∀ g' ∈ goals, (p.rule? g'.symbol).isSome = true → p.Holds policy (a.ground g')
  · rw [multiplicity, multiplicity, if_pos (hall.mpr hgoals), if_pos hgoals]
    simp [hrule]
  · rw [multiplicity, multiplicity, if_neg (mt hall.mp hgoals), if_neg hgoals, Nat.mul_zero]

/-- Multiplicities of goals multiply. -/
theorem multiplicity_cons :
    p.multiplicity policy a (g :: goals) =
      p.multiplicity policy a [g] * p.multiplicity policy a goals := by
  cases hrule : p.rule? g.symbol with
  | none => simp [multiplicity_cons_listed hrule]
  | some r =>
    rw [multiplicity_cons_rule (by simp [hrule]), multiplicity_cons_rule (by simp [hrule])]
    split <;> simp

/-- An assignment is found exactly if it makes all goals true. -/
theorem multiplicity_pos_iff :
    0 < p.multiplicity policy a goals ↔ ∀ g ∈ goals, p.Holds policy (a.ground g) := by
  induction goals with
  | nil => simp
  | cons g goals ih =>
    rw [List.forall_mem_cons, ← ih]
    cases hrule : p.rule? g.symbol with
    | none =>
      rw [multiplicity_cons_listed hrule, holds_iff_mem (by simpa using hrule),
        CanonicallyOrderedAdd.mul_pos, List.count_pos_iff]
    | some r =>
      rw [multiplicity_cons_rule (by simp [hrule])]
      by_cases hg : p.Holds policy (a.ground g) <;> simp [hg]

end Program

end HornQuery
